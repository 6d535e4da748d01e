import Enroll.Failure

/-!
# What failures say

The words of every failure, as they are read. What is wrong with an environment is said issue by
issue, each with the name of its variable, and all of it in one message.
-/

namespace Enroll

namespace Fault

inductive Worded : Fault → Text → Prop where
  | missing : Worded .missing "Required"
  | kind (expected received : String) : Worded (.kind expected received)
      ("Expected " ++ Text.ofString expected ++ ", received " ++ Text.ofString received)
  | fraction : Worded .fraction "Expected integer, received float"
  | below (n : Nat) :
    Worded (.below n) ("Number must be greater than or equal to " ++ Text.ofNat n)
  | notAbove (n : Nat) : Worded (.notAbove n) ("Number must be greater than " ++ Text.ofNat n)
  | above (n : Nat) : Worded (.above n) ("Number must be less than or equal to " ++ Text.ofNat n)
  | emptyText : Worded .emptyText "String must contain at least 1 character(s)"

theorem message_eq_iff_worded {f : Fault} {t : Text} : f.message = t ↔ f.Worded t := by
  constructor
  · rintro rfl
    cases f <;> constructor
  · intro h
    cases h <;> rfl

end Fault

/-- Issues one after another, each as the name of its variable and what is wrong with it. -/
inductive Listed : List Issue → Text → Prop where
  | none : Listed [] []
  | one {name t : Text} {f : Fault} (hFault : f.Worded t) : Listed [⟨name, f⟩] (name ++ ": " ++ t)
  | more {name t rest : Text} {f : Fault} {i : Issue} {issues : List Issue} (hFault : f.Worded t)
      (hRest : Listed (i :: issues) rest) :
    Listed (⟨name, f⟩ :: i :: issues) (name ++ ": " ++ t ++ "; " ++ rest)

theorem issuesText_cons_cons (i j : Issue) (rest : List Issue) :
    Failure.issuesText (i :: j :: rest) =
      Failure.issueText i ++ ("; " ++ Failure.issuesText (j :: rest)) := by
  rw [Failure.issuesText, List.map_cons, List.map_cons, List.intersperse_cons_cons,
    List.flatten_cons, List.flatten_cons, ← List.map_cons, ← Failure.issuesText]

theorem listed_issuesText (issues : List Issue) : Listed issues (Failure.issuesText issues) := by
  induction issues with
  | nil => exact .none
  | cons i rest ih =>
    obtain ⟨name, f⟩ := i
    have hFault : f.Worded f.message := Fault.message_eq_iff_worded.mp rfl
    cases rest with
    | nil =>
      rw [Failure.issuesText, List.map_singleton, List.intersperse_singleton,
        List.flatten_singleton]
      exact .one hFault
    | cons j rest =>
      rw [issuesText_cons_cons, ← List.append_assoc]
      exact .more hFault ih

theorem Listed.issuesText_eq {issues : List Issue} {t : Text} (h : Listed issues t) :
    Failure.issuesText issues = t := by
  induction h with
  | none => rfl
  | one hFault =>
    obtain rfl := Fault.message_eq_iff_worded.mpr hFault
    exact List.append_nil _
  | more hFault hRest ih =>
    obtain rfl := Fault.message_eq_iff_worded.mpr hFault
    rw [issuesText_cons_cons, ih, List.append_assoc _ (Text.ofString "; ")]
    rfl

example : Failure.issuesText [⟨"USER", .missing⟩, ⟨"KEYREG_KEY", .missing⟩] =
    ("USER: Required; KEYREG_KEY: Required" : String) := by
  decide +kernel

namespace Failure

/-- The words of a failure. One from outside has its own, and what is no error has none. -/
inductive Worded : Failure → Text → Prop where
  | invalidPort (operation : String) (port : Number) : Worded (.invalidPort operation port)
      ("keyreg-client:" ++ Text.ofString operation ++ " - Invalid port " ++ port.text ++
        ": expected an integer from 1 to 65535")
  | invalidEnvironment {issues : List Issue} {t : Text} (hIssues : Listed issues t) :
    Worded (.invalidEnvironment issues) ("keyreg-client:config - Invalid environment: " ++ t)
  | userMissing : Worded .userMissing "keyreg-client:config - KEYREG_USER (or USER) is required"
  | keyFileMissing (path : Text) :
    Worded (.keyFileMissing path) ("keyreg-client:config - Key file not found: " ++ path)
  | keyMissing :
    Worded .keyMissing "keyreg-client:config - KEYREG_KEY or KEYREG_KEY_FILE is required"
  | directoryRead : Worded .directoryRead "EISDIR: illegal operation on a directory, read"
  | nestedTooDeep : Worded .nestedTooDeep "Maximum call stack size exceeded"
  | transport (code : TransportCode) (t url : Text) (timeout : Option Number)
      (cause : Option Failure) : Worded (.transport code t url timeout cause) t
  | error (kind : ErrorKind) (t : Text) (code : Option Json) (cause : Option Failure) :
    Worded (.error kind t code cause) t
  | value (v : Json) : Worded (.value v) []

theorem configMessage_ofString (what : String) :
    configMessage what = Text.ofString ("keyreg-client:config - " ++ what) := by
  rw [configMessage, Text.ofString, Text.ofString, Text.ofString, String.toList_append,
    List.flatMap_append]

theorem configMessage_append (what : String) (rest : Text) :
    configMessage (Text.ofString what ++ rest) =
      Text.ofString ("keyreg-client:config - " ++ what) ++ rest := by
  rw [← configMessage_ofString, configMessage, configMessage, List.append_assoc]

/-- The message of an invalid environment has all that is wrong with it, in one line. -/
theorem message_invalidEnvironment {issues : List Issue} {t : Text} (h : Listed issues t) :
    (invalidEnvironment issues).message = "keyreg-client:config - Invalid environment: " ++ t := by
  rw [message, h.issuesText_eq]
  exact configMessage_append _ t

theorem lists_issues (issues : List Issue) : ∃ t, Listed issues t ∧
    (invalidEnvironment issues).message = "keyreg-client:config - Invalid environment: " ++ t :=
  ⟨_, listed_issuesText issues, message_invalidEnvironment (listed_issuesText issues)⟩

theorem worded_message (f : Failure) : f.Worded f.message := by
  cases f with
  | invalidEnvironment issues =>
    obtain ⟨t, hListed, hMessage⟩ := lists_issues issues
    rw [hMessage]
    exact .invalidEnvironment hListed
  | keyFileMissing path =>
    rw [message, configMessage_append]
    exact .keyFileMissing path
  | userMissing =>
    rw [message, configMessage_ofString]
    exact .userMissing
  | keyMissing =>
    rw [message, configMessage_ofString]
    exact .keyMissing
  | _ => constructor

theorem message_eq_iff_worded {f : Failure} {t : Text} : f.message = t ↔ f.Worded t := by
  constructor
  · rintro rfl
    exact f.worded_message
  · intro h
    cases h with
    | invalidEnvironment hIssues => exact message_invalidEnvironment hIssues
    | keyFileMissing path => exact configMessage_append _ path
    | userMissing | keyMissing => exact configMessage_ofString _
    | _ => rfl

/-! ## Kinds and codes -/

inductive TypeError : Failure → Prop where
  | mk (t : Text) (code : Option Json) (cause : Option Failure) :
    TypeError (.error .type t code cause)

theorem isTypeError_iff {f : Failure} : f.isTypeError ↔ f.TypeError := by
  constructor
  · intro h
    unfold isTypeError at h
    split at h
    · exact .mk _ _ _
    · exact absurd h Bool.false_ne_true
  · rintro ⟨t, code, cause⟩
    rfl

theorem isTypeError_eq_false_iff {f : Failure} : f.isTypeError = false ↔ ¬f.TypeError := by
  rw [← isTypeError_iff, Bool.not_eq_true]

/-- The code of a failure, a text with something in it. -/
inductive Carries : Failure → Text → Prop where
  | connectionFailed (t url : Text) (timeout : Option Number) (cause : Option Failure) :
    Carries (.transport .connectionFailed t url timeout cause) "CONNECTION_FAILED"
  | timeout (t url : Text) (timeout : Option Number) (cause : Option Failure) :
    Carries (.transport .timeout t url timeout cause) "TIMEOUT"
  | directoryRead : Carries .directoryRead "EISDIR"
  | error (kind : ErrorKind) (t : Text) {code : Text} (hSome : code ≠ []) (cause : Option Failure) :
    Carries (.error kind t (some (.string code)) cause) code

theorem codeText?_eq_some_iff {f : Failure} {code : Text} :
    f.codeText? = some code ↔ f.Carries code := by
  constructor
  · intro h
    unfold codeText? at h
    split at h
    · rename_i transport t url timeout cause
      obtain rfl := Option.some.inj h
      cases transport
      · exact .connectionFailed t url timeout cause
      · exact .timeout t url timeout cause
    · obtain rfl := Option.some.inj h
      exact .directoryRead
    · obtain rfl := Option.some.inj h
      exact .error _ _ (List.cons_ne_nil _ _) _
    · cases h
  · rintro (_ | _ | _ | ⟨kind, t, hSome, cause⟩)
    · rfl
    · rfl
    · rfl
    · obtain ⟨u, rest, rfl⟩ := List.exists_cons_of_ne_nil hSome
      rfl

/-- What is said to have kept a request from being answered: of the error underneath its code, if it
has one, and its words; where there is none the words of the failure itself. -/
inductive NetworkReason : Failure → Text → Prop where
  | coded (t : Text) (own : Option Json) {cause : Failure} {code words : Text}
    (hCode : cause.Carries code) (hWords : cause.Worded words) :
    NetworkReason (.error .type t own (some cause)) (code ++ " (" ++ words ++ ")")
  | uncoded (t : Text) (own : Option Json) {cause : Failure} {words : Text}
    (hError : ∀ v, cause ≠ .value v) (hNone : ∀ code, ¬cause.Carries code)
    (hWords : cause.Worded words) : NetworkReason (.error .type t own (some cause)) words
  | thrown (t : Text) (own : Option Json) (v : Json) :
    NetworkReason (.error .type t own (some (.value v))) t
  | bare (t : Text) (own : Option Json) : NetworkReason (.error .type t own none) t

theorem networkReason_networkReason {f : Failure} (h : f.TypeError) :
    f.NetworkReason f.networkReason := by
  obtain ⟨t, own, cause⟩ := h
  cases cause with
  | none => exact .bare t own
  | some cause =>
    by_cases hValue : ∃ v, cause = .value v
    · obtain ⟨v, rfl⟩ := hValue
      exact .thrown t own v
    · have hError : cause.isError := by
        cases cause with
        | value v => exact absurd ⟨v, rfl⟩ hValue
        | _ => rfl
      simp only [networkReason, cause?, hError, if_true]
      cases hCode : cause.codeText? with
      | some code => exact .coded t own (codeText?_eq_some_iff.mp hCode) cause.worded_message
      | none =>
        refine .uncoded t own (not_exists.mp hValue) (fun code hCarries => ?_) cause.worded_message
        exact absurd (hCode.symm.trans (codeText?_eq_some_iff.mpr hCarries)) nofun

end Failure

end Enroll
