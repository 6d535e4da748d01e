import Enroll.Proofs.Command.Downstream
import Enroll.Proofs.Number.Reading

/-!
# Two checks of a port

The port of a job is checked as a text of the environment, and once more as a number when a client
is asked for something there. The environment tells of the port what is wrong with the number that
its text reads as, and nothing else. So a text that gets through it is one that a client takes: the
number is a natural in the range, and an address shows it in its digits.
-/

namespace Enroll

/-! ## The check of a number -/

theorem Range.faultsOf?_eq_nil_iff {r : Range} (hFirst : 0 < r.lower.first)
    (hFits : r.greatest < 2 ^ 53) {v : Option Json} :
    r.faultsOf? v = [] ↔ ∃ (x : Number) (k : Int), v = some (.number x) ∧ x.place? = some (.at k) ∧
      r.lower.first ≤ k ∧ k ≤ r.greatest := by
  constructor
  · intro h
    cases v with
    | none => cases h
    | some v =>
      cases v with
      | number x =>
        obtain ⟨k, hLow, hHigh, rfl⟩ := (faults_eq_nil_iff hFirst hFits).mp h
        have hPlace := Number.place?_ofNat (n := k) (by omega) (by omega)
        exact ⟨.ofNat k, k, rfl, hPlace, by omega, by omega⟩
      | _ => cases h
  · rintro ⟨x, k, rfl, hPlace, hLow, hHigh⟩
    obtain ⟨k, rfl⟩ := Int.eq_ofNat_of_zero_le (a := k) (by omega)
    have hNumber := Number.eq_ofNat (n := k) (by omega) hPlace
    exact (faults_eq_nil_iff hFirst hFits).mpr ⟨k, by omega, by omega, hNumber⟩

theorem validPort_iff {port : Number} :
    validPort port ↔ portRange.faultsOf? (some (.number port)) = [] := List.isEmpty_iff

namespace Client

open Command

theorem checkPort_eq_pure_iff {operation : String} {port : Number} :
    checkPort operation port = pure () ↔ portRange.faultsOf? (some (.number port)) = [] := by
  rw [← validPort_iff]
  constructor
  · intro h
    by_contra hPort
    rw [checkPort, if_neg hPort] at h
    cases h
  · exact fun hPort => checkPort_of_valid hPort operation

/-- A client registers at a port in spite of its own check of it, and its request shows the port as
a natural in decimal digits. Only a logger that fails keeps it from making the request. -/
structure RegistersAt [Nesting] (c : Client) (port : Number) (k : Nat) : Prop where
  checked : checkPort "register" port = pure ()
  digits : (∀ u ∈ Text.ofNat k, Text.isDigit u) ∧ (Text.ofNat k).head? ≠ some 0x30 ∧
    Literal.natOf (Text.ofNat k) = k
  shown : ∀ r s now, ∀ e ∈ sent (c.call (.register port r)) now s,
    e = ⟨now, .sent (postTo c.host k r) false⟩
  sent : c.log.NeverFails → ∀ r s now, sent (c.call (.register port r)) now s =
    [⟨now, .sent (postTo c.host k r) false⟩]

theorem registersAt_ofNat [Nesting] (c : Client) {k : Nat} (hFirst : 1 ≤ k) (hLast : k ≤ 65535)
    (hPort : validPort (.ofNat k)) : c.RegistersAt (.ofNat k) k := by
  have hUrl : c.url (.ofNat k) registerPath = addressOf c.host k := by
    rw [url, Number.text_ofNat hFirst (by omega)]
    rfl
  constructor
  · exact checkPort_of_valid hPort _
  · exact ⟨Text.isDigit_of_mem_ofNat k, Text.head_ofNat k hFirst, Text.natOf_ofNat k⟩
  · intro r s now e he
    rcases c.sent_register (.ofNat k) r s now with ⟨-, hNone⟩ | hSent
    · rw [hNone] at he
      cases he
    · rw [hSent, hUrl] at he
      exact List.mem_singleton.mp he
  · intro hLog r s now
    rcases c.sent_register (.ofNat k) r s now with ⟨⟨f, hFails⟩, -⟩ | hSent
    · rw [register_of_valid hLog hPort] at hFails
      cases hFails
    · rw [hSent, hUrl]
      rfl

end Client

/-! ## The check of an environment -/

namespace Environment

variable {env : Environment} {files : Files} {log : Logger} {entries : List LogEntry}
  {issues : List Issue} {n : Number}

/-- The number that an environment hands in for its port. -/
inductive HandsIn (env : Environment) : Number → Prop where
  | set {t : Text} {n : Number} (hSet : env.value? "KEYREG_PORT" = some t)
    (hReads : Number.Reads t n) : HandsIn env n
  | unset (hUnset : env.value? "KEYREG_PORT" = none) : HandsIn env .nan

theorem handsIn_iff : env.HandsIn n ↔ n = env.read.port := by
  constructor
  · rintro (⟨hSet, hReads⟩ | hUnset)
    · rw [read, hSet]
      exact (Number.ofText_eq_iff_reads.mpr hReads).symm
    · rw [read, hUnset]
      rfl
  · rintro rfl
    cases hSet : env.value? "KEYREG_PORT" with
    | some t =>
      rw [read, hSet]
      exact .set hSet (Number.ofText_eq_iff_reads.mp rfl)
    | none =>
      rw [read, hSet]
      exact .unset hSet

/-- The issues that are told of one variable. -/
def issuesAt (name : Text) (issues : List Issue) : List Issue :=
  issues.filter fun i => i.field == name

/-- The issues of the port come first, and the variables after it have other names. -/
theorem issuesAt_port (h : env.Reports issues) :
    issuesAt "KEYREG_PORT" issues =
      (Variables.portSettingRange.faults env.read.port).map (Issue.mk "KEYREG_PORT") := by
  have hPort : ∀ i ∈ (Variables.portSettingRange.faults env.read.port).map
      (Issue.mk "KEYREG_PORT"), i.field == "KEYREG_PORT" := by simp
  have hTexts : ∀ i ∈ texts.flatMap fun name =>
      if env.value? name = some [] then [(⟨name, .emptyText⟩ : Issue)] else [],
      ¬i.field == "KEYREG_PORT" := by
    intro i hi
    obtain ⟨name, hName, hi⟩ := List.mem_flatMap.mp hi
    have hOther : ∀ name ∈ texts, ¬name == "KEYREG_PORT" := by decide
    split at hi
    · obtain rfl := List.mem_singleton.mp hi
      exact hOther name hName
    · cases hi
  have hTimeout : ∀ i ∈ (Variables.timeoutFaults env.read.timeout).map
      (Issue.mk "KEYREG_TIMEOUT_MS"), ¬i.field == "KEYREG_PORT" := by
    intro i hi
    obtain ⟨f, -, rfl⟩ := List.mem_map.mp hi
    exact (by decide : ¬("KEYREG_TIMEOUT_MS" : Text) == "KEYREG_PORT")
  rw [← issues_of_reports h, issues_members, issuesAt, List.filter_append, List.filter_append,
    List.filter_eq_self.mpr hPort, List.filter_eq_nil_iff.mpr hTexts,
    List.filter_eq_nil_iff.mpr hTimeout, List.append_nil, List.append_nil]

theorem Decides.reports_of_invalid
    (h : env.Decides files entries (.error (.invalidEnvironment issues))) : env.Reports issues := by
  generalize hResult : (Except.error (.invalidEnvironment issues) : Except Failure Job) = result at h
  cases h with
  | invalid hIssues =>
    obtain ⟨⟩ := hResult
    exact hIssues
  | nobody => cases hResult
  | @keyed _ _ _ key _ _ _ hKeys =>
    cases key with
    | ok k => cases hResult
    | error f =>
      obtain ⟨⟩ := hResult
      cases hKeys

theorem port_of_load [Nesting] {job : Job}
    (h : (Job.load (.object env.members) files log).result = .ok job) :
    job.port = env.read.port := by
  obtain ⟨t, u, k, entries, -, hSet, -, -, rfl⟩ := Job.keyed_of_load h
  rw [read, hSet]
  rfl

/-- What an environment tells of its port is what the check of a number finds of it, and a number
without faults is the port of the job, where a client can register. -/
structure ChecksPort [Nesting] (env : Environment) (files : Files) (log : Logger) (n : Number) :
    Prop where
  refused : portRange.faultsOf? (some (.number n)) ≠ [] →
    ∃ issues, Job.load (.object env.members) files log = .fail (.invalidEnvironment issues)
  told : ∀ issues, Job.load (.object env.members) files log = .fail (.invalidEnvironment issues) →
    issuesAt "KEYREG_PORT" issues =
        (portRange.faultsOf? (some (.number n))).map (Issue.mk "KEYREG_PORT") ∧
      ((issuesAt "KEYREG_PORT" issues).map Failure.issueText =
        (portRange.faultsOf? (some (.number n))).map fun f =>
          Text.ofString "KEYREG_PORT: " ++ f.message) ∧
      ∃ t, Listed issues t ∧ (Failure.invalidEnvironment issues).message =
        "keyreg-client:config - Invalid environment: " ++ t
  loaded : ∀ job, (Job.load (.object env.members) files log).result = .ok job →
    job.port = n ∧ portRange.faultsOf? (some (.number n)) = []
  accepted : portRange.faultsOf? (some (.number n)) = [] → ∃ k : Nat, 1 ≤ k ∧ k ≤ 65535 ∧
    n.place? = some (.at k) ∧ ∀ c : Client, c.RegistersAt n k

theorem checksPort [Nesting] (env : Environment) (files : Files) (log : Logger) :
    env.ChecksPort files log env.read.port := by
  constructor
  · intro hFaults
    refine ⟨_, Job.load_of_invalid env.tells_issues ?_ files log⟩
    intro hNone
    have hPort := issuesAt_port env.tells_issues
    rw [hNone] at hPort
    exact hFaults (List.map_eq_nil_iff.mp hPort.symm)
  · intro issues h
    obtain ⟨entries, hDecides⟩ := Job.decides_of_fail h
    have hPort := issuesAt_port hDecides.reports_of_invalid
    rw [Job.portSettingRange_eq] at hPort
    refine ⟨hPort, ?_, Failure.lists_issues issues⟩
    rw [hPort, List.map_map]
    rfl
  · intro job h
    have hPort := port_of_load h
    exact ⟨hPort, hPort ▸ validPort_iff.mp (Job.validPort_of_load h)⟩
  · intro hNone
    obtain ⟨k, hFirst, hLast, hNumber⟩ :=
      (Range.faults_eq_nil_iff (r := portRange) (by decide) (by decide)).mp hNone
    rw [hNumber] at hNone ⊢
    refine ⟨k, hFirst, hLast, Number.place?_ofNat hFirst ?_, fun c => ?_⟩
    · exact hLast.trans_lt (by decide)
    · exact c.registersAt_ofNat hFirst hLast (validPort_iff.mpr hNone)

/-- An environment hands in one number for its port. What it tells of the port are the rules that
the number breaks, which are those of the check of a client; so it makes a job at no other port than
one that a client can register at, and turns down none of these. -/
theorem port_checks_agree [Nesting] (env : Environment) (files : Files) (log : Logger) :
    ∃ n, (∀ x, env.HandsIn x ↔ x = n) ∧
      Tells [.kind "number" "nan", .fraction, .below 1, .above 65535]
        (Range.Violates ⟨.least 1, 65535⟩ n) (portRange.faultsOf? (some (.number n))) ∧
      env.ChecksPort files log n ∧
      (∀ v, portRange.faultsOf? v = [] ↔ ∃ (x : Number) (k : Int), v = some (.number x) ∧
        x.place? = some (.at k) ∧ 1 ≤ k ∧ k ≤ 65535) ∧
      ∀ operation x, Client.checkPort operation x = pure () ↔
        portRange.faultsOf? (some (.number x)) = [] := by
  refine ⟨env.read.port, fun x => handsIn_iff, ?_, env.checksPort files log, fun v => ?_, ?_⟩
  · exact portRange.tells_faults env.read.port
  · exact Range.faultsOf?_eq_nil_iff (by decide) (by decide)
  · exact fun operation x => Client.checkPort_eq_pure_iff

example : portRange.faultsOf? (some (.number (.ofText "-.5e0 "))) = [.fraction, .below 1] := by
  decide +kernel

end Environment

end Enroll
