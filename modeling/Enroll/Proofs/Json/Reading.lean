import Enroll.Json.Reader
import Enroll.Proofs.Json.Lexing

/-!
# The reader and the grammar

What the reader has read is at each token a beginning of a value with the containers on the stack
still open, and it goes on with every value of the grammar. So `read?` gives a value to the texts of
the grammar, and to no others.
-/

namespace Enroll.Json.Reader

/-! ## What was read belongs to a value -/

/-- The tokens of containers that are still open, up to where the innermost takes its next value. -/
inductive Open : List Frame → List Token → Prop where
  | nil : Open [] []
  | firstElement {stack : List Frame} {ts : List Token} (h : Open stack ts) :
    Open (.array [] :: stack) (ts ++ [.openArray])
  | element {stack : List Frame} {ts us : List Token} {before : List Json} (h : Open stack ts)
    (hBefore : Derives (.elements before.reverse) us) :
    Open (.array before :: stack) (ts ++ .openArray :: (us ++ [.comma]))
  | firstMember {stack : List Frame} {ts : List Token} {k : Text} (h : Open stack ts) :
    Open (.object [] k :: stack) (ts ++ [.openObject, .string k, .colon])
  | member {stack : List Frame} {ts us : List Token} {pairs : Members} {k : Text}
    (h : Open stack ts) (hBefore : Derives (.members pairs) us) :
    Open (.object (Members.setAll [] pairs) k :: stack)
      (ts ++ .openObject :: (us ++ [.comma, .string k, .colon]))

def Holds : Reader → List Token → Prop
  | .value stack, read => Open stack read
  | .firstElement stack, read => ∃ ts, Open stack ts ∧ read = ts ++ [.openArray]
  | .afterElement elements stack, read =>
    ∃ ts us, Open stack ts ∧ Derives (.elements elements.reverse) us ∧
      read = ts ++ .openArray :: us
  | .firstKey stack, read => ∃ ts, Open stack ts ∧ read = ts ++ [.openObject]
  | .key before stack, read =>
    ∃ ts us pairs, Open stack ts ∧ Derives (.members pairs) us ∧
      before = Members.setAll [] pairs ∧ read = ts ++ .openObject :: (us ++ [.comma])
  | .colon before k stack, read => Open (.object before k :: stack) (read ++ [.colon])
  | .afterMember members stack, read =>
    ∃ ts us pairs, Open stack ts ∧ Derives (.members pairs) us ∧
      members = Members.setAll [] pairs ∧ read = ts ++ .openObject :: us
  | .done v, read => Derives (.value v) read

theorem holds_complete {stack : List Frame} {ts us : List Token} {v : Json} (h : Open stack ts)
    (hValue : Derives (.value v) us) : Holds (complete v stack) (ts ++ us) := by
  cases h with
  | nil => exact hValue
  | firstElement h => exact ⟨_, us, h, .element hValue, by simp⟩
  | @element _ ts ws before h hBefore =>
    refine ⟨ts, ws ++ .comma :: us, h, ?_, by simp⟩
    rw [List.reverse_cons]
    exact .elements hBefore hValue
  | @firstMember _ ts k h =>
    exact ⟨ts, _, [(k, v)], h, .member hValue, rfl, by simp⟩
  | @member _ ts _ pairs k h hBefore =>
    refine ⟨ts, _, pairs ++ [(k, v)], h, .members hBefore hValue, ?_, ?_⟩
    · exact (Members.setAll_concat [] pairs k v).symm
    · simp

theorem holds_beginValue {stack : List Frame} {ts : List Token} {token : Token} {r : Reader}
    (h : Open stack ts) (hNext : beginValue stack token = some r) : Holds r (ts ++ [token]) := by
  cases token with
  | openArray =>
    obtain rfl := Option.some.inj hNext
    exact ⟨ts, h, rfl⟩
  | openObject =>
    obtain rfl := Option.some.inj hNext
    exact ⟨ts, h, rfl⟩
  | string t =>
    obtain rfl := Option.some.inj hNext
    exact holds_complete h (.string t)
  | scalar v =>
    obtain rfl := Option.some.inj hNext
    exact holds_complete h (.scalar v)
  | _ => exact absurd hNext (by simp [beginValue])

/-- One more token keeps what was read the beginning of a value. -/
theorem holds_next {r r' : Reader} {read : List Token} {token : Token} (h : Holds r read)
    (hNext : next r token = some r') : Holds r' (read ++ [token]) := by
  cases r with
  | value stack => exact holds_beginValue h hNext
  | firstElement stack =>
    obtain ⟨ts, hOpen, rfl⟩ := h
    cases token with
    | closeArray =>
      obtain rfl := Option.some.inj hNext
      simpa using holds_complete hOpen .emptyArray
    | _ => exact holds_beginValue (.firstElement hOpen) hNext
  | afterElement elements stack =>
    obtain ⟨ts, us, hOpen, hElements, rfl⟩ := h
    cases token with
    | comma =>
      obtain rfl := Option.some.inj hNext
      simpa [Holds] using Open.element hOpen hElements
    | closeArray =>
      obtain rfl := Option.some.inj hNext
      simpa using holds_complete hOpen (.array hElements)
    | _ => exact absurd hNext (by simp [next])
  | firstKey stack =>
    obtain ⟨ts, hOpen, rfl⟩ := h
    cases token with
    | closeObject =>
      obtain rfl := Option.some.inj hNext
      simpa using holds_complete hOpen .emptyObject
    | string k =>
      obtain rfl := Option.some.inj hNext
      simpa [Holds] using Open.firstMember (k := k) hOpen
    | _ => exact absurd hNext (by simp [next])
  | key before stack =>
    obtain ⟨ts, us, pairs, hOpen, hMembers, rfl, rfl⟩ := h
    cases token with
    | string k =>
      obtain rfl := Option.some.inj hNext
      simpa [Holds] using Open.member (k := k) hOpen hMembers
    | _ => exact absurd hNext (by simp [next])
  | colon before k stack =>
    cases token with
    | colon =>
      obtain rfl := Option.some.inj hNext
      exact h
    | _ => exact absurd hNext (by simp [next])
  | afterMember members stack =>
    obtain ⟨ts, us, pairs, hOpen, hMembers, rfl, rfl⟩ := h
    cases token with
    | comma =>
      obtain rfl := Option.some.inj hNext
      exact ⟨ts, us, pairs, hOpen, hMembers, rfl, by simp⟩
    | closeObject =>
      obtain rfl := Option.some.inj hNext
      simpa using holds_complete hOpen (.object hMembers (Members.arranges_setAll pairs))
    | _ => exact absurd hNext (by simp [next])
  | done v => exact absurd hNext (by simp [next])

theorem holds_run {r r' : Reader} {read ts : List Token} (h : Holds r read)
    (hRun : run r ts = some r') : Holds r' (read ++ ts) := by
  induction ts generalizing r read with
  | nil =>
    obtain rfl := Option.some.inj hRun
    rwa [List.append_nil]
  | cons token rest ih =>
    rw [run] at hRun
    split at hRun
    · exact absurd hRun (by simp)
    · rename_i s hNext
      simpa using ih (holds_next h hNext) hRun

/-! ## Every value is read -/

theorem run_cons {r r' : Reader} {token : Token} (h : next r token = some r') (ts : List Token) :
    run r (token :: ts) = run r' ts := by
  rw [run, h]

/-- No value starts as an array ends, and a member starts with its key. -/
def Starts : Phrase → List Token → Prop
  | .value _, ts | .elements _, ts => ∃ token us, ts = token :: us ∧ token ≠ .closeArray
  | .members _, ts => ∃ k us, ts = .string k :: us

theorem starts_of_derives {phrase : Phrase} {ts : List Token} (h : Derives phrase ts) :
    Starts phrase ts := by
  induction h with
  | element _ ih => exact ih
  | elements _ _ ih _ =>
    obtain ⟨token, us, rfl, hToken⟩ := ih
    exact ⟨token, _, rfl, hToken⟩
  | member => exact ⟨_, _, rfl⟩
  | members _ _ ih _ =>
    obtain ⟨k, us, rfl⟩ := ih
    exact ⟨k, _, rfl⟩
  | _ => exact ⟨_, _, rfl, by simp⟩

def Takes : Phrase → List Token → Prop
  | .value v, ts => ∀ stack rest, run (.value stack) (ts ++ rest) = run (complete v stack) rest
  | .elements xs, ts => ∀ before stack rest,
    run (.value (.array before :: stack)) (ts ++ rest) =
      run (.afterElement (xs.reverse ++ before) stack) rest
  | .members pairs, ts => ∀ before stack rest,
    run (.key before stack) (ts ++ rest) =
      run (.afterMember (Members.setAll before pairs) stack) rest

theorem run_firstElement {xs : List Json} {ts : List Token} (h : Derives (.elements xs) ts)
    (stack : List Frame) (rest : List Token) :
    run (.firstElement stack) (ts ++ rest) = run (.value (.array [] :: stack)) (ts ++ rest) := by
  obtain ⟨token, us, rfl, hToken⟩ := starts_of_derives h
  cases token with
  | closeArray => exact absurd rfl hToken
  | _ => rfl

theorem run_firstKey {pairs : Members} {ts : List Token} (h : Derives (.members pairs) ts)
    (stack : List Frame) (rest : List Token) :
    run (.firstKey stack) (ts ++ rest) = run (.key [] stack) (ts ++ rest) := by
  obtain ⟨k, us, rfl⟩ := starts_of_derives h
  rfl

theorem takes_of_derives {phrase : Phrase} {ts : List Token} (h : Derives phrase ts) :
    Takes phrase ts := by
  induction h with
  | string | scalar | emptyArray | emptyObject => exact fun stack rest => rfl
  | @array xs ts h ih =>
    intro stack rest
    rw [List.cons_append, List.append_assoc, run_cons rfl, run_firstElement h, ih]
    exact run_cons (by simp [next]) rest
  | @object pairs ms ts h hArranged ih =>
    intro stack rest
    rw [List.cons_append, List.append_assoc, run_cons rfl, run_firstKey h, ih,
      (Members.arranges_setAll pairs).unique hArranged]
    exact run_cons rfl rest
  | element _ ih => exact fun before stack rest => ih (.array before :: stack) rest
  | @elements xs v ts us _ _ ihBefore ihLast =>
    intro before stack rest
    rw [List.append_assoc, ihBefore, List.cons_append, run_cons rfl, ihLast]
    simp [complete]
  | @member k v ts _ ih =>
    intro before stack rest
    exact ih (.object before k :: stack) rest
  | @members pairs k v ts us _ _ ihBefore ihLast =>
    intro before stack rest
    rw [List.append_assoc, ihBefore, Members.setAll_concat]
    exact ihLast (.object (Members.setAll before pairs) k :: stack) rest

end Reader

/-! ## Texts -/

theorem read?_eq_some_iff {t : Text} {v : Json} : read? t = some v ↔ Denotes t v := by
  constructor
  · intro h
    obtain ⟨ts, hTokens, h⟩ := Option.bind_eq_some_iff.mp h
    obtain ⟨r, hRun, hResult⟩ := Option.bind_eq_some_iff.mp h
    have hStart : Reader.Holds (.value []) [] := .nil
    have hHolds := Reader.holds_run hStart hRun
    cases r with
    | done w =>
      obtain rfl := Option.some.inj hResult
      exact ⟨ts, (tokens?_eq_some_iff hHolds.apart).mp hTokens, hHolds⟩
    | _ => exact absurd hResult (by simp [Reader.result?])
  · rintro ⟨ts, hLexes, hDerives⟩
    have hRun := Reader.takes_of_derives hDerives [] []
    rw [List.append_nil] at hRun
    rw [read?, (tokens?_eq_some_iff hDerives.apart).mpr hLexes, Option.bind_some, hRun]
    rfl

/-- A text denotes one value at most. -/
theorem Denotes.unique {t : Text} {v w : Json} (hv : Denotes t v) (hw : Denotes t w) : v = w :=
  Option.some.inj ((read?_eq_some_iff.mpr hv).symm.trans (read?_eq_some_iff.mpr hw))

end Enroll.Json
