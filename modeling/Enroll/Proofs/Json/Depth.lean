import Enroll.Proofs.Json.Spread
import Mathlib.Data.List.Infix

/-!
# Values at every depth

`Within` is how a value stands in another. Whatever stands in a value that was read is spelled by a
stretch of its tokens, and an object by pairs between braces, in whose order its keys first appear.
Values in order that say the same, `Same`, are one: no other arrangement of them is in order.
-/

namespace Enroll.Json

/-! ## Values within values -/

/-- The value stands at the root of the other, or in an element or a member of it. -/
inductive Within (w : Json) : Json → Prop where
  | root : Within w w
  | element {xs : List Json} {x : Json} (hx : x ∈ xs) (h : Within w x) : Within w (.array xs)
  | member {ms : Members} {m : Text × Json} (hm : m ∈ ms) (h : Within w m.2) :
    Within w (.object ms)

theorem Ordered.within {v w : Json} (hv : v.Ordered) (h : Within w v) : w.Ordered := by
  induction h with
  | root => exact hv
  | element hx _ ih =>
    cases hv with
    | array hElements => exact ih (hElements _ hx)
  | member hm _ ih =>
    cases hv with
    | object _ hMembers => exact ih (hMembers _ hm)

/-! ## Stretches of tokens -/

/-- The values that a phrase lists. -/
def Phrase.listed : Phrase → List Json
  | .value _ => []
  | .elements xs => xs
  | .members pairs => pairs.map Prod.snd

theorem Derives.of_listed {phrase : Phrase} {ts : List Token} (h : Derives phrase ts) :
    ∀ v ∈ phrase.listed, ∃ us, us <:+: ts ∧ Derives (.value v) us := by
  induction h with
  | string | scalar | emptyArray | array | emptyObject | object =>
    exact fun v hv => absurd hv List.not_mem_nil
  | element h _ =>
    intro v hv
    obtain rfl := List.mem_singleton.mp hv
    exact ⟨_, List.infix_rfl, h⟩
  | @elements xs last ts us _ hLast ih _ =>
    intro v hv
    rcases List.mem_append.mp hv with hv | hv
    · obtain ⟨us', hInfix, hDerives⟩ := ih v hv
      exact ⟨us', hInfix.trans (List.prefix_append _ _).isInfix, hDerives⟩
    · obtain rfl := List.mem_singleton.mp hv
      exact ⟨us, ⟨ts ++ [.comma], [], by simp⟩, hLast⟩
  | @member key only ts h _ =>
    intro v hv
    obtain rfl := List.mem_singleton.mp hv
    exact ⟨ts, ⟨[.string key, .colon], [], by simp⟩, h⟩
  | @members pairs key last ts us _ hLast ih _ =>
    intro v hv
    rw [Phrase.listed, List.map_append] at hv
    rcases List.mem_append.mp hv with hv | hv
    · obtain ⟨us', hInfix, hDerives⟩ := ih v hv
      exact ⟨us', hInfix.trans (List.prefix_append _ _).isInfix, hDerives⟩
    · obtain rfl := List.mem_singleton.mp hv
      exact ⟨us, ⟨ts ++ [.comma, .string key, .colon], [], by simp⟩, hLast⟩

/-- The scalar tokens of the list are words, so none of them stands for an array or an object. -/
def Words (ts : List Token) : Prop := ∀ v, Token.scalar v ∈ ts → ∃ w, Word w v

theorem Words.stretch {ts us : List Token} (h : Words ts) (hInfix : us <:+: ts) : Words us :=
  fun v hv => h v (hInfix.subset hv)

/-- A value that is listed between two tokens is spelled by a stretch of what they enclose. -/
theorem Derives.enclosed {phrase : Phrase} {before after : Token} {ts : List Token}
    (h : Derives phrase ts) (hWords : Words (before :: (ts ++ [after]))) {v : Json}
    (hv : v ∈ phrase.listed) :
    ∃ us, us <:+: before :: (ts ++ [after]) ∧ Words us ∧ Derives (.value v) us := by
  obtain ⟨us, hInfix, hDerives⟩ := h.of_listed v hv
  have hStretch := hInfix.trans (⟨[before], [after], rfl⟩ : ts <:+: before :: (ts ++ [after]))
  exact ⟨us, hStretch, hWords.stretch hStretch, hDerives⟩

/-- Whatever stands in a value is spelled by a stretch of its tokens. The induction is on where it
stands, from the outside to the inside. -/
theorem Derives.within {v w : Json} (h : Within w v) :
    ∀ {ts : List Token}, Derives (.value v) ts → Words ts →
      ∃ us, us <:+: ts ∧ Words us ∧ Derives (.value w) us := by
  induction h with
  | root => exact fun hDerives hWords => ⟨_, List.infix_rfl, hWords, hDerives⟩
  | element hx _ ih =>
    intro ts hDerives hWords
    cases hDerives with
    | scalar =>
      obtain ⟨w, hWord⟩ := hWords _ List.mem_cons_self
      cases hWord
    | emptyArray => exact absurd hx List.not_mem_nil
    | array hElements =>
      obtain ⟨us, hInfix, hInner, hElement⟩ := hElements.enclosed hWords hx
      obtain ⟨us', hInfix', hFound⟩ := ih hElement hInner
      exact ⟨us', hInfix'.trans hInfix, hFound⟩
  | member hm _ ih =>
    intro ts hDerives hWords
    cases hDerives with
    | scalar =>
      obtain ⟨w, hWord⟩ := hWords _ List.mem_cons_self
      cases hWord
    | emptyObject => exact absurd hm List.not_mem_nil
    | object hMembers hArranged =>
      have hListed := List.mem_map_of_mem (f := Prod.snd) (hArranged.mem hm)
      obtain ⟨us, hInfix, hInner, hMember⟩ := hMembers.enclosed hWords hListed
      obtain ⟨us', hInfix', hFound⟩ := ih hMember hInner
      exact ⟨us', hInfix'.trans hInfix, hFound⟩

/-- An object as it is written: its pairs, in the order of the text, between braces. -/
inductive Braces : Members → List Token → Prop where
  | nothing : Braces [] [.openObject, .closeObject]
  | pairs {pairs : Members} {ts : List Token} (h : Derives (.members pairs) ts) :
    Braces pairs (.openObject :: (ts ++ [.closeObject]))

theorem Derives.braces {ms : Members} {ts : List Token} (h : Derives (.value (.object ms)) ts)
    (hWords : Words ts) : ∃ pairs, Braces pairs ts ∧ Members.Arranges pairs ms := by
  cases h with
  | scalar =>
    obtain ⟨w, hWord⟩ := hWords _ List.mem_cons_self
    cases hWord
  | emptyObject => exact ⟨[], .nothing, fun _ => rfl, .nil⟩
  | object hMembers hArranged => exact ⟨_, .pairs hMembers, hArranged⟩

/-- Wherever an object stands in a value that was read, its members are arranged out of pairs that
the text lists between braces. -/
theorem Denotes.braces {t : Text} {v : Json} (h : Denotes t v) :
    ∃ ts, Lexes t ts ∧ Derives (.value v) ts ∧ ∀ ms, Within (.object ms) v →
      ∃ pairs us, us <:+: ts ∧ Braces pairs us ∧ Members.Arranges pairs ms := by
  obtain ⟨ts, hLexes, hDerives⟩ := h
  have hWords : Words ts := hLexes.exists_word
  refine ⟨ts, hLexes, hDerives, fun ms hWithin => ?_⟩
  obtain ⟨us, hInfix, hInner, hObject⟩ := Derives.within hWithin hDerives hWords
  obtain ⟨pairs, hBraces, hArranged⟩ := hObject.braces hInner
  exact ⟨pairs, us, hInfix, hBraces, hArranged⟩

/-! ## Values that say the same -/

/-- The values are alike at every depth, except for where the indices of an object stand. -/
inductive Same : Json → Json → Prop where
  | null : Same .null .null
  | bool (b : Bool) : Same (.bool b) (.bool b)
  | number (x : Number) : Same (.number x) (.number x)
  | string (t : Text) : Same (.string t) (.string t)
  | array {xs ys : List Json} (hLength : xs.length = ys.length)
    (hElements : ∀ (i : Nat) (x y : Json), xs[i]? = some x → ys[i]? = some y → Same x y) :
    Same (.array xs) (.array ys)
  | object {ms ns : Members} (hKeys : ∀ key, key ∈ Members.keys ms ↔ key ∈ Members.keys ns)
    (hNames : Members.keys (Members.named ms) = Members.keys (Members.named ns))
    (hMembers : ∀ key v w, Members.get? ms key = some v → Members.get? ns key = some w →
      Same v w) :
    Same (.object ms) (.object ns)

theorem Same.eq_of_ordered {v w : Json} (h : Same v w) (hv : v.Ordered) (hw : w.Ordered) :
    v = w := by
  induction h with
  | null | bool | number | string => rfl
  | array hLength hElements ih =>
    cases hv with
    | array hOrdered =>
      cases hw with
      | array hOrdered' =>
        refine congrArg Json.array (List.ext_getElem hLength fun i hi hi' => ?_)
        exact ih i _ _ (List.getElem?_eq_getElem hi) (List.getElem?_eq_getElem hi')
          (hOrdered _ (List.getElem_mem hi)) (hOrdered' _ (List.getElem_mem hi'))
  | @object ms ns hKeys hNames hMembers ih =>
    cases hv with
    | object hOrder hOrdered =>
      cases hw with
      | object hOrder' hOrdered' =>
        refine congrArg Json.object (hOrder.ext hOrder' hNames fun key => ?_)
        by_cases hKey : key ∈ Members.keys ms
        · obtain ⟨x, hx⟩ := Option.ne_none_iff_exists'.mp
            fun hNone => Members.get?_eq_none_iff.mp hNone hKey
          obtain ⟨y, hy⟩ := Option.ne_none_iff_exists'.mp
            fun hNone => Members.get?_eq_none_iff.mp hNone ((hKeys key).mp hKey)
          rw [hx, hy, ih key x y hx hy (hOrdered _ (Members.mem_of_get? hx))
            (hOrdered' _ (Members.mem_of_get? hy))]
        · rw [Members.get?_eq_none_iff.mpr hKey,
            Members.get?_eq_none_iff.mpr fun h => hKey ((hKeys key).mpr h)]

theorem Ordered.same {v : Json} (h : v.Ordered) : Same v v := by
  induction h with
  | null => exact .null
  | bool b => exact .bool b
  | number x => exact .number x
  | string t => exact .string t
  | array _ ih =>
    refine .array rfl fun i x y hx hy => ?_
    obtain rfl := Option.some.inj (hx.symm.trans hy)
    exact ih x (List.mem_of_getElem? hx)
  | object _ _ ih =>
    refine .object (fun _ => Iff.rfl) rfl fun key x y hx hy => ?_
    obtain rfl := Option.some.inj (hx.symm.trans hy)
    exact ih _ (Members.mem_of_get? hx)

theorem same_iff_eq {v w : Json} (hv : v.Ordered) (hw : w.Ordered) : Same v w ↔ v = w := by
  constructor
  · exact fun h => h.eq_of_ordered hv hw
  · rintro rfl
    exact hv.same

end Enroll.Json
