import Enroll.Proofs.Registration.Line

/-!
# Lines that can be read

What is in print of a value is one line that is not empty, for its controls are escaped, and an
empty text is marked. Only the message and the detail of an error report are shown as they are, so
the line of a diagnostic is empty or broken just where these are.
-/

namespace Enroll

/-- No line feed is in it and no carriage return. -/
def Text.OneLine (t : Text) : Prop := ∀ u ∈ t, u ≠ 0x0A ∧ u ≠ 0x0D

instance (t : Text) : Decidable t.OneLine := List.decidableBAll _ t

theorem Text.oneLine_append_iff {t t' : Text} : (t ++ t').OneLine ↔ t.OneLine ∧ t'.OneLine :=
  List.forall_mem_append

theorem Text.oneLine_of_not_control {t : Text} (h : ∀ u ∈ t, 0x20 ≤ u.toNat) : t.OneLine := by
  intro u hu
  have hUnit := h u hu
  constructor
  · rintro rfl
    exact absurd hUnit (by decide)
  · rintro rfl
    exact absurd hUnit (by decide)

/-! ## Values in print -/

namespace Json

theorem compact_of_ordered {v : Json} (h : v.Ordered) : ∃ ts, Compact v.text ts := by
  obtain ⟨ts, hText, -⟩ := prints_of_ordered h
  exact ⟨ts, hText⟩

theorem compact_separate (first : Bool) : ∃ ts, Compact (separate first []) ts := by
  cases first with
  | true => exact ⟨_, .nil⟩
  | false => exact ⟨_, .unit .comma rfl .nil⟩

mutual

/-- In whatever order its members stand, a value is printed as tokens without space. -/
theorem compact_text : ∀ v : Json, ∃ ts, Compact v.text ts
  | .null => compact_of_ordered .null
  | .bool b => compact_of_ordered (.bool b)
  | .number x => compact_of_ordered (.number x)
  | .string t => compact_of_ordered (.string t)
  | .array xs => by
    obtain ⟨ts, hElements⟩ := compact_elementsText true xs
    rw [text_array]
    exact ⟨_, .unit .openArray rfl (hElements.append (.unit .closeArray rfl .nil))⟩
  | .object ms => by
    obtain ⟨ts, hMembers⟩ := compact_membersText true ms
    rw [text_object]
    exact ⟨_, .unit .openObject rfl (hMembers.append (.unit .closeObject rfl .nil))⟩

theorem compact_elementsText (first : Bool) :
    ∀ xs : List Json, ∃ ts, Compact (elementsText first xs) ts
  | [] => ⟨_, .nil⟩
  | x :: xs => by
    obtain ⟨_, hBefore⟩ := compact_separate first
    obtain ⟨_, hFirst⟩ := compact_text x
    obtain ⟨_, hRest⟩ := compact_elementsText false xs
    rw [elementsText_cons]
    exact ⟨_, hBefore.append (hFirst.append hRest)⟩

theorem compact_membersText (first : Bool) :
    ∀ ms : List (Text × Json), ∃ ts, Compact (membersText first ms) ts
  | [] => ⟨_, .nil⟩
  | (k, x) :: ms => by
    obtain ⟨_, hBefore⟩ := compact_separate first
    obtain ⟨_, hFirst⟩ := compact_text x
    obtain ⟨_, hRest⟩ := compact_membersText false ms
    rw [membersText_cons]
    exact ⟨_, hBefore.append (compact_member k hFirst hRest)⟩

end

theorem oneLine_text (v : Json) : v.text.OneLine := by
  obtain ⟨ts, hText⟩ := compact_text v
  exact Text.oneLine_of_not_control hText.not_control

theorem text_ne_nil (v : Json) : v.text ≠ [] := by
  cases v with
  | null => decide
  | bool b => cases b <;> decide
  | number x =>
    rw [text, writeOnto, List.append_nil, List.reverse_reverse]
    exact (Number.word_numberText x).units.1
  | string t => rw [text_string]; exact List.cons_ne_nil _ _
  | array xs => rw [text_array]; exact List.cons_ne_nil _ _
  | object ms => rw [text_object]; exact List.cons_ne_nil _ _

end Json

/-! ## Error reports -/

namespace ErrorReport

/-- What is shown of the detail. -/
def shownDetail (r : ErrorReport) : Text :=
  match r.detail with
  | some (some d) => d
  | _ => []

/-- There is nothing to show of it. -/
def Silent (r : ErrorReport) : Prop := r.message = [] ∧ r.shownDetail = []

def OneLine (r : ErrorReport) : Prop := r.message.OneLine ∧ r.shownDetail.OneLine

theorem line_of_detail_nil {r : ErrorReport} (h : r.shownDetail = []) : r.line = r.message := by
  obtain ⟨m, _ | _ | _ | ⟨u, rest⟩⟩ := r
  · rfl
  · rfl
  · rfl
  · exact absurd h (List.cons_ne_nil u rest)

theorem line_of_detail {r : ErrorReport} (h : r.shownDetail ≠ []) :
    r.line = r.message ++ ": " ++ r.shownDetail := by
  obtain ⟨m, _ | _ | _ | ⟨u, rest⟩⟩ := r
  · exact absurd rfl h
  · exact absurd rfl h
  · exact absurd rfl h
  · rfl

theorem line_eq_nil_iff {r : ErrorReport} : r.line = [] ↔ r.Silent := by
  by_cases hDetail : r.shownDetail = []
  · rw [line_of_detail_nil hDetail]
    exact (and_iff_left hDetail).symm
  · rw [line_of_detail hDetail]
    refine iff_of_false ?_ fun h => hDetail h.2
    simp [hDetail]

theorem oneLine_line_iff {r : ErrorReport} : r.line.OneLine ↔ r.OneLine := by
  by_cases hDetail : r.shownDetail = []
  · have hNone : r.shownDetail.OneLine := by
      rw [hDetail]
      exact fun u hu => absurd hu List.not_mem_nil
    rw [line_of_detail_nil hDetail]
    exact (and_iff_left hNone).symm
  · have hColon : (Text.ofString ": ").OneLine := by decide
    rw [line_of_detail hDetail, Text.oneLine_append_iff, Text.oneLine_append_iff]
    exact and_congr_left fun _ => and_iff_left hColon

end ErrorReport

/-! ## Diagnostics -/

namespace Diagnostic

theorem valueLine_spec [Nesting] {v : Json} (h : ∀ r, ¬ErrorReport.Of v r) :
    valueLine v ≠ [] ∧ (valueLine v).OneLine := by
  rw [valueLine_of_other h]
  split
  · exact ⟨v.text_ne_nil, v.oneLine_text⟩
  · exact ⟨by decide, by decide⟩

theorem valueLine_eq_nil_iff [Nesting] {v : Json} :
    valueLine v = [] ↔ ∃ r, ErrorReport.Of v r ∧ r.Silent := by
  by_cases hReport : ∃ r, ErrorReport.Of v r
  · obtain ⟨r, hOf⟩ := hReport
    rw [valueLine_of_report hOf, ErrorReport.line_eq_nil_iff]
    constructor
    · exact fun hSilent => ⟨r, hOf, hSilent⟩
    · rintro ⟨r', hOf', hSilent⟩
      exact hOf.unique hOf' ▸ hSilent
  · have hOther := not_exists.mp hReport
    refine iff_of_false (valueLine_spec hOther).1 ?_
    rintro ⟨r, hOf, -⟩
    exact hOther r hOf

theorem line_eq_nil_iff [Nesting] {d : Diagnostic} :
    d.line = [] ↔ ∃ v r, d = .structured v ∧ ErrorReport.Of v r ∧ r.Silent := by
  cases d with
  | structured v =>
    rw [show (structured v).line = valueLine v from rfl, valueLine_eq_nil_iff]
    simp
  | text t =>
    have hSome : (text t).line ≠ [] := by
      cases t with
      | nil => exact (by decide : emptyBody ≠ [])
      | cons u rest => exact List.cons_ne_nil u rest
    simp [hSome]

theorem oneLine_valueLine_iff [Nesting] {v : Json} :
    (valueLine v).OneLine ↔ ∀ r, ErrorReport.Of v r → r.OneLine := by
  by_cases hReport : ∃ r, ErrorReport.Of v r
  · obtain ⟨r, hOf⟩ := hReport
    rw [valueLine_of_report hOf, ErrorReport.oneLine_line_iff]
    constructor
    · intro hLine r' hOf'
      exact hOf.unique hOf' ▸ hLine
    · exact fun h => h r hOf
  · have hOther := not_exists.mp hReport
    exact iff_of_true (valueLine_spec hOther).2 fun r hOf => absurd hOf (hOther r)

/-- The line about a body is empty just where the body is an error report with nothing to show, and
the line of a value is broken just where it is an error report with a broken message or detail. -/
theorem line_readable_iff [Nesting] (bytes : List UInt8) (v : Json) :
    ((ofBody bytes).line = [] ↔
      ∃ w r, Json.Denotes (Utf8.decodeBody bytes) w ∧ ErrorReport.Of w r ∧ r.Silent) ∧
    ((structured v).line.OneLine ↔ ∀ r, ErrorReport.Of v r → r.OneLine) := by
  constructor
  · rw [line_eq_nil_iff, ofBody]
    simp only [ofText_eq_structured_iff]
  · exact oneLine_valueLine_iff

/-- Nothing is printed of a report with an empty message, and two lines of one with a line feed. -/
theorem report_printed_as_it_is :
    (ofBody (Utf8.encode "\x7b\"message\":\"\"\x7d")).line = [] ∧
      ∃ v, ofBody (Utf8.encode "\x7b\"message\":\"a\\nb\"\x7d") = .structured v ∧
        (structured v).line = "a\nb" ∧ ¬(structured v).line.OneLine := by
  refine ⟨by decide +kernel, .object [("message", .string "a\nb")], rfl, ?_, ?_⟩
  · decide
  · decide

end Diagnostic

end Enroll
