import Enroll.Proofs.Json.RoundTrip
import Enroll.Proofs.Registration.Diagnostic

/-!
# The line of a diagnostic

`Diagnostic.Says` is what a diagnostic says in one line, by the shape of what the service sent: its
text, its error report, or its value in compact JSON, as far as there is room for how deep it nests.
The line is just that, and a line of JSON reads back as what is in print of the value.
-/

namespace Enroll

/-! ## Depth -/

mutual

/-- How deep arrays and objects nest in a value. -/
def Json.depth : Json → Nat
  | .array xs => elementsDepth xs + 1
  | .object ms => membersDepth ms + 1
  | .null | .bool _ | .number _ | .string _ => 0

def Json.elementsDepth : List Json → Nat
  | [] => 0
  | x :: xs => max (Json.depth x) (elementsDepth xs)

def Json.membersDepth : List (Text × Json) → Nat
  | [] => 0
  | (_, x) :: ms => max (Json.depth x) (membersDepth ms)

end

namespace Json

mutual

theorem fits_iff : ∀ (limit : Nat) (v : Json), v.fits limit ↔ v.depth ≤ limit
  | limit, .null | limit, .bool _ | limit, .number _ | limit, .string _ => by
    cases limit <;> simp [fits, depth]
  | 0, .array _ | 0, .object _ => by simp [fits, depth]
  | limit + 1, .array xs => by
    rw [fits, depth, elementsFit_iff, Nat.add_le_add_iff_right]
  | limit + 1, .object ms => by
    rw [fits, depth, membersFit_iff, Nat.add_le_add_iff_right]

theorem elementsFit_iff :
    ∀ (limit : Nat) (xs : List Json), elementsFit limit xs ↔ elementsDepth xs ≤ limit
  | limit, [] => by simp [elementsFit, elementsDepth]
  | limit, x :: xs => by
    rw [elementsFit, elementsDepth, Bool.and_eq_true, fits_iff, elementsFit_iff, max_le_iff]

theorem membersFit_iff :
    ∀ (limit : Nat) (ms : List (Text × Json)), membersFit limit ms ↔ membersDepth ms ≤ limit
  | limit, [] => by simp [membersFit, membersDepth]
  | limit, (_, x) :: ms => by
    rw [membersFit, membersDepth, Bool.and_eq_true, fits_iff, membersFit_iff, max_le_iff]

end

end Json

/-! ## Error reports -/

namespace ErrorReport

/-- The value is this report. Only the two members count, whatever else there is. -/
inductive Of : Json → ErrorReport → Prop where
  | absent {ms : Members} {m : Text} (hMessage : Members.get? ms "message" = some (.string m))
    (hDetail : Members.get? ms "detail" = none) : Of (.object ms) ⟨m, none⟩
  | null {ms : Members} {m : Text} (hMessage : Members.get? ms "message" = some (.string m))
    (hDetail : Members.get? ms "detail" = some .null) : Of (.object ms) ⟨m, some none⟩
  | detail {ms : Members} {m d : Text} (hMessage : Members.get? ms "message" = some (.string m))
    (hDetail : Members.get? ms "detail" = some (.string d)) : Of (.object ms) ⟨m, some (some d)⟩

theorem check_eq_ok_iff {v : Json} {r : ErrorReport} : check v = .ok r ↔ Of v r := by
  constructor
  · intro h
    cases v with
    | object ms =>
      simp only [check, detailIssues, detail?] at h
      split at h
      · rename_i m hMessage hIssues
        obtain rfl := Except.ok.inj h
        split at hIssues
        · rename_i hDetail
          rw [hDetail]
          exact .absent hMessage hDetail
        · rename_i hDetail
          rw [hDetail]
          exact .null hMessage hDetail
        · rename_i d hDetail
          rw [hDetail]
          exact .detail hMessage hDetail
        · exact absurd hIssues (by simp)
      · exact absurd h (by simp)
    | _ => exact absurd h (by simp [check])
  · rintro (⟨hMessage, hDetail⟩ | ⟨hMessage, hDetail⟩ | ⟨hMessage, hDetail⟩)
    all_goals simp [check, hMessage, detailIssues, detail?, hDetail]

theorem Of.unique {v : Json} {r r' : ErrorReport} (h : Of v r) (h' : Of v r') : r = r' :=
  Except.ok.inj ((check_eq_ok_iff.mpr h).symm.trans (check_eq_ok_iff.mpr h'))

end ErrorReport

/-! ## Lines -/

namespace Diagnostic

inductive Says [Nesting] : Diagnostic → Text → Prop where
  | empty : Says (.text []) "<empty response body>"
  | text {t : Text} (hNonempty : t ≠ []) : Says (.text t) t
  | message {v : Json} {m : Text} {detail : Option (Option Text)}
    (hReport : ErrorReport.Of v ⟨m, detail⟩) (hDetail : ∀ d, detail = some (some d) → d = []) :
    Says (.structured v) m
  | detailed {v : Json} {m d : Text} (hReport : ErrorReport.Of v ⟨m, some (some d)⟩)
    (hNonempty : d ≠ []) : Says (.structured v) (m ++ ": " ++ d)
  | printed {v : Json} (hOther : ∀ r, ¬ErrorReport.Of v r) (hDepth : v.depth ≤ Nesting.printed) :
    Says (.structured v) v.text
  | tooDeep {v : Json} (hOther : ∀ r, ¬ErrorReport.Of v r) (hDepth : Nesting.printed < v.depth) :
    Says (.structured v) "<structured response body too deeply nested to print>"

theorem valueLine_of_report [Nesting] {v : Json} {r : ErrorReport} (h : ErrorReport.Of v r) :
    valueLine v = r.line := by
  rw [valueLine, ErrorReport.check_eq_ok_iff.mpr h]

theorem valueLine_of_other [Nesting] {v : Json} (h : ∀ r, ¬ErrorReport.Of v r) :
    valueLine v = if v.depth ≤ Nesting.printed then v.text else unprintable := by
  rw [valueLine]
  cases hCheck : ErrorReport.check v with
  | ok r => exact absurd (ErrorReport.check_eq_ok_iff.mp hCheck) (h r)
  | error issues =>
    simp only [Json.print?, Json.fits_iff]
    split <;> rfl

theorem says_valueLine [Nesting] (v : Json) : Says (.structured v) (valueLine v) := by
  by_cases hReport : ∃ r, ErrorReport.Of v r
  · obtain ⟨⟨m, detail⟩, hOf⟩ := hReport
    rw [valueLine_of_report hOf]
    cases detail with
    | none => exact .message hOf (by simp)
    | some detail =>
      cases detail with
      | none => exact .message hOf (by simp)
      | some d =>
        cases d with
        | nil => exact .message hOf (by simp)
        | cons u rest => exact .detailed hOf (List.cons_ne_nil u rest)
  · have hOther := not_exists.mp hReport
    rw [valueLine_of_other hOther]
    split
    · rename_i hDepth
      exact .printed hOther hDepth
    · rename_i hDepth
      exact .tooDeep hOther (not_le.mp hDepth)

theorem says_line [Nesting] (d : Diagnostic) : d.Says d.line := by
  cases d with
  | structured v => exact says_valueLine v
  | text t =>
    cases t with
    | nil => exact .empty
    | cons u rest => exact .text (List.cons_ne_nil u rest)

theorem line_of_says [Nesting] {d : Diagnostic} {t : Text} (h : d.Says t) : d.line = t := by
  cases h with
  | empty => rfl
  | text hNonempty =>
    obtain ⟨u, rest, rfl⟩ := List.exists_cons_of_ne_nil hNonempty
    rfl
  | @message v m detail hReport hDetail =>
    refine (valueLine_of_report hReport).trans ?_
    rcases detail with _ | _ | _ | ⟨u, rest⟩
    · rfl
    · rfl
    · rfl
    · exact absurd (hDetail _ rfl) (List.cons_ne_nil u rest)
  | detailed hReport hNonempty =>
    obtain ⟨u, rest, rfl⟩ := List.exists_cons_of_ne_nil hNonempty
    exact valueLine_of_report hReport
  | printed hOther hDepth =>
    exact (valueLine_of_other hOther).trans (if_pos hDepth)
  | tooDeep hOther hDepth =>
    exact (valueLine_of_other hOther).trans (if_neg (not_le.mpr hDepth))

/-- The line of a diagnostic is what it says, and nothing else. -/
theorem line_eq_iff_says [Nesting] (d : Diagnostic) (t : Text) : d.line = t ↔ d.Says t :=
  ⟨fun h => h ▸ says_line d, line_of_says⟩

/-! ## Reading a line back -/

/-- A value that is no error report and is not nested too deep has a line of plain units in pairs,
which reads back as the value in print. -/
theorem printed_line_reads_back [Nesting] {bytes : List UInt8} {v : Json}
    (hBody : ofBody bytes = .structured v) (hOther : ∀ r, ¬ErrorReport.Of v r)
    (hPrinted : (Diagnostic.structured v).line ≠ unprintable) :
    let line := (Diagnostic.structured v).line
    line.Paired ∧ (∀ u ∈ line, 0x20 ≤ u.toNat) ∧
      ofBody (Utf8.encode line) = .structured v.printed := by
  intro line
  have hOrdered := (ofText_eq_structured_iff.mp hBody).ordered
  have hLine : line = v.text := by
    have hValue := valueLine_of_other hOther
    split at hValue
    · exact hValue
    · exact absurd hValue hPrinted
  obtain ⟨ts, hText, hDerives⟩ := Json.prints_of_ordered hOrdered
  have hRead : Utf8.decodeBody (Utf8.encode v.text) = v.text := by
    rw [Utf8.decodeBody, Utf8.decode_encode hText.paired, hText.dropMark, hText.dropMark]
  rw [hLine]
  refine ⟨hText.paired, hText.not_control, ?_⟩
  rw [ofBody, hRead]
  exact ofText_eq_structured_iff.mpr (Json.denotes_text hOrdered)

theorem printed_line_reads_back_reordered :
    let bytes := Utf8.encode "\x7b\"b\":[-0,1e400,\"\\ud800\"],\"1\":\x7b\x7d\x7d"
    let v := Json.object [("1", .object []),
      ("b", .array [.number (.zero true), .number (.infinity false), .string [0xD800]])]
    let line := (Diagnostic.structured v).line
    ofBody bytes = .structured v ∧ (∀ r, ¬ErrorReport.Of v r) ∧ line ≠ unprintable ∧
      line.Paired ∧ (∀ u ∈ line, 0x20 ≤ u.toNat) ∧
      ofBody (Utf8.encode line) = .structured (.object [("1", .object []),
        ("b", .array [.number (.zero false), .null, .string [0xD800]])]) := by
  intro bytes v line
  have hBody : ofBody bytes = .structured v := rfl
  have hOther : ∀ r, ¬ErrorReport.Of v r := fun r hReport => by
    have hCheck := ErrorReport.check_eq_ok_iff.mpr hReport
    exact absurd hCheck (by simp [v, ErrorReport.check, Members.get?, Text.ofString])
  have hPrinted : line ≠ unprintable := by decide
  exact ⟨hBody, hOther, hPrinted, printed_line_reads_back hBody hOther hPrinted⟩

end Diagnostic

end Enroll
