import Enroll.Proofs.Json.Reading
import Enroll.Proofs.Text.Utf8
import Enroll.Registration.Diagnostic

/-!
# What a body explains

The diagnostic of a body is structured just where its text is JSON. Any other text is kept as it is,
so bytes that are well-formed are not lost either.
-/

namespace Enroll.Diagnostic

open Json (Denotes)
open Utf8 (Reads dropMark)

theorem ofText_eq_structured_iff {t : Text} {v : Json} :
    ofText t = .structured v ↔ Denotes t v := by
  rw [← Json.read?_eq_some_iff, ofText]
  cases Json.read? t <;> simp

theorem ofText_eq_text_iff {t u : Text} : ofText t = .text u ↔ u = t ∧ ∀ v, ¬Denotes t v := by
  simp only [← Json.read?_eq_some_iff, ofText]
  cases Json.read? t <;> simp [eq_comm]

/-- The text of any bytes is what they read as without a mark at its start, nor one after that. -/
theorem decodeBody_of_reads {bytes : List UInt8} {points : List Nat} (h : Reads bytes points) :
    Utf8.decodeBody bytes = dropMark (dropMark (Text.ofPoints points)) := by
  rw [Utf8.decodeBody, Utf8.decode_eq, (Utf8.reads_points bytes).1.unique h]

/-- Any bytes read as one text, and their diagnostic is structured just where it is JSON, with the
value that it denotes. Else it is the text itself, which gives well-formed bytes back if they do not
start with a mark. -/
theorem body_explained (bytes : List UInt8) :
    (∃ points, Reads bytes points) ∧
      ∀ points, Reads bytes points →
        let t := dropMark (dropMark (Text.ofPoints points))
        (∀ v, ofBody bytes = .structured v ↔ Denotes t v) ∧
          (∀ u, ofBody bytes = .text u ↔ u = t ∧ ∀ v, ¬Denotes t v) ∧
          (Utf8.WellFormed bytes → ¬Utf8.markBytes <+: bytes → (∀ v, ¬Denotes t v) →
            ofBody bytes = .text t ∧ Utf8.encode t = bytes) := by
  refine ⟨⟨_, (Utf8.reads_points bytes).1⟩, fun points hReads => ?_⟩
  rw [← decodeBody_of_reads hReads]
  refine ⟨fun v => ofText_eq_structured_iff, fun u => ofText_eq_text_iff, ?_⟩
  intro hWellFormed hMark hOther
  refine ⟨ofText_eq_text_iff.mpr ⟨rfl, hOther⟩, ?_⟩
  rw [Utf8.decodeBody_of_unmarked hWellFormed hMark, Utf8.encode_decode hWellFormed]

/-- With one mark dropped a second one still stands before the braces, and this is no JSON. -/
theorem structured_behind_two_marks :
    let bytes : List UInt8 := [0xEF, 0xBB, 0xBF, 0xEF, 0xBB, 0xBF, 0x7B, 0x7D]
    let points : List Nat := [0xFEFF, 0xFEFF, 0x7B, 0x7D]
    let t := dropMark (Text.ofPoints points)
    Reads bytes points ∧ (∀ v, ¬Denotes t v) ∧ ofBody bytes = .structured (.object []) ∧
      ofBody bytes ≠ .text t := by
  intro bytes points t
  have hPoints : Utf8.points none bytes = points := by decide
  have hBody : ofBody bytes = .structured (.object []) := rfl
  refine ⟨hPoints ▸ (Utf8.reads_points bytes).1, fun v hDenotes => ?_, hBody, ?_⟩
  · have hNone : Json.read? t = none := rfl
    rw [← Json.read?_eq_some_iff, hNone] at hDenotes
    exact absurd hDenotes (by simp)
  · rw [hBody]
    simp

end Enroll.Diagnostic
