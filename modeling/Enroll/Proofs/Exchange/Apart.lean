import Enroll.Proofs.Act
import Enroll.Proofs.Exchange.Classification
import Enroll.Proofs.Logging

/-!
# What belongs to an exchange

A request, its being given up and what is done with a body are shown by an exchange alone. So of
these a call shows what its exchange does, whatever its caller does before and after.
-/

namespace Enroll

namespace Effect

def isExchanged : Effect → Bool
  | .sent _ _ | .aborted | .read | .cancelled => true
  | _ => false

theorem isExchanged_of_isEntry {e : Effect} (h : e.isEntry) : e.isExchanged = false := by
  cases e with
  | entry | console => rfl
  | _ => cases h

theorem isExchanged_of_isSent {e : Effect} (h : e.isSent) : e.isExchanged := by
  cases e with
  | sent => rfl
  | _ => cases h

theorem isSent_of_isExchanged {e : Effect} (h : e.isExchanged = false) : e.isSent = false :=
  Bool.eq_false_iff.mpr fun hSent => absurd (isExchanged_of_isSent hSent) (by simp [h])

theorem isExchanged_of_isAborted {e : Effect} (h : e.isAborted) : e.isExchanged := by
  cases e with
  | aborted => rfl
  | _ => cases h

end Effect

theorem Exchange.isExchanged_seen {β : Type} (x : Exchange β) (s : Script) (now : Nat) :
    ∀ e ∈ x.seen s now, e.effect.isExchanged := by
  have hTouched : ∀ e ∈ x.touched s now, e.effect.isExchanged := by
    intro e he
    rcases effect_of_mem_touched he with hEffect | hEffect <;> rw [hEffect] <;> rfl
  have hGaveUp : ∀ e ∈ x.gaveUp s now, e.effect.isExchanged := by
    intro e he
    unfold gaveUp at he
    split at he
    · exact absurd he List.not_mem_nil
    · obtain rfl := List.mem_singleton.mp he
      rfl
  intro e he
  unfold seen at he
  split at he
  · exact (List.mem_append.mp he).elim (hTouched e) (hGaveUp e)
  · exact (List.mem_append.mp he).elim (hGaveUp e) (hTouched e)

/-- Nothing shows of an act that belongs to an exchange. -/
abbrev Act.Apart {α : Type} (act : Act α) : Prop := act.Shows fun e => e.isExchanged = false

theorem Act.apart_of_isEntry {α : Type} {act : Act α} (h : act.Shows fun e => e.isEntry) :
    act.Apart := fun e he => Effect.isExchanged_of_isEntry (h e he)

namespace Loop

variable {α β : Type} {P : Effect → Bool}

theorem filter_of_apart (hP : ∀ {e : Effect}, P e → e.isExchanged) {act : Act α} (h : act.Apart)
    (time : Nat) : (act.effects.map (Event.mk time)).filter (fun e => P e.effect) = [] := by
  rw [List.filter_eq_nil_iff]
  intro e he hShown
  obtain ⟨effect, hEffect, rfl⟩ := List.mem_map.mp he
  exact absurd (hP hShown) (Bool.eq_false_iff.mp (h effect hEffect))

theorem filter_soloAt_of_failed (hP : ∀ {e : Effect}, P e → e.isExchanged)
    {opening : Act (Call α)} {f : Failure} (hFails : opening.result = .error f)
    (hOpening : opening.Apart) (now : Nat) (s : Script) :
    ((soloAt now opening s).notes.map Note.event).filter (fun e => P e.effect) = [] := by
  rw [(soloAt_of_failed hFails now s).2]
  exact filter_of_apart hP hOpening now

theorem filter_soloAt_closing (hP : ∀ {e : Effect}, P e → e.isExchanged)
    {opening : Act (Call α)} {x : Exchange β} {close : Except Failure β → Act α}
    (hOpens : opening.result = .ok (Call.closing x close)) (hOpening : opening.Apart)
    (hClose : ∀ o, (close o).Apart) (now : Nat) (s : Script) :
    ((soloAt now opening s).notes.map Note.event).filter (fun e => P e.effect) =
      (⟨now, .sent x.request false⟩ :: x.seen s now).filter fun e => P e.effect := by
  obtain ⟨-, -, hEvents⟩ := soloAt_closing hOpens now s
  have hClosed : (closed close (Course.later now (x.verdict s))).filter
      (fun e => P e.effect) = [] := by
    cases x.verdict s with
    | none => rfl
    | some had => exact filter_of_apart hP (hClose had.2) _
  rw [hEvents, List.map_append, List.append_assoc, List.filter_append, filter_of_apart hP hOpening,
    ← List.append_assoc, List.filter_append, hClosed, List.append_nil]
  rfl

end Loop

end Enroll
