import Enroll.Proofs.Exchange.Overrun

/-!
# How a body travels

The bytes of a body may be there at once or come in pieces, each some time after the one before,
the end some time after the last. Reading it gives the text of all its bytes when the end is there
(`Body.Carries.text`). How the bytes were cut up does not show in the text.
-/

namespace Enroll

structure Piece where
  /-- How long it comes after the one before it. -/
  gap : Nat
  bytes : List UInt8

namespace Piece

def bytesOf (pieces : List Piece) : List UInt8 := (pieces.map Piece.bytes).flatten

def timeOf (pieces : List Piece) : Nat := sumOf Piece.gap pieces

/-- What happens on a body whose pieces come from a start on, and whose end is `last` after them. -/
def items (start last : Nat) : List Piece → List Item
  | [] => [⟨start + last, .finish⟩]
  | p :: rest => ⟨start + p.gap, .data p.bytes⟩ :: items (start + p.gap) last rest

theorem le_delay_of_mem_items {start last : Nat} {pieces : List Piece} {i : Item}
    (h : i ∈ items start last pieces) : start ≤ i.delay := by
  induction pieces generalizing start with
  | nil =>
    obtain rfl := List.mem_singleton.mp h
    exact Nat.le_add_right _ _
  | cons p rest ih =>
    rcases List.mem_cons.mp h with rfl | h
    · exact Nat.le_add_right _ _
    · exact Nat.le_trans (Nat.le_add_right _ _) (ih h)

theorem ordered_items (start last : Nat) (pieces : List Piece) :
    (items start last pieces).Pairwise fun i j => i.delay ≤ j.delay := by
  induction pieces generalizing start with
  | nil => exact List.pairwise_singleton _ _
  | cons p rest ih =>
    rw [items, List.pairwise_cons]
    exact ⟨fun i hi => le_delay_of_mem_items hi, ih _⟩

end Piece

namespace BodyState

theorem hear_of_read? {b : BodyState} {r : Except Failure Text} (hRead : b.read? = some r)
    (h : Happening) : b.hear h = b := by
  cases b with
  | «open» heard release => simp [read?] at hRead
  | _ => rfl

/-- What takes no time may be heard before the reading begins or in the course of it. -/
theorem course_foldl_hear {atOnce : List Item} (hAtOnce : ∀ i ∈ atOnce, i.delay = 0)
    (rest : List Item) (b : BodyState) :
    (atOnce.foldl (fun b i => b.hear i.happening) b).course 0 rest =
      b.course 0 (atOnce ++ rest) := by
  induction atOnce generalizing b with
  | nil => rfl
  | cons i others ih =>
    rw [List.foldl_cons, ih fun j hj => hAtOnce j (List.mem_cons_of_mem _ hj), List.cons_append]
    cases hRead : b.read? with
    | some r =>
      rw [hear_of_read? hRead, course_of_read? hRead, course_of_read? hRead]
    | none =>
      rw [course, hRead, hAtOnce i List.mem_cons_self]

theorem course_items (now start last : Nat) (release : Release) (pieces : List Piece)
    (heard : List (List UInt8)) :
    (BodyState.open heard release).course now (Piece.items start last pieces) =
      some (start + (Piece.timeOf pieces + last),
        .ok (Progress.bodyText ((pieces.map Piece.bytes).reverse ++ heard))) := by
  -- what was heard before stays in front, the last piece first
  induction pieces generalizing now start heard with
  | nil => simp [Piece.items, course, read?, hear, Piece.timeOf, sumOf]
  | cons p rest ih =>
    have hRest := ih (start + p.gap) (start + p.gap) (p.bytes :: heard)
    have hTime : start + p.gap + (Piece.timeOf rest + last) =
        start + (Piece.timeOf (p :: rest) + last) := by
      simp only [Piece.timeOf, sumOf]
      omega
    rw [hTime] at hRest
    simpa [Piece.items, course, read?, hear] using hRest

end BodyState

/-- An item after which nothing more is to come. -/
def Happening.isEnd : Happening → Bool
  | .data _ => false
  | .finish | .broken _ => true

/-- All of a body is had by the time of an end that is to come. -/
theorem BodyState.course_of_isEnd {items : List Item} {i : Item} (hItem : i ∈ items)
    (hEnd : i.happening.isEnd) (hOrdered : items.Pairwise fun i j => i.delay ≤ j.delay)
    (b : BodyState) (now : Nat) (hNow : ∀ j ∈ items, now ≤ j.delay) :
    ∃ t r, b.course now items = some (t, r) ∧ t ≤ i.delay := by
  induction items generalizing b now with
  | nil => exact absurd hItem List.not_mem_nil
  | cons j rest ih =>
    obtain ⟨hLater, hOrdered⟩ := List.pairwise_cons.mp hOrdered
    cases hRead : b.read? with
    | some r => exact ⟨now, r, course_of_read? hRead now _, hNow i hItem⟩
    | none =>
      rw [course, hRead]
      rcases List.mem_cons.mp hItem with rfl | hItem
      · obtain ⟨r, hHeard⟩ : ∃ r, (b.hear i.happening).read? = some r := by
          cases b with
          | «open» heard release =>
            cases hHappening : i.happening with
            | data => simp [hHappening, Happening.isEnd] at hEnd
            | finish => exact ⟨_, rfl⟩
            | broken f => exact ⟨_, rfl⟩
          | _ => cases hRead
        exact ⟨i.delay, r, course_of_read? hHeard i.delay rest, Nat.le_refl _⟩
      · exact ih hItem hOrdered (b.hear j.happening) j.delay hLater

namespace Body

theorem filter_append_of_ordered {items : List Item}
    (hOrdered : items.Pairwise fun i j => i.delay ≤ j.delay) :
    (items.filter fun i => i.delay == 0) ++ (items.filter fun i => i.delay != 0) = items := by
  induction items with
  | nil => rfl
  | cons i rest ih =>
    obtain ⟨hFirst, hRest⟩ := List.pairwise_cons.mp hOrdered
    by_cases hZero : i.delay = 0
    · simpa [hZero] using ih hRest
    · have hNone : (rest.filter fun j => j.delay == 0) = [] := by
        rw [List.filter_eq_nil_iff]
        intro j hj hNow
        have hLe := hFirst j hj
        have hEq : j.delay = 0 := by simpa using hNow
        omega
      have hAll := ih hRest
      rw [hNone, List.nil_append] at hAll
      simp [hZero, hNone, hAll]

/-- The items of a stream in the order in which they happen. -/
def inTime (items : List Item) : List Item :=
  (items.filter fun i => i.delay == 0) ++
    (items.filter fun i => i.delay != 0).mergeSort fun i j => i.delay ≤ j.delay

theorem delay_of_mem_filter {items : List Item} :
    ∀ i ∈ items.filter fun i => i.delay == 0, i.delay = 0 := by
  intro i hi
  simpa using (List.mem_filter.mp hi).2

theorem text_stream (items : List Item) (release : Release) :
    (Body.stream items release).text = (BodyState.open [] release).course 0 (inTime items) := by
  rw [inTime, ← BodyState.course_foldl_hear delay_of_mem_filter]
  rfl

theorem mem_inTime {items : List Item} {i : Item} : i ∈ inTime items ↔ i ∈ items := by
  rw [inTime, List.mem_append, List.mem_mergeSort, List.mem_filter, List.mem_filter]
  by_cases hZero : i.delay = 0
  · simp [hZero]
  · simp [hZero]

theorem ordered_inTime (items : List Item) :
    (inTime items).Pairwise fun i j => i.delay ≤ j.delay := by
  refine List.pairwise_append.mpr ⟨?_, ?_, ?_⟩
  · refine List.pairwise_iff_getElem.mpr fun j k hj _ _ => ?_
    rw [delay_of_mem_filter _ (List.getElem_mem hj)]
    exact Nat.zero_le _
  · have hTrans : ∀ i j k : Item, decide (i.delay ≤ j.delay) → decide (j.delay ≤ k.delay) →
        decide (i.delay ≤ k.delay) := fun i j k => by simpa using Nat.le_trans
    have hTotal : ∀ i j : Item, decide (i.delay ≤ j.delay) || decide (j.delay ≤ i.delay) :=
      fun i j => by simpa using Nat.le_total _ _
    simpa using List.pairwise_mergeSort hTrans hTotal (items.filter fun i => i.delay != 0)
  · intro j hj k _
    rw [delay_of_mem_filter j hj]
    exact Nat.zero_le _

/-- What happens on a stream in the order of time is heard in that order. -/
theorem text_of_ordered {items : List Item} (release : Release)
    (hOrdered : items.Pairwise fun i j => i.delay ≤ j.delay) :
    (Body.stream items release).text = (BodyState.open [] release).course 0 items := by
  have hSorted : ((items.filter fun i => i.delay != 0).mergeSort fun i j => i.delay ≤ j.delay) =
      items.filter fun i => i.delay != 0 := by
    apply List.mergeSort_of_pairwise
    apply List.Pairwise.filter
    simp only [decide_eq_true_iff]
    exact hOrdered
  rw [text_stream, inTime, hSorted, filter_append_of_ordered hOrdered]

/-- A body that brings these bytes and has ended after a time. -/
inductive Carries : Body → List UInt8 → Nat → Prop where
  | absent : Carries .absent [] 0
  | silent : Carries .silent [] 0
  | whole (bytes : List UInt8) : Carries (.whole bytes) bytes 0
  | pieces (pieces : List Piece) (last : Nat) (release : Release) :
    Carries (.stream (Piece.items 0 last pieces) release) (Piece.bytesOf pieces)
      (Piece.timeOf pieces + last)

theorem Carries.text {b : Body} {bytes : List UInt8} {t : Nat} (h : b.Carries bytes t) :
    b.text = some (t, .ok (Utf8.decodeBody bytes)) := by
  cases h with
  | absent => exact BodyState.course_of_read? rfl 0 _
  | silent => exact BodyState.course_of_read? rfl 0 _
  | whole => exact BodyState.course_of_read? rfl 0 _
  | pieces pieces last release =>
    rw [text_of_ordered release (Piece.ordered_items 0 last pieces), BodyState.course_items]
    simp [Progress.bodyText, Piece.bytesOf]

/-- The end of a body, good or bad, is there some time after its beginning. -/
inductive EndsBy : Body → Nat → Prop where
  | absent (t : Nat) : EndsBy .absent t
  | silent (t : Nat) : EndsBy .silent t
  | whole (bytes : List UInt8) (t : Nat) : EndsBy (.whole bytes) t
  | stream {items : List Item} {release : Release} {t : Nat} {i : Item} (hItem : i ∈ items)
    (hEnd : i.happening.isEnd) (hTime : i.delay ≤ t) : EndsBy (.stream items release) t

theorem EndsBy.text {b : Body} {t : Nat} (h : b.EndsBy t) :
    ∃ u read, b.text = some (u, read) ∧ u ≤ t := by
  cases h with
  | absent => exact ⟨0, _, BodyState.course_of_read? rfl 0 _, Nat.zero_le t⟩
  | silent => exact ⟨0, _, BodyState.course_of_read? rfl 0 _, Nat.zero_le t⟩
  | whole => exact ⟨0, _, BodyState.course_of_read? rfl 0 _, Nat.zero_le t⟩
  | @stream items release _ i hItem hEnd hTime =>
    obtain ⟨u, read, hCourse, hBy⟩ := BodyState.course_of_isEnd (mem_inTime.mpr hItem) hEnd
      (ordered_inTime items) (.open [] release) 0 fun _ _ => Nat.zero_le _
    exact ⟨u, read, (text_stream items release).trans hCourse, Nat.le_trans hBy hTime⟩

end Body

theorem Exchange.attempt_of_carried {β : Type} {x : Exchange β} {s : Script} {t u : Nat}
    {r : Response} {bytes : List UInt8} {value : Text → β} (hReply : s.reply = .after t (.ok r))
    (hBody : r.body.Carries bytes u) (hTime : t + u < x.delay)
    (hReact : x.react r.status = .readBody value) :
    x.attempt s = some (t + u, .ok (value (Utf8.decodeBody bytes))) := by
  refine attempt_eq_value_iff.mpr ⟨?_, .inl hTime⟩
  have hCourse : s.reply.course = some (t, .ok r) := by rw [hReply]; rfl
  simp only [unhurried, hCourse, hReact, Reaction.course, hBody.text]
  rfl

end Enroll
