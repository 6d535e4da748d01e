import Enroll.Proofs.Client.Operations

/-!
# What is asked of one client

A client is asked for one operation at a time, or for several at once. The loop is the only thing
that its calls share, and no call sees another in it: whatever else is asked of the client, and
whenever it moves, an operation comes to what it comes to alone.
-/

namespace Enroll.Client

open Loop

/-- What is asked of a client at one time, with what the service does to each request. -/
inductive Task where
  | single (op : Operation) (s : Script)
  | several (ops : List (Operation × Script))

namespace Task

def operations : Task → List (Operation × Script)
  | .single op s => [(op, s)]
  | .several ops => ops

def errand [Nesting] (c : Client) : Task → Errand Result
  | .single op s => .single (c.call op) s
  | .several ops => .several (ops.map fun asked => (c.call asked.1, asked.2))

theorem calls_errand [Nesting] (c : Client) (t : Task) :
    (t.errand c).calls = t.operations.map fun asked => (c.call asked.1, asked.2) := by
  cases t <;> rfl

end Task

def performAll [Nesting] (c : Client) (now : Nat) (tasks : List Task) : List (Report Result) :=
  Loop.performAll (startingAt now) (tasks.map (Task.errand c))

/-- The place of an operation among all that are asked for. -/
def place [Nesting] (c : Client) (tasks : List Task) (task operation : Nat) : Nat :=
  placeOf (tasks.map (Task.errand c)) task operation

/-- An operation is settled, or never settled, as it would be with nothing beside or before it,
and shows the same at the same times. -/
theorem operation_alone [Nesting] (c : Client) (now : Nat) {tasks : List Task} {k i : Nat}
    {task : Task} {op : Operation} {s : Script} {report : Report Result}
    (hTask : tasks[k]? = some task) (hOp : task.operations[i]? = some (op, s))
    (hReport : (c.performAll now tasks)[k]? = some report) :
    ∃ settled,
      (soloAt (beganAt now (c.performAll now tasks) k) (c.call op) s).results = [settled] ∧
      report.results[i]? = some settled ∧
      eventsOf (c.place tasks k i) ((c.performAll now tasks).flatMap Report.notes) =
        (soloAt (beganAt now (c.performAll now tasks) k) (c.call op) s).notes.map Note.event := by
  have hErrand : (tasks.map (Task.errand c))[k]? = some (task.errand c) := by
    rw [List.getElem?_map, hTask, Option.map_some]
  have hCall : (task.errand c).calls[i]? = some (c.call op, s) := by
    rw [Task.calls_errand, List.getElem?_map, hOp, Option.map_some]
  obtain ⟨settled, hAlone, hResult, hEvents⟩ :=
    performAll_solo (inStep_startingAt now) hErrand hCall hReport
  have hPlace : c.place tasks k i =
      (startingAt now : Loop Result).calls.length + placeOf (tasks.map (Task.errand c)) k i := by
    simp [place, startingAt]
  refine ⟨settled, hAlone, hResult, ?_⟩
  rw [hPlace]
  exact hEvents

/-- A probe that is answered, begun together with one that never is. -/
theorem operation_alone_beside_unanswered :
    let c : Client := ⟨defaultHost, 100, .console⟩
    let answered : Script := ⟨.after 7 (.ok ⟨204, .absent⟩), true, .aborted⟩
    let tasks : List Task :=
      [.several [(.checkHealth 80, ⟨.never, true, .aborted⟩), (.checkHealth 80, answered)]]
    ∃ report settled, (c.performAll 3 tasks)[0]? = some report ∧
      (soloAt 3 (c.call (.checkHealth 80)) answered).results = [settled] ∧
      report.results[1]? = some settled := by
  intro c answered tasks
  have hTask : tasks[0]? = some (.several
      [(.checkHealth 80, ⟨.never, true, .aborted⟩), (.checkHealth 80, answered)]) := rfl
  have hReport : (c.performAll 3 tasks)[0]? =
      some ((startingAt 3).perform (Task.errand c tasks[0])).2 := rfl
  obtain ⟨settled, hAlone, hResult, -⟩ :=
    operation_alone c 3 (i := 1) (s := answered) hTask rfl hReport
  exact ⟨_, settled, hReport, hAlone, hResult⟩

end Enroll.Client
