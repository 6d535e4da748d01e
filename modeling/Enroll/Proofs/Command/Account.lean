import Enroll.Proofs.Account
import Enroll.Proofs.Command.Run

/-!
# Logging changes nothing

A run of the command and an operation of a client come to one account, whoever logs: the loggers
decide which entries of it are kept and how they are put, and nothing else.
-/

namespace Enroll

variable {out : Effect → Prop}

/-! ## A job -/

namespace Job

theorem told_keyOfFile [Nesting] (files : Files) (path part : Text) :
    Told out Constant fun s => keyOfFile files (s.logger part) path := by
  unfold keyOfFile
  cases files path with
  | error absence => exact told_fail _
  | ok node =>
    have hWrite : Told out _ _ := told_write part ⟨.info, [("keyPath", .string path)],
      "keyreg-client:config - Reading key from file", by simp [Json.isScalar]⟩
    refine hWrite.bind fun _ _ => ?_
    cases node with
    | directory => exact told_fail _
    | file bytes => exact told_pure (.mk _)

theorem told_key [Nesting] (v : Variables) (files : Files) (part : Text) :
    Told out Constant fun s => key v files (s.logger part) := by
  unfold key
  split
  · exact told_pure (.mk _)
  · refine (told_keyOfFile files _ part).bind_constant fun k => ?_
    split
    · exact told_fail _
    · exact told_pure (.mk k)
  · exact told_fail _

theorem told_user (v : Variables) : Told out Constant fun _ => user v := by
  unfold user
  split
  · exact told_pure (.mk _)
  · exact told_fail _

theorem told_load [Nesting] (env : Json) (files : Files) (part : Text) :
    Told out Constant fun s => load env files (s.logger part) := by
  refine (told_ofExcept _).bind_constant fun v => ?_
  refine (told_user v).bind_constant fun u => ?_
  refine (told_key v files part).bind_constant fun k => ?_
  exact told_pure (.mk _)

end Job

/-! ## An operation -/

namespace Client

def loggingTo (host : Text) (timeout : Number) (s : LogSource) : Client :=
  ⟨host, timeout, s.logger part⟩

theorem told_create (host : Option Text) (timeout : Option Number) :
    Told out (· = loggingTo (host.getD defaultHost) (timeout.getD defaultTimeout)) fun s =>
      create host timeout s := by
  refine (told_resolve part).bind ?_
  rintro _ rfl
  exact told_pure rfl

theorem told_checkPort (operation : String) (port : Number) :
    Told out Constant fun _ => checkPort operation port := by
  unfold checkPort
  split
  · exact told_pure (.mk _)
  · exact told_fail _

variable (host : Text) (timeout : Number)

theorem told_closeRegister [Nesting] (port : Number) (r : Registration) (url : Text)
    (o : Except Failure Outcome) :
    Told out Constant fun s => (loggingTo host timeout s).closeRegister port r.name url o := by
  cases o with
  | ok outcome =>
    cases outcome with
    | accepted => exact (told_write part (acceptedEntry port r)).bind fun _ _ => told_pure (.mk _)
    | rejected status diagnostic =>
      exact (told_write part (rejectedEntry port r status diagnostic)).bind fun _ _ =>
        told_pure (.mk _)
  | error f =>
    cases f with
    | transport code message =>
      exact (told_write part ⟨.error, [("url", .string url), ("code", .string code.text)],
        entryText "register" message, by simp [Json.isScalar]⟩).bind fun _ _ => told_fail _
    | _ => exact (told_pure (Constant.mk ())).bind fun _ _ => told_fail _

theorem told_closeHealth [Nesting] (url : Text) (o : Except Failure Bool) :
    Told out Constant fun s => (loggingTo host timeout s).closeHealth url o := by
  cases o with
  | ok healthy =>
    exact (told_write part ⟨.debug, [("url", .string url), ("healthy", .bool healthy)],
      entryText "checkHealth" "Probed key service", by simp [Json.isScalar]⟩).bind fun _ _ =>
        told_pure (.mk _)
  | error f => exact told_fail f

theorem told_register [Nesting] (port : Number) (r : Registration) :
    Told out (Closings out) fun s => (loggingTo host timeout s).register port r := by
  let c : Client := ⟨host, timeout, .console⟩
  refine (told_checkPort _ _).bind_constant fun _ => ?_
  refine (told_write part (c.sendingEntry port r)).bind fun _ _ => ?_
  exact told_pure (.mk (c.registering port r) _
    (told_closeRegister host timeout port r (c.url port registerPath)))

theorem told_checkHealth [Nesting] (port : Number) :
    Told out (Closings out) fun s => (loggingTo host timeout s).checkHealth port := by
  let c : Client := ⟨host, timeout, .console⟩
  refine (told_checkPort _ _).bind_constant fun _ => ?_
  exact told_pure (.mk (c.probing port) _ (told_closeHealth host timeout (c.url port healthPath)))

theorem told_call [Nesting] (op : Operation) :
    Told out (Closings out) fun s => (loggingTo host timeout s).call op := by
  cases op with
  | register port r =>
    refine (told_register host timeout port r).bind fun _ hCalls => ?_
    exact told_pure (hCalls.mapAct fun _ hAct => hAct.map _)
  | checkHealth port =>
    refine (told_checkHealth host timeout port).bind fun _ hCalls => ?_
    exact told_pure (hCalls.mapAct fun _ hAct => hAct.map _)

def asked [Nesting] (host : Option Text) (timeout : Option Number) (op : Operation)
    (s : LogSource) : Act (Call Result) := do
  let c ← create host timeout s
  c.call op

theorem told_asked [Nesting] (host : Option Text) (timeout : Option Number) (op : Operation) :
    Told out (Closings out) (asked host timeout op) := by
  refine (told_create host timeout).bind ?_
  rintro _ rfl
  exact told_call _ _ op

end Client

/-! ## A run -/

namespace Command

open Client Loop

theorem told_print {p : Printing} (hPrinted : ∀ line, ∀ e ∈ (p.print line).effects, out e)
    (line : Text) : Told out (fun _ => True) fun _ => p.print line := by
  cases p with
  | captured => exact told_emit (hPrinted line _ List.mem_cons_self)
  | console => exact told_emit (hPrinted line _ List.mem_cons_self)
  | failing f => exact told_fail f

theorem told_report [Nesting] {p : Printing}
    (hPrinted : ∀ line, ∀ e ∈ (p.print line).effects, out e)
    {act : LogSource → Act Outcome} (h : Told out Constant act) :
    Told out Constant fun s => report p (act s) := by
  refine h.bind_constant fun outcome => ?_
  cases outcome with
  | accepted => exact told_pure (.mk 0)
  | rejected status diagnostic =>
    exact (told_print hPrinted diagnostic.line).bind fun _ _ => told_pure (.mk 0)

theorem told_run [Nesting] (env : Json) (files : Files) {p : Printing}
    (hPrinted : ∀ line, ∀ e ∈ (p.print line).effects, out e) :
    Told out (Closings out) fun s => run env files s p := by
  refine (told_resolve _).bind ?_
  rintro _ rfl
  refine (Job.told_load env files _).bind_constant fun job => ?_
  refine (told_create _ _).bind ?_
  rintro _ rfl
  refine (told_register _ _ job.port job.registration).bind fun _ hCalls => ?_
  exact told_pure (hCalls.mapAct fun _ hAct => told_report hPrinted hAct)

/-! ## The law -/

/-- What shows of a run to anybody but a logger. -/
def Seen (p : Printing) (e : Effect) : Prop :=
  e.isExchanged ∨ ∃ line, e ∈ (p.print line).effects

/-- A run of the command, and an operation of a client, come to one account whoever logs: to one
result at one time, with the same shown to others at the same times, and with the entries that are
of the levels that the logger has. -/
theorem logging_changes_nothing [Nesting] (env : Json) (files : Files) (p : Printing)
    (host : Option Text) (timeout : Option Number) (op : Operation) (s : Script) (now : Nat) :
    (∃ account : Account Nat, account.Outward (Seen p) ∧
      account.Of (fun source => run env files source p) now s) ∧
    ∃ account : Account Result, account.Outward (fun e => e.isExchanged) ∧
      account.Of (Client.asked host timeout op) now s := by
  constructor
  · have hRun : Told (Seen p) (Closings (Seen p)) fun source => run env files source p :=
      told_run env files fun line e he => .inr ⟨line, he⟩
    exact hRun.account (fun _ hExchanged => .inl hExchanged) now s
  · exact (told_asked host timeout op).account (fun _ hExchanged => hExchanged) now s

/-- A registration that is turned down, told by the console and by a logger of lines that has only
errors to write. -/
theorem logging_changes_nothing_turned_down :
    let env : Json := .object
      [("KEYREG_PORT", .string "4000"), ("USER", .string "alice"), ("KEYREG_KEY", .string "k")]
    let files : Files := fun _ => .error .missing
    let s : Script := ⟨.after 3 (.ok ⟨500, .whole [0x6E, 0x6F]⟩), true, .aborted⟩
    let report (source : LogSource) := soloAt 2 (run env files source .captured) s
    let lines : LogSource := .lines service (some .error)
    ∃ account : Account Nat, account.settled = some ⟨.ok 0, 5⟩ ∧
      (report .absent).results = (report lines).results ∧
      (report .absent).notes.map Note.event = LogSource.absent.tells account.remarks ∧
      (report lines).notes.map Note.event = lines.tells account.remarks := by
  intro env files s report lines
  obtain ⟨⟨account, -, hAccount⟩, -⟩ := logging_changes_nothing env files .captured none none
    (.checkHealth 4000) s 2
  obtain ⟨hResults, hEvents⟩ := hAccount .absent trivial
  obtain ⟨hResults', hEvents'⟩ := hAccount lines trivial
  have hTurnedDown : (report .absent).results = [some ⟨.ok 0, 5⟩] := rfl
  refine ⟨account, ?_, hResults.trans hResults'.symm, hEvents, hEvents'⟩
  exact (List.cons.inj (hResults.symm.trans hTurnedDown)).1

end Command

end Enroll
