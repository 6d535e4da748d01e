import Enroll.Proofs.Client.Operations
import Enroll.Proofs.Exchange.Delivery

/-!
# Registrations that are turned down

A registration that is answered with any other status than a granting one is told what the service
said. What it is told depends on the bytes of the body alone: whatever they are, however they are
cut up and whenever they come, as long as the end is there in time.
-/

namespace Enroll.Client

open Loop

theorem results_of_carried [Nesting] {c : Client} (hLog : c.log.NeverFails) {port : Number}
    (hPort : validPort port) (reg : Registration) {s : Script} {t u : Nat} {r : Response}
    {bytes : List UInt8} (hReply : s.reply = .after t (.ok r))
    (hStatus : granted r.status = false) (hBody : r.body.Carries bytes u)
    (hTime : t + u < timerDelay c.timeout) (now : Nat) :
    (soloAt now (c.call (.register port reg)) s).results =
      [some ⟨.ok (.outcome (.rejected r.status (.ofBody bytes))), now + (t + u)⟩] := by
  have hReact : (c.registering port reg).react r.status =
      .readBody fun text => .rejected r.status (.ofText text) := by
    simp [registering, registerReaction, hStatus]
  have hAttempt := Exchange.attempt_of_carried (x := c.registering port reg) hReply hBody hTime
    hReact
  rw [(performs_register hLog hPort reg now s).results, Exchange.verdict, hAttempt]
  rfl

/-- A registration that is turned down comes to an outcome when the body has ended, with the
diagnostic that the same bytes give if they are sent whole. -/
theorem rejection_told [Nesting] {c : Client} (hLog : c.log.NeverFails) {port : Number}
    (hPort : validPort port) (reg : Registration) {s : Script} {t u : Nat} {r : Response}
    {bytes : List UInt8} (hReply : s.reply = .after t (.ok r))
    (hStatus : granted r.status = false) (hBody : r.body.Carries bytes u)
    (hTime : t + u < timerDelay c.timeout) (now : Nat) :
    let whole : Script := { s with reply := .after t (.ok ⟨r.status, .whole bytes⟩) }
    let told := Except.ok (Result.outcome (.rejected r.status (.ofBody bytes)))
    (soloAt now (c.call (.register port reg)) s).results = [some ⟨told, now + (t + u)⟩] ∧
      (soloAt now (c.call (.register port reg)) whole).results = [some ⟨told, now + t⟩] := by
  intro whole told
  constructor
  · exact results_of_carried hLog hPort reg hReply hStatus hBody hTime now
  · have hWhole : t + 0 < timerDelay c.timeout := by omega
    exact results_of_carried hLog hPort reg (s := whole) rfl hStatus (.whole bytes) hWhole now

/-- A quoted letter of two bytes, with the cut between them and an empty piece in it. -/
theorem rejection_told_across_letter :
    let c : Client := ⟨defaultHost, 100, .console⟩
    let pieces : List Piece := [⟨3, [0x22, 0xC3]⟩, ⟨0, []⟩, ⟨4, [0xA9, 0x22]⟩]
    let s : Script :=
      ⟨.after 5 (.ok ⟨400, .stream (Piece.items 0 1 pieces) .pending⟩), false, .aborted⟩
    (soloAt 2 (c.call (.register 4000 ⟨"alice", "k"⟩)) s).results =
      [some ⟨.ok (.outcome (.rejected 400 (.structured (.string [0xE9])))), 15⟩] := by
  intro c pieces s
  have hLog : c.log.NeverFails := trivial
  have hPort : validPort 4000 := by decide
  have hReply : s.reply = .after 5 (.ok ⟨400, .stream (Piece.items 0 1 pieces) .pending⟩) := rfl
  have hStatus : granted 400 = false := by decide
  have hBody : (Body.stream (Piece.items 0 1 pieces) .pending).Carries
      [0x22, 0xC3, 0xA9, 0x22] 8 := .pieces pieces 1 .pending
  have hTime : 5 + 8 < timerDelay c.timeout := by decide
  have hDiagnostic : Diagnostic.ofBody [0x22, 0xC3, 0xA9, 0x22] =
      .structured (.string [0xE9]) := rfl
  have hTold := (rejection_told hLog hPort ⟨"alice", "k"⟩ hReply hStatus hBody hTime 2).1
  rwa [hDiagnostic] at hTold

end Enroll.Client
