import Enroll.Proofs.Command.Interruption
import Enroll.Proofs.Config.Decision
import Enroll.Proofs.Exchange.Overrun
import Enroll.Proofs.Exchange.Timer
import Enroll.Proofs.Number.Whole

/-!
# What is done with a job

A job that was loaded can be used as it is: its port and its time limit are naturals in their
ranges, however they were spelled, the port is written in its digits and the timer takes the limit
unchanged. So a run that has one makes its request, and that is timed out at its limit if it is not
finished by then, and never else.
-/

namespace Enroll

namespace Environment

variable {env : Environment}

theorem port_of_valid (hValid : env.Reports []) {t : Text}
    (hSet : env.value? "KEYREG_PORT" = some t) :
    ∃ n : Nat, 1 ≤ n ∧ n ≤ 65535 ∧ Number.ofText t = .ofNat n := by
  have hFaults : Variables.portSettingRange.faults (.ofText t) = [] :=
    (Variables.portSettingRange.tells_faults _).nil_iff.mpr fun f hViolates =>
      hValid.nil_iff.mp rfl _ (.port hSet hViolates)
  exact (Range.faults_eq_nil_iff (by decide) (by decide)).mp hFaults

theorem timeout_of_valid (hValid : env.Reports []) :
    ∃ n : Nat, 1 ≤ n ∧ n ≤ 2147483647 ∧
      ((env.value? "KEYREG_TIMEOUT_MS").map Number.ofText).getD 10000 = .ofNat n := by
  cases hSet : env.value? "KEYREG_TIMEOUT_MS" with
  | none => exact ⟨10000, by norm_num, by norm_num, rfl⟩
  | some t =>
    have hFaults : timeoutRange.faults (.ofText t) = [] :=
      (timeoutRange.tells_faults _).nil_iff.mpr fun f hViolates =>
        hValid.nil_iff.mp rfl _ (.timeout hSet hViolates)
    exact (Range.faults_eq_nil_iff (by decide) (by decide)).mp hFaults

theorem value?_ne_nil (hValid : env.Reports []) {name : Text} (hText : name ∈ texts) :
    env.value? name ≠ some [] := fun hEmpty => hValid.nil_iff.mp rfl _ (.empty hText hEmpty)

theorem user_ne_nil (hValid : env.Reports []) {u : Text} (hUser : env.user? = some u) : u ≠ [] := by
  rintro rfl
  rcases Option.or_eq_some_iff.mp hUser with hOwn | ⟨-, hFallback⟩
  · exact value?_ne_nil hValid (by simp [texts]) hOwn
  · exact value?_ne_nil hValid (by simp [texts]) hFallback

theorem key_ne_nil (hValid : env.Reports []) {files : Files} {entries : List LogEntry} {k : Text}
    (hKeys : env.Keys files entries (.ok k)) : k ≠ [] := by
  cases hKeys with
  | given hKey =>
    rintro rfl
    exact value?_ne_nil hValid (by simp [texts]) hKey
  | held hKey hPath hFile hSome => exact hSome

end Environment

namespace Job

variable {env : Environment} {files : Files} {log : Logger}

/-- Whatever logs, a job that is loaded is the one that the environment and the files decide. -/
theorem decides_of_load [Nesting] {job : Job}
    (h : (load (.object env.members) files log).result = .ok job) :
    ∃ entries, env.Decides files entries (.ok job) := by
  obtain ⟨entries, result, hDecides⟩ := decides_total env files
  have hQuiet := (breaksOff_load files log (.object env.members)).result_eq_ok h
  rw [load_of_decides log.neverFails_quiet hDecides] at hQuiet
  obtain rfl : result = .ok job := hQuiet
  exact ⟨entries, hDecides⟩

/-- Nor does a failure before any entry depend on who logs. -/
theorem decides_of_fail [Nesting] {f : Failure}
    (h : load (.object env.members) files log = .fail f) :
    ∃ entries, env.Decides files entries (.error f) := by
  obtain ⟨entries, result, hDecides⟩ := decides_total env files
  have hQuiet := (breaksOff_load files log (.object env.members)).eq_fail h
  rw [load_of_decides log.neverFails_quiet hDecides] at hQuiet
  obtain rfl : result = .error f := congrArg Act.result hQuiet
  exact ⟨entries, hDecides⟩

theorem keyed_of_load [Nesting] {job : Job}
    (h : (load (.object env.members) files log).result = .ok job) :
    ∃ t u k entries, env.Reports [] ∧ env.value? "KEYREG_PORT" = some t ∧ env.user? = some u ∧
      env.Keys files entries (.ok k) ∧
      (⟨.ofText t, ⟨u, k⟩, (env.value? "KEYREG_HOST").getD "localhost",
        ((env.value? "KEYREG_TIMEOUT_MS").map Number.ofText).getD 10000⟩ : Job) = job := by
  obtain ⟨entries, hDecides⟩ := decides_of_load h
  generalize hResult : (Except.ok job : Except Failure Job) = result at hDecides
  cases hDecides with
  | invalid | nobody => cases hResult
  | @keyed t u entries key hValid hSet hUser hKeys =>
    cases key with
    | error f => cases hResult
    | ok k => exact ⟨t, u, k, entries, hValid, hSet, hUser, hKeys, (Except.ok.inj hResult).symm⟩

end Job

namespace Command

open Client Exchange Loop

/-! ## What is to show -/

/-- A job that can be used as it is, with what its port and its time limit are, whatever the
environment spelled them like. -/
structure Usable (env : Environment) (job : Job) (port limit : Nat) : Prop where
  readsPort : (env.value? "KEYREG_PORT").map Number.ofText = some (.ofNat port)
  takesPort : job.port = .ofNat port
  placesPort : (Number.ofNat port).place? = some (.at port)
  boundsPort : 1 ≤ port ∧ port ≤ 65535
  digits : (∀ u ∈ Text.ofNat port, Text.isDigit u) ∧ (Text.ofNat port).head? ≠ some 0x30 ∧
    Literal.natOf (Text.ofNat port) = port
  readsLimit : ((env.value? "KEYREG_TIMEOUT_MS").map Number.ofText).getD 10000 = .ofNat limit
  takesLimit : job.timeout = .ofNat limit
  placesLimit : (Number.ofNat limit).place? = some (.at limit)
  boundsLimit : 1 ≤ limit ∧ limit ≤ 2147483647
  timer : timerDelay (.ofNat limit) = limit
  host : job.host = (env.value? "KEYREG_HOST").getD "localhost"
  name : job.registration.name ≠ []
  key : job.registration.key ≠ []

/-- The address of a registration, the port in its decimal digits. -/
def addressOf (host : Text) (port : Nat) : Text :=
  "http://" ++ host ++ ":" ++ Text.ofNat port ++ "/api/register"

/-- The request of a registration, word for word. -/
def postTo (host : Text) (port : Nat) (r : Registration) : Request :=
  ⟨addressOf host port,
    [("method", .string "POST"),
      ("headers", .object [("Content-Type", .string "application/json")]),
      ("body", .string (Json.object [("name", .string r.name), ("key", .string r.key)]).text)]⟩

/-- What a run makes of what its request comes to in time. -/
inductive Finishes [Nesting] (x : Exchange Outcome) (p : Printing) :
    Except Failure Outcome → Except Failure Nat → Prop where
  | accepted : Finishes x p (.ok .accepted) (.ok 0)
  | rejected (status : Nat) (diagnostic : Diagnostic) :
    Finishes x p (.ok (.rejected status diagnostic))
      ((p.print diagnostic.line).result.map fun _ => 0)
  | failed {e rejection : Failure} (hRejects : x.Rejects false e rejection) :
    Finishes x p (.error e) (.error rejection)

/-- What a run comes to that makes a request under a time limit, and whether it gives it up. -/
structure KeepsLimit [Nesting] (x : Exchange Outcome) (p : Printing) (s : Script) (now limit : Nat)
    (report : Report Nat) : Prop where
  finished : ∀ t r, x.unhurried s = some (t, r) → t < limit →
    (∃ result, Finishes x p r result ∧ report.results = [some ⟨result, now + t⟩]) ∧
      report.events.filter (fun e => e.effect.isAborted) = []
  unfinished : (∀ t r, x.unhurried s = some (t, r) → limit ≤ t) →
    (∃ cause, report.results = [some ⟨.error (.transport .timeout
      ("keyreg-client:http-exchange:exchange - POST " ++ x.request.url ++
        (" timed out after " ++ Text.ofNat limit ++ "ms"))
      x.request.url (some (.ofNat limit)) (some cause)), now + limit⟩]) ∧
      report.events.filter (fun e => e.effect.isAborted) = [⟨now + limit, .aborted⟩]

/-! ## A run that has a job -/

variable {env : Environment} {files : Files} {source : LogSource} {job : Job}

theorem usable_of_load [Nesting]
    (hLoad : (loading (.object env.members) files source).result = .ok job) :
    ∃ port limit, Usable env job port limit := by
  obtain ⟨t, u, k, entries, hValid, hSet, hUser, hKeys, rfl⟩ := Job.keyed_of_load hLoad
  obtain ⟨port, hPortFirst, hPortLast, hPort⟩ := Environment.port_of_valid hValid hSet
  obtain ⟨limit, hFirst, hLast, hLimit⟩ := Environment.timeout_of_valid hValid
  refine ⟨port, limit, ?_⟩
  constructor
  · rw [hSet, Option.map_some, hPort]
  · exact hPort
  · exact Number.place?_ofNat hPortFirst (by omega)
  · exact ⟨hPortFirst, hPortLast⟩
  · exact ⟨Text.isDigit_of_mem_ofNat port, Text.head_ofNat port hPortFirst, Text.natOf_ofNat port⟩
  · exact hLimit
  · exact hLimit
  · exact Number.place?_ofNat hFirst (by omega)
  · exact ⟨hFirst, hLast⟩
  · exact timerDelay_ofNat hFirst hLast
  · rfl
  · exact Environment.user_ne_nil hValid hUser
  · exact Environment.key_ne_nil hValid hKeys

section Run

variable {port limit : Nat}

/-- The exchange of a registration as its request and its limit. -/
def asking [Nesting] (job : Job) (port limit : Nat) : Exchange Outcome :=
  ⟨postTo job.host port job.registration, .ofNat limit, registerReaction⟩

theorem registering_of_usable [Nesting] (h : Usable env job port limit) (source : LogSource) :
    (clientOf source job).registering job.port job.registration = asking job port limit := by
  obtain ⟨hFirst, hLast⟩ := h.boundsPort
  have hText := Number.text_ofNat hFirst (show port < 2 ^ 53 by omega)
  rw [registering, url, h.takesPort, hText, clientOf, h.takesLimit]
  rfl

/-- A run that has a job asks for its registration, and reports what comes of that. -/
theorem opens_of_usable [Nesting] (h : Usable env job port limit) (hSource : source.NeverFails)
    (hLoad : (loading (.object env.members) files source).result = .ok job) (p : Printing) :
    ∃ close : Except Failure Outcome → Act Nat,
      (run (.object env.members) files source p).result =
        .ok (Call.closing (asking job port limit) close) ∧
      (∀ o, (close o).Apart) ∧ ∀ o, ∃ effects, close o = report p ⟨effects, o⟩ := by
  have hLog : (clientOf source job).log.NeverFails := hSource.logger Client.part
  have hRun := congrArg Act.result (run_of_job (p := p) hSource hLoad)
  rw [registering_of_usable h source] at hRun
  refine ⟨_, hRun, fun o => ?_, fun o => ?_⟩
  · exact apart_report p (Act.apart_of_isEntry (isEntry_closeRegister _ _ _ _ o))
  · obtain ⟨entries, -, hClose⟩ := closes_register hLog job.port job.registration o
    exact ⟨_, congrArg (report p) hClose⟩

theorem finishes_report [Nesting] (x : Exchange Outcome) (p : Printing) (effects : List Effect)
    (r : Except Failure Outcome) :
    Finishes x p r (report p ⟨effects, r.mapError (x.classify false)⟩).result := by
  cases r with
  | error e => exact .failed (x.rejects_classify false e)
  | ok outcome =>
    cases outcome with
    | accepted =>
      rw [mapError_ok, report_of_accepted]
      exact .accepted
    | rejected status diagnostic =>
      rw [mapError_ok, report_of_rejected]
      exact .rejected status diagnostic

theorem post_text :
    Text.ofString "keyreg-client:http-exchange:exchange - " ++ Text.ofString "POST" ++
      Text.ofString " " = Text.ofString "keyreg-client:http-exchange:exchange - POST " := by
  decide +kernel

theorem keepsLimit_of_closing [Nesting] {opening : Act (Call Nat)} {x : Exchange Outcome}
    {p : Printing} {close : Except Failure Outcome → Act Nat}
    (hOpens : opening.result = .ok (Call.closing x close)) (hOpening : opening.Apart)
    (hApart : ∀ o, (close o).Apart) (hClose : ∀ o, ∃ effects, close o = report p ⟨effects, o⟩)
    {s : Script} (hHeeds : x.heedsTimer s) (hTimeout : x.timeout = .ofNat limit)
    (hDelay : x.delay = limit) (hText : (Number.ofNat limit).text = Text.ofNat limit)
    (hMethod : x.method = .ok "POST") (now : Nat) :
    KeepsLimit x p s now limit (soloAt now opening s) := by
  obtain ⟨hResults, -, -⟩ := soloAt_closing hOpens now s
  have hAborted := filter_soloAt_closing Effect.isExchanged_of_isAborted hOpens hOpening hApart now s
  rw [List.filter_cons_of_neg (by simp [Effect.isAborted]), filter_isAborted_seen, gaveUp,
    within_attempt, hDelay] at hAborted
  constructor
  · intro t r hUnhurried hEarly
    rw [verdict_of_finished hUnhurried (hDelay ▸ hEarly)] at hResults
    rw [hUnhurried, if_pos (within_of_early hEarly r)] at hAborted
    obtain ⟨effects, hAct⟩ := hClose (r.mapError (x.classify false))
    refine ⟨⟨_, finishes_report x p effects r, ?_⟩, hAborted⟩
    rw [← hAct]
    exact hResults
  · intro hLate
    rw [verdict_of_unfinished (hDelay ▸ hLate) hHeeds, hDelay] at hResults
    rw [within_of_never_early hLate] at hAborted
    refine ⟨⟨x.withdrawal s, ?_⟩, hAborted⟩
    obtain ⟨effects, hAct⟩ := hClose (.error (x.classify true (x.withdrawal s)))
    have hRejects := (x.rejects_classify true (x.withdrawal s)).timedOut rfl _ hMethod
    rw [hTimeout, hText, post_text] at hRejects
    rw [hResults, Option.map_some, hAct, report_of_error, hRejects]

/-- A run whose environment and files make a job makes the request that they ask for, once: to the
port in its digits, with the name and the key of the job, under the limit as it is. It is never
turned down for its port. -/
theorem loaded_job_is_asked_for [Nesting] (hSource : source.NeverFails)
    (hLoad : (loading (.object env.members) files source).result = .ok job) (p : Printing)
    {s : Script} (hScript : s.heedsAbort) (now : Nat) :
    ∃ port limit, Usable env job port limit ∧
      (∃ call, (run (.object env.members) files source p).result = .ok call) ∧
      sent (run (.object env.members) files source p) now s =
        [⟨now, .sent (postTo job.host port job.registration) false⟩] ∧
      KeepsLimit (asking job port limit) p s now limit
        (soloAt now (run (.object env.members) files source p) s) := by
  obtain ⟨port, limit, hUsable⟩ := usable_of_load hLoad
  obtain ⟨close, hOpens, hApart, hClose⟩ := opens_of_usable hUsable hSource hLoad p
  have hOpening := apart_run (.object env.members) files source p
  obtain ⟨hFirst, hLast⟩ := hUsable.boundsLimit
  refine ⟨port, limit, hUsable, ⟨_, hOpens⟩, ?_, ?_⟩
  · exact sent_of_closing hOpens hOpening hApart now s
  · exact keepsLimit_of_closing hOpens hOpening hApart hClose
      (heedsTimer_of_heeds heeds_registerReaction hScript) rfl hUsable.timer
      (Number.text_ofNat hFirst (by omega)) rfl now

/-- A port in hexadecimal, a limit with an exponent, and a service that never answers. -/
theorem loaded_job_is_asked_for_unanswered :
    let env : Environment := [("KEYREG_PORT", "0xFA0"), ("USER", "bob"), ("KEYREG_KEY", "k"),
      ("KEYREG_TIMEOUT_MS", "2.5e1")]
    let files : Files := fun _ => .error .missing
    let s : Script := ⟨.never, true, .aborted⟩
    let opening := run (.object env.members) files .absent .captured
    let url : Text := "http://localhost:4000/api/register"
    sent opening 5 s = [⟨5, .sent ⟨url, [("method", .string "POST"),
        ("headers", .object [("Content-Type", .string "application/json")]),
        ("body", .string "\x7b\"name\":\"bob\",\"key\":\"k\"\x7d")]⟩ false⟩] ∧
      ∃ cause, (soloAt 5 opening s).results = [some ⟨.error (.transport .timeout
        ("keyreg-client:http-exchange:exchange - POST " ++ url ++ " timed out after 25ms") url
        (some 25) (some cause)), 30⟩] := by
  intro env files s opening url
  let job : Job := ⟨4000, ⟨"bob", "k"⟩, "localhost", 25⟩
  have hSource : LogSource.absent.NeverFails := trivial
  have hLoad : (loading (.object env.members) files .absent).result = .ok job := rfl
  have hScript : s.heedsAbort := rfl
  obtain ⟨port, limit, hUsable, -, hSent, hKeeps⟩ :=
    loaded_job_is_asked_for hSource hLoad .captured hScript 5
  obtain rfl : port = 4000 := by
    have hPlace := hUsable.placesPort
    rw [← hUsable.takesPort, show job.port = .ofNat 4000 from rfl,
      Number.place?_ofNat (by norm_num) (by norm_num), Option.some_inj, Place.at_inj] at hPlace
    exact_mod_cast hPlace.symm
  obtain rfl : limit = 25 := by
    have hTimer := hUsable.timer
    rw [← hUsable.takesLimit] at hTimer
    exact hTimer.symm.trans (by decide)
  obtain ⟨⟨cause, hResults⟩, -⟩ := hKeeps.unfinished nofun
  exact ⟨hSent, cause, hResults⟩

end Run

end Command

end Enroll
