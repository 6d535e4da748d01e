import Enroll.Config.DotEnv.Loading
import Enroll.Proofs.Act
import Enroll.Proofs.Logging

/-!
# What a dotenv file adds

Loading a dotenv file never fails, and shows nothing but lines on the console: a file that cannot
be read adds nothing. Unless the environment asks for it, nothing that is set is overridden.
-/

namespace Enroll

namespace Act

variable {α β : Type}

/-- An act that comes to a value and shows nothing but lines on the console. -/
structure Remarks (x : Act α) (a : α) : Prop where
  result : x.result = .ok a
  lines : x.Shows fun e => e.isLine

theorem remarks_pure (a : α) : (Pure.pure a : Act α).Remarks a := ⟨rfl, shows_pure a⟩

theorem Remarks.bind {x : Act α} {a : α} {next : α → Act β} {b : β} (hFirst : x.Remarks a)
    (hNext : (next a).Remarks b) : (x >>= next).Remarks b := by
  rw [bind_of_ok hFirst.result]
  constructor
  · exact hNext.result
  · intro e he
    rcases List.mem_append.mp he with he | he
    · exact hFirst.lines e he
    · exact hNext.lines e he

theorem remarks_forM {say : α → Act Unit} (hSay : ∀ a, (say a).Remarks ()) (as : List α) :
    (as.forM say).Remarks () := by
  induction as with
  | nil => exact remarks_pure ()
  | cons a rest ih => exact (hSay a).bind ih

end Act

namespace DotEnv

open Act

theorem remarks_say (label line : Text) : (say label line).Remarks () := by
  refine ⟨rfl, fun e he => ?_⟩
  obtain rfl := List.mem_singleton.mp he
  rfl

namespace Options

theorem remarks_tell (o : Options) (line : Text) : (o.tell line).Remarks () := by
  unfold tell
  split
  · exact remarks_say _ line
  · exact remarks_pure ()

theorem remarks_warnOfKey (o : Options) : o.warnOfKey.Remarks () := by
  unfold warnOfKey
  split
  · exact remarks_say _ _
  · exact remarks_pure ()

theorem remarks_tellEncoding (o : Options) : o.tellEncoding.Remarks () := by
  unfold tellEncoding
  split
  · exact o.remarks_tell _
  · exact remarks_pure ()

theorem remarks_tellDefined (o : Options) (env : Environment) (name : Text) :
    (o.tellDefined env name).Remarks () := by
  unfold tellDefined
  split
  · exact o.remarks_tell _
  · exact remarks_pure ()

theorem remarks_summarize (o : Options) (here : Text) (count : Nat) :
    (o.summarize here count).Remarks () := by
  unfold summarize
  split
  · exact remarks_say _ _
  · exact remarks_pure ()

/-- The settings in the file, none if it cannot be read. -/
def found (o : Options) (files : Files) (here : Text) : List (Text × Text) :=
  match o.read files here with
  | .ok t => DotEnv.settings t
  | .error _ => []

theorem remarks_settings (o : Options) (files : Files) (here : Text) :
    (o.settings files here).Remarks (o.found files here) := by
  unfold settings found
  cases o.read files here with
  | ok t => exact remarks_pure _
  | error reason => exact (o.remarks_tell _).bind (remarks_pure [])

end Options

/-- What the dotenv file of an environment sets. -/
def additions (env : Environment) (here : Text) (files : Files) : Environment :=
  .ofSettings ((Options.ofEnvironment env).found files here)

def loaded (env : Environment) (here : Text) (files : Files) : Environment :=
  (Options.ofEnvironment env).apply env (additions env here files)

theorem remarks_load (env : Environment) (here : Text) (files : Files) :
    (load env here files).Remarks (loaded env here files) := by
  let o := Options.ofEnvironment env
  apply o.remarks_warnOfKey.bind
  apply o.remarks_tellEncoding.bind
  apply (o.remarks_settings files here).bind
  apply (remarks_forM (o.remarks_tellDefined env) _).bind
  apply (o.remarks_summarize here _).bind
  exact remarks_pure _

/-- What is set stays, and the file adds to it. -/
theorem value?_loaded {env : Environment} (hKeeps : given? env "DOTENV_CONFIG_OVERRIDE" = none)
    (here : Text) (files : Files) (name : Text) :
    (loaded env here files).value? name =
      (env.value? name).or ((additions env here files).value? name) := by
  have hApply : loaded env here files = env.complete (additions env here files) := by
    simp [loaded, Options.apply, Options.ofEnvironment, hKeeps]
  rw [hApply, Environment.value?_complete]

end DotEnv

end Enroll
