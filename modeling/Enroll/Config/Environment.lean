import Enroll.Json.Value
import Enroll.Text.Utf8

/-!
# Environments

An environment gives each name at most one text that counts: the first of its pairs. The
environment of a process is made by setting variables one after another, and it keeps names and
values as UTF-8 that ends at the first zero.
-/

namespace Enroll

abbrev Environment := List (Text × Text)

namespace Environment

def value? (env : Environment) (name : Text) : Option Text :=
  (env.find? fun v => v.1 == name).map Prod.snd

/-- What is set already stays. -/
def complete (env additions : Environment) : Environment := env ++ additions

theorem value?_complete (env additions : Environment) (name : Text) :
    (env.complete additions).value? name = (env.value? name).or (additions.value? name) := by
  unfold value? complete
  rw [List.find?_append]
  cases env.find? fun v => v.1 == name <;> rfl

/-- What is added stands over what was set. -/
def override (env additions : Environment) : Environment := additions ++ env

def members (env : Environment) : Members := env.map fun v => (v.1, .string v.2)

theorem get?_members (env : Environment) (name : Text) :
    Members.get? env.members name = (env.value? name).map .string := by
  unfold Members.get? members value?
  rw [List.find?_map, Option.map_map, Option.map_map]
  rfl

/-- What a process keeps of a name or a value. -/
def kept (t : Text) : Text := Utf8.decode ((Utf8.encode t).takeWhile (· != 0))

/-- The environment of a process in which these were set, the last one of a name for good. -/
def ofSettings (settings : List (Text × Text)) : Environment :=
  (settings.map fun s => (kept s.1, kept s.2)).reverse

end Environment

end Enroll
