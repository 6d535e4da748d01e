import Enroll.Config.DotEnv
import Enroll.Config.Environment
import Enroll.Config.FileTree
import Enroll.Effect
import Enroll.Text.Encoding
import Enroll.Text.Quoted

/-!
# Loading a dotenv file

The environment of a process says where its dotenv file is, how it is written and whether it
counts over what is set already. Unless it says otherwise, that is `.env` in UTF-8, and what is
set stays. A file that cannot be read adds nothing. What is done about the file is told on the
console only where that was asked for.
-/

namespace Enroll.DotEnv

structure Options where
  path : Option Text
  encoding : Option Text
  overrides : Bool
  debug : Bool
  keyed : Bool

/-- An option that is set to the empty text is not given. -/
def given? (env : Environment) (name : Text) : Option Text :=
  match env.value? name with
  | some (u :: rest) => some (u :: rest)
  | _ => none

/-- A tilde at the start of a path stands for the home directory. -/
def resolveHome (env : Environment) (path : Text) : Text :=
  match path with
  | [] => []
  | u :: rest => if u == 0x7E then Path.join ((env.value? "HOME").getD "/root") rest else u :: rest

namespace Options

def defaultPath : Text := ".env"

def ofEnvironment (env : Environment) : Options where
  path := (given? env "DOTENV_CONFIG_PATH").map (resolveHome env)
  encoding := given? env "DOTENV_CONFIG_ENCODING"
  overrides := (given? env "DOTENV_CONFIG_OVERRIDE").isSome
  debug := (given? env "DOTENV_CONFIG_DEBUG").isSome
  keyed := (given? env "DOTENV_CONFIG_DOTENV_KEY").isSome || (given? env "DOTENV_KEY").isSome

def file (o : Options) : Text := o.path.getD defaultPath

/-- The path as it is told; the one that was not given is seen from the root. -/
def shownFile (o : Options) (here : Text) : Text := o.path.getD (Path.resolve here defaultPath)

def readBytes (o : Options) (files : Files) (here : Text) : Except Text (List UInt8) :=
  match files o.file with
  | .error absence => .error (absence.message ++ ", open '" ++ o.shownFile here ++ "'")
  | .ok .directory => .error Failure.directoryRead.message
  | .ok (.file bytes) => .ok bytes

/-- The name that asks for bytes as they are, of which only none at all are a text. -/
def rawEncoding : Text := "buffer"

def read (o : Options) (files : Files) (here : Text) : Except Text Text :=
  let name := o.encoding.getD "utf8"
  match Encoding.ofName? name with
  | some encoding => (o.readBytes files here).map encoding.decode
  | none =>
    if name = rawEncoding then
      match o.readBytes files here with
      | .error reason => .error reason
      | .ok [] => .ok []
      | .ok (_ :: _) => .error ("Unknown encoding: " ++ name)
    else .error ("The argument 'encoding' is invalid encoding. Received " ++ Quoted.abridged name)

/-- The environment with the settings of the file in it. -/
def apply (o : Options) (env additions : Environment) : Environment :=
  if o.overrides then env.override additions else env.complete additions

end Options

/-- The names that are set, each once: array indices first, the others as they came. What would be
`__proto__` is not set at all. -/
def names (settings : List (Text × Text)) : List Text :=
  (Members.setAll [] ((settings.filter fun s => s.1 != ("__proto__" : Text)).map
    fun s => (s.1, .null))).map Prod.fst

def say (label line : Text) : Act Unit :=
  .emit (.console .log [.text ("[dotenv@16.6.1]" ++ label ++ " " ++ line)])

namespace Options

def tell (o : Options) (line : Text) : Act Unit := if o.debug then say "[DEBUG]" line else pure ()

def warnOfKey (o : Options) : Act Unit :=
  if o.keyed then
    say "[WARN]" ("You set DOTENV_KEY but you are missing a .env.vault file at null. " ++
      "Did you forget to build it?")
  else pure ()

def tellEncoding (o : Options) : Act Unit :=
  if o.encoding.isNone then o.tell "No encoding is specified. UTF-8 is used by default"
  else pure ()

def settings (o : Options) (files : Files) (here : Text) : Act (List (Text × Text)) :=
  match o.read files here with
  | .ok t => pure (DotEnv.settings t)
  | .error reason => do
    o.tell ("Failed to load " ++ o.shownFile here ++ " " ++ reason)
    pure []

def tellDefined (o : Options) (env : Environment) (name : Text) : Act Unit :=
  if (env.value? name).isSome then
    o.tell ("\"" ++ name ++ "\" is already defined and " ++
      (if o.overrides then "WAS" else "was NOT") ++ " overwritten")
  else pure ()

def summarize (o : Options) (here : Text) (count : Nat) : Act Unit :=
  if o.debug then
    say [] ("injecting env (" ++ Text.ofNat count ++ ") from " ++ Path.relative here o.file)
  else pure ()

end Options

/-- The environment of a process in the working directory `here`, once its dotenv file is read. -/
def load (env : Environment) (here : Text) (files : Files) : Act Environment := do
  let o := Options.ofEnvironment env
  o.warnOfKey
  o.tellEncoding
  let found ← o.settings files here
  (names found).forM (o.tellDefined env)
  o.summarize here (names found).length
  pure (o.apply env (.ofSettings found))

end Enroll.DotEnv
