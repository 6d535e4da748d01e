import Enroll.Command

/-!
# The executable

Runs the command on the environment and the files of this process. The network is not part of the
library: what the key service answers is read from standard input, the status on the first line
and the body after it. No input stands for a service that cannot be reached.
-/

namespace Enroll.Executable

def settingNames : List String :=
  ["KEYREG_PORT", "KEYREG_USER", "USER", "KEYREG_KEY", "KEYREG_KEY_FILE", "KEYREG_HOST",
    "KEYREG_TIMEOUT_MS", "LOG_LEVEL", "HOME", "DOTENV_CONFIG_PATH", "DOTENV_CONFIG_ENCODING",
    "DOTENV_CONFIG_OVERRIDE", "DOTENV_CONFIG_DEBUG", "DOTENV_CONFIG_DOTENV_KEY", "DOTENV_KEY"]

def readVariables : IO Environment :=
  settingNames.filterMapM fun name => do
    return (← IO.getEnv name).map fun v => (Text.ofString name, Text.ofString v)

/-- What can be opened and not be read is a directory. -/
def readHandle (handle : IO.FS.Handle) : IO Node :=
  try return .file (← handle.readBinToEnd).toList catch _ => return .directory

def readNode (path : String) : IO (Except Absence Node) :=
  try
    let handle ← IO.FS.Handle.mk path .read
    return .ok (← readHandle handle)
  catch _ => return .error .missing

/-- The two files that the command can ask for. -/
def readFiles (env : Environment) (here : Text) : IO Files := do
  let path := (DotEnv.Options.ofEnvironment env).file
  let dotEnv ← readNode path.toString
  let settings : Files := fun p => if p = path then dotEnv else .error .missing
  match (DotEnv.load env here settings).result.toOption.bind fun e => e.value? "KEYREG_KEY_FILE" with
  | none => return settings
  | some keyPath =>
    let keyFile ← readNode keyPath.toString
    return fun p => if p = keyPath then keyFile else settings p

partial def readInput (input : IO.FS.Stream) (before : ByteArray) : IO ByteArray := do
  let bytes ← input.read 4096
  if bytes.isEmpty then return before else readInput input (before ++ bytes)

def unreachable : Failure := .error .type "fetch failed" none none

def scriptOf (input : List UInt8) : Script :=
  let status := Literal.natOf ((Utf8.decode (input.takeWhile (· != 0x0A))).filter Text.isDigit)
  let body := (input.dropWhile (· != 0x0A)).drop 1
  let answer : Answer :=
    if input.isEmpty then .error unreachable
    else .ok ⟨status, if body.isEmpty then .absent else .whole body⟩
  ⟨.after 0 answer, true, .aborted⟩

def argumentText : Argument → String
  | .text t => t.toString
  | .json v => v.text.toString
  | .failure f => f.message.toString

def showEvent (e : Event) : IO Unit :=
  match e.effect with
  | .console channel arguments =>
    let line := " ".intercalate (arguments.map argumentText)
    if channel = .level .error then IO.eprintln line else IO.println line
  | _ => pure ()

def run : IO UInt32 := do
  let env ← readVariables
  let here := Text.ofString ((← IO.getEnv "PWD").getD "/")
  let files ← readFiles env here
  let input ← readInput (← IO.getStdin) .empty
  let report := Command.process env here files (scriptOf input.toList)
  report.events.forM showEvent
  match report.ending with
  | some (.finished code) => return code.toUInt32
  | _ => return 1

end Enroll.Executable

def main : IO UInt32 := Enroll.Executable.run
