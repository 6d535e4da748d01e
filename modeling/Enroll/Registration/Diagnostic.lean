import Enroll.Check
import Enroll.Json.Printer
import Enroll.Json.Reader
import Enroll.Text.Utf8

/-!
# Diagnostics

What a service said when it turned a registration down: a JSON value where the body is one, else
the text of the body. `Diagnostic.line` says it in one line for people: a message with its detail
where the value is the service's own error report, else the compact JSON.
-/

namespace Enroll

inductive Diagnostic where
  | structured (v : Json)
  | text (t : Text)

namespace Diagnostic

def ofText (t : Text) : Diagnostic :=
  match Json.read? t with
  | some v => .structured v
  | none => .text t

def ofBody (bytes : List UInt8) : Diagnostic := ofText (Utf8.decodeBody bytes)

def kind : Diagnostic → String
  | .structured _ => "structured"
  | .text _ => "text"

def unprintable : Text := "<structured response body too deeply nested to print>"

def emptyBody : Text := "<empty response body>"

end Diagnostic

/-- The error report of a service: a message, and a detail that may be left out or be null. -/
structure ErrorReport where
  message : Text
  detail : Option (Option Text)
  deriving DecidableEq

namespace ErrorReport

def messageIssues (ms : Members) : List Issue :=
  match Members.get? ms "message" with
  | some (.string _) => []
  | some v => [⟨"message", .kind "string" v.kind⟩]
  | none => [⟨"message", .missing⟩]

def detailIssues (ms : Members) : List Issue :=
  match Members.get? ms "detail" with
  | none | some .null | some (.string _) => []
  | some v => [⟨"detail", .kind "string" v.kind⟩]

def issues : Json → List Issue
  | .object ms => messageIssues ms ++ detailIssues ms
  | v => [⟨[], .kind "object" v.kind⟩]

def detail? (ms : Members) : Option (Option Text) :=
  match Members.get? ms "detail" with
  | none => none
  | some (.string t) => some (some t)
  | some _ => some none

/-- The report that a value is, or all that keeps it from being one. Other members do not count. -/
def check (v : Json) : Except (List Issue) ErrorReport :=
  match v with
  | .object ms =>
    match Members.get? ms "message", detailIssues ms with
    | some (.string m), [] => .ok ⟨m, detail? ms⟩
    | _, _ => .error (issues v)
  | _ => .error (issues v)

def line (r : ErrorReport) : Text :=
  match r.detail with
  | some (some (u :: rest)) => r.message ++ ": " ++ (u :: rest)
  | _ => r.message

def toJson (r : ErrorReport) : Json :=
  .object (("message", .string r.message) ::
    match r.detail with
    | none => []
    | some none => [("detail", .null)]
    | some (some t) => [("detail", .string t)])

end ErrorReport

namespace Diagnostic

def valueLine [Nesting] (v : Json) : Text :=
  match ErrorReport.check v with
  | .ok r => r.line
  | .error _ => (Json.print? v).getD unprintable

def line [Nesting] : Diagnostic → Text
  | .text [] => emptyBody
  | .text t => t
  | .structured v => valueLine v

end Diagnostic

end Enroll
