import DeviceLink.Location

namespace DeviceLink

inductive Severity where
  | error
  | warning
  | note
  deriving DecidableEq

namespace Severity

def name : Severity → String
  | .error => "error"
  | .warning => "warning"
  | .note => "note"

def words : List (String × Severity) := [("Error", .error), ("Warning", .warning), ("Note", .note)]

def toJson : Severity → Json
  | .error => .ofString "Error"
  | .warning => .ofString "Warning"
  | .note => .ofString "Note"

def read : Json.Reader Severity := .word words

end Severity

structure Diagnostic where
  severity : Severity
  message : String
  span : Span
  notes : List String := []
  deriving DecidableEq

namespace Diagnostic

def withNote (d : Diagnostic) (note : String) : Diagnostic := { d with notes := d.notes ++ [note] }

def render (d : Diagnostic) : String :=
  s!"{d.severity.name}: {d.message}" ++ String.join (d.notes.map fun n => s!"\n  note: {n}")

def toJson (d : Diagnostic) : Json :=
  .ofFields [("severity", d.severity.toJson), ("message", .ofString d.message), ("span", d.span.toJson),
    ("notes", .ofStrings d.notes)]

def read : Json.Reader Diagnostic := .record fun room => do
  let severity ← .required "severity" (Severity.read room)
  let message ← .required "message" (Json.Reader.string room)
  let span ← .required "span" (Span.read room)
  let notes ← .required "notes" (Json.Reader.list .string room)
  return { severity, message, span, notes }

end Diagnostic

structure Report where
  diagnostics : List Diagnostic := []
  errorCount : Nat := 0
  warningCount : Nat := 0
  deriving DecidableEq

namespace Report

def push (r : Report) (d : Diagnostic) : Report :=
  let r := { r with diagnostics := r.diagnostics ++ [d] }
  match d.severity with
  | .error => { r with errorCount := r.errorCount + 1 }
  | .warning => { r with warningCount := r.warningCount + 1 }
  | .note => r

def warn (r : Report) (message : String) (span : Span) : Report :=
  r.push { severity := .warning, message, span }

def hasErrors (r : Report) : Bool := 0 < r.errorCount

def counted (n : Nat) (noun : String) : String := s!"{n} {noun}" ++ if n = 1 then "" else "s"

def summary (r : Report) : String :=
  match r.errorCount, r.warningCount with
  | 0, 0 => "No errors or warnings"
  | 0, w => counted w "warning"
  | e, 0 => counted e "error"
  | e, w => counted e "error" ++ " and " ++ counted w "warning"

end Report

end DeviceLink
