import LineBasic.Span

/-!
# Diagnostics

A message for the author of a program, with the place it is about. All errors and warnings of the
language are shown in this form.
-/

namespace LineBasic

/-- How serious a diagnostic is. -/
inductive Severity where
  | error
  | warning
deriving DecidableEq

/-- The word for a severity. -/
def Severity.word : Severity → String
  | .error => "error"
  | .warning => "warning"

/-- A place in the source and a note to it, which may be empty. -/
structure Label where
  span : Span
  message : String
deriving DecidableEq

/-- A message, and the place it is about. -/
structure Diagnostic where
  severity : Severity
  message : String
  label : Option Label
deriving DecidableEq

/-- A diagnostic whose note repeats its message. -/
def Diagnostic.at (severity : Severity) (span : Span) (message : String) : Diagnostic :=
  ⟨severity, message, some ⟨span, message⟩⟩

end LineBasic
