import ModelForms.Diagnostic

/-!
# Reports

A report has a line for each diagnostic, as in `models.json:/root - error FT3006: …`, and a line
that counts them if there are several.  In colour, each part of a line stands between the codes
that a terminal understands.
-/

namespace ModelForms.Report

/-- The code that ends every style of a terminal. -/
def resetCode : String := "\x1b[0m"

/-- The code that starts a style. -/
def startCode (style : String) : String := "\x1b[" ++ style ++ "m"

/-- A text in a style.  Where the text ends a style itself, the style starts again. -/
def paint (style text : String) : String :=
  startCode style
    ++ String.ofList
      (Text.replaceAll resetCode.toList (resetCode ++ startCode style).toList text.toList)
    ++ resetCode

/-- A text that is in a style if the report is coloured. -/
def styled (colored : Bool) (style text : String) : String :=
  if colored then paint style text else text

/-- The place of a diagnostic. -/
def place (file : Option String) (location : String) : String :=
  match file, location.isEmpty with
  | some file, true => file
  | some file, false => file ++ ":" ++ location
  | none, true => "<unknown>"
  | none, false => location

/-- The name of a severity. -/
def severityName : Severity → String
  | .error => "error"
  | .warning => "warning"
  | .message => "message"

/-- The style of a severity: bold, and red, yellow or cyan. -/
def severityStyle : Severity → String
  | .error => "1;31"
  | .warning => "1;33"
  | .message => "1;36"

/-- The code of a diagnostic after a blank.  The code 0 is not written. -/
def codeText (colored : Bool) (code : Nat) : String :=
  if code = 0 then "" else " " ++ styled colored "94" ("FT" ++ toString code)

/-- The line of a diagnostic. -/
def line (colored : Bool) (file : Option String) (diagnostic : Diagnostic) : String :=
  styled colored "36" (place file diagnostic.location) ++ " - "
    ++ styled colored (severityStyle diagnostic.severity) (severityName diagnostic.severity)
    ++ codeText colored diagnostic.code ++ ": " ++ diagnostic.message

/-- The line that counts diagnostics. -/
def summary (colored : Bool) (count : Nat) : String :=
  styled colored "1" ("Found " ++ toString count ++ " errors.")

/-- The lines of a report. -/
def lines (colored : Bool) (file : Option String) (diagnostics : List Diagnostic) : List String :=
  diagnostics.map (line colored file)
    ++ if 1 < diagnostics.length then [summary colored diagnostics.length] else []

/-- A report about diagnostics, which may belong to a file. -/
def text (colored : Bool) (file : Option String) (diagnostics : List Diagnostic) : String :=
  String.join ((lines colored file diagnostics).map (· ++ "\n"))

end ModelForms.Report
