import ModelForms.Command.Rendering
import ModelForms.Command.Report

/-!
# Runs of the command

A run reads a document, and maybe a configuration, hints and a value to check, and it answers with
an output, a report and an exit code.  What keeps a run from starting is an error of its own;
problems with the document or the value are the content of the report.
-/

namespace ModelForms

/-- A run that took place. -/
structure Run where
  options : Options
  /-- The document as the command line names it. -/
  document : String
  /-- The rendered document, if there is one. -/
  output : Option String
  diagnostics : List Diagnostic
deriving Repr

/-- What a command writes and how it ends. -/
structure Outcome where
  exitCode : Nat
  /-- The text for the standard output. -/
  output : String
  /-- The text for the standard error. -/
  report : String
deriving DecidableEq, Repr

namespace Run

variable {m : Type → Type} [Monad m]

/-- The value to check, if the command line names one. -/
def readValue (read : ReadFile m) (directory : String) (args : Args) :
    Running m (Option Json) := do
  match args.check with
  | none => return none
  | some name =>
      let path := FilePath.join directory name
      let source ← Options.readOr read path (.unreadableValue path)
      return some (← Options.orFail (.invalidValue path) (Json.parse source))

/-- Runs the command in a directory. -/
def start (read : ReadFile m) (directory : String) (args : Args) : Running m Run := do
  let options ← Options.resolve read directory args
  let path := FilePath.join directory args.document
  let source ← Options.readOr read path (.unreadableDocument path)
  let value ← readValue read directory args
  return match Rendering.ofSource source options value with
    | .ok rendering => ⟨options, args.document, some rendering.output, rendering.mismatches⟩
    | .error problem => ⟨options, args.document, none, [problem]⟩

/-- The outcome of a run.  `terminal` says whether the report goes to a terminal, which decides
about colours if the options do not. -/
def outcome (run : Run) (terminal : Bool) : Outcome where
  exitCode := if run.diagnostics.isEmpty then 0 else 1
  output := (run.output.map (· ++ "\n")).getD ""
  report := Report.text (run.options.pretty.getD terminal) (some run.document) run.diagnostics

end Run

/-- The outcome of a run that could not start. -/
def RunError.outcome (error : RunError) : Outcome :=
  ⟨2, "", "error: " ++ error.message ++ "\n"⟩

end ModelForms
