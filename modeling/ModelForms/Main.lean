import ModelForms.Command.Run

/-!
# The command

Reads the command line and the files, and writes the outcome of the run.
-/

namespace ModelForms.Main

/-- The fault that an error of the file system stands for. -/
def faultOf : IO.Error → ReadFault
  | .noFileOrDirectory .. => .notFound
  | .inappropriateType .. => .notDirectory
  | error => .other (toString error)

/-- The text at a path of the file system. -/
def readFile : ReadFile IO := fun path => do
  try
    return .ok (← IO.FS.readFile path)
  catch error =>
    let isDir ← try (← IO.FS.realPath path).isDir catch _ => pure false
    return .error (if isDir then .isDirectory else faultOf error)

/-- How the command is used. -/
def usage : String := "Usage: formtree [OPTIONS] <DOCUMENT>\n"

/-- The version of the command. -/
def version : String := "formtree 0.1.0\n"

/-- Writes an outcome and gives its exit code. -/
def finish (outcome : Outcome) : IO UInt32 := do
  IO.print outcome.output
  IO.eprint outcome.report
  return outcome.exitCode.toUInt32

end ModelForms.Main

open ModelForms in
/-- Runs the command in the current directory. -/
def main (words : List String) : IO UInt32 := do
  match Args.parse words with
  | .error .help => Main.finish ⟨0, Main.usage, ""⟩
  | .error .version => Main.finish ⟨0, Main.version, ""⟩
  | .error _ => Main.finish ⟨2, "", Main.usage⟩
  | .ok args =>
      let directory := (← IO.currentDir).toString
      let terminal ← (← IO.getStderr).isTty
      match ← (Run.start Main.readFile directory args).run with
      | .ok run => Main.finish (run.outcome terminal)
      | .error error => Main.finish error.outcome
