import ModelForms.Text.Pieces

/-!
# Reading files

What the command needs from a file system is one operation: to read the text at a path, or to learn
why there is none.  Whether a path is a file or a directory shows in the answer.  The command takes
the operation as an argument, so it runs over real files as well as over a tree of files in memory.
-/

namespace ModelForms

/-- Why a file cannot be read. -/
inductive ReadFault where
  | notFound
  | isDirectory
  /-- The path goes through a file. -/
  | notDirectory
  /-- A fault of the file system, in its own words. -/
  | other (text : String)
deriving DecidableEq, Repr

/-- The text of a fault. -/
def ReadFault.message : ReadFault → String
  | .notFound => "No such file or directory (os error 2)"
  | .isDirectory => "Is a directory (os error 21)"
  | .notDirectory => "Not a directory (os error 20)"
  | .other text => text

/-- The operation that reads the text at a path. -/
abbrev ReadFile (m : Type → Type) := String → m (Except ReadFault String)

namespace ReadFile

variable {m : Type → Type} [Monad m]

/-- Whether there is a file at a path. -/
def isFile (read : ReadFile m) (path : String) : m Bool := do
  return match ← read path with
    | .ok _ | .error (.other _) => true
    | .error _ => false

/-- Whether there is a directory at a path. -/
def isDirectory (read : ReadFile m) (path : String) : m Bool := do
  return match ← read path with
    | .error .isDirectory => true
    | _ => false

/-- The first path with a file. -/
def firstFile? (read : ReadFile m) : (paths : List String) → m (Option String)
  | [] => return none
  | path :: rest => do
      if ← read.isFile path then return some path else read.firstFile? rest

end ReadFile

end ModelForms
