import ModelForms.Entries
import ModelForms.Files.Basic
import ModelForms.Files.Path

/-!
# Files in memory

A tree of files that is held as a list of paths, each with the text of a file or with nothing for a
directory.  The directories that a path lies in exist without being listed.  Every path starts from
the root of the tree, and the root lies in itself.
-/

namespace ModelForms

/-- A tree of files. -/
structure FileTree where
  /-- The ways from the root to the files and listed directories, with the texts of the files. -/
  entries : List (List (List Char) × Option String)
deriving Repr

namespace FileTree

/-- The tree with the given paths. -/
def ofPaths (paths : Entries (Option String)) : FileTree :=
  ⟨paths.map fun path =>
    ((FilePath.names path.1.toList).filter (!FilePath.isIdle ·), path.2)⟩

/-- The text of the file at the end of a way. -/
def text? (tree : FileTree) (way : List (List Char)) : Option String :=
  (tree.entries.find? (·.1 == way)).bind Prod.snd

/-- Whether there is something at the end of a way. -/
def hasWay (tree : FileTree) (way : List (List Char)) : Bool :=
  way.isEmpty || tree.entries.any fun entry => way.isPrefixOf entry.1

/-- Follows names from the end of a way.  Only a directory has names below it. -/
def walk (tree : FileTree) : (names way : List (List Char)) → Except ReadFault (List (List Char))
  | [], way => .ok way
  | name :: rest, way =>
      if (tree.text? way).isSome then .error .notDirectory
      else if FilePath.isIdle name then tree.walk rest way
      else if name = ['.', '.'] then tree.walk rest way.dropLast
      else if tree.hasWay (way ++ [name]) then tree.walk rest (way ++ [name])
      else .error .notFound
termination_by structural names => names

/-- The text of the file at a path. -/
def read (tree : FileTree) (path : String) : Except ReadFault String := do
  let way ← tree.walk (FilePath.names path.toList) []
  match tree.text? way with
  | some text => return text
  | none => throw .isDirectory

example : (ofPaths [("a/b", some "x"), ("c", none)]).read "c/../a//b" = .ok "x" := by rfl
example : (ofPaths [("a/b", some "x")]).read "a/b/." = .error .notDirectory := by rfl
example : (ofPaths [("a/b", some "x")]).read "a" = .error .isDirectory := by rfl

end FileTree

end ModelForms
