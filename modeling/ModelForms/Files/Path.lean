import ModelForms.Text.Pieces

/-!
# Paths of files

A path is a text of names between slashes.  Paths are put together and cut, and never simplified:
what is printed is what was put together.  Only the empty name and `.` are passed over where the
directory of a path is looked for; `..` counts as a name there, since the directory that it leads
to depends on the files.
-/

namespace ModelForms.FilePath

/-- Whether a path starts from the root of all files. -/
def isAbsolute (path : String) : Bool := path.toList.head? == some '/'

/-- The path that a second path names, seen from a first one. -/
def join (base path : String) : String :=
  if isAbsolute path || base.isEmpty then path
  else if base.toList.getLast? == some '/' then base ++ path
  else base ++ "/" ++ path

/-- Whether a name on a path leads nowhere. -/
def isIdle (name : List Char) : Bool := name.isEmpty || name == ['.']

/-- The names of a path, where the empty name stands before, between and after slashes. -/
def names (path : List Char) : List (List Char) := Text.pieces (· == '/') path

/-- The ways to the directories that a way lies in, innermost first.  A way is the list of its names
from the last one on. -/
def waysAbove : List (List Char) → List (List (List Char))
  | [] => []
  | name :: outer =>
      if isIdle name then waysAbove outer else outer.dropWhile isIdle :: waysAbove outer

/-- The directories that a path lies in, innermost first, as they are written in the path. -/
def above (path : String) : List String :=
  let (start, body) := match path.toList with
    | '/' :: rest => (['/'], rest)
    | text => ([], text)
  (waysAbove (names body).reverse).map fun way =>
    String.ofList (start ++ Text.joinWith '/' way.reverse)

example : join "/a" "b/c" = "/a/b/c" ∧ join "/a/" "" = "/a/" ∧ join "/a" "/b" = "/b" := by
  decide +kernel
example : above "/a/./b//c" = ["/a/./b", "/a", "/"] := by decide +kernel
example : above "/" = [] := by decide +kernel

end ModelForms.FilePath
