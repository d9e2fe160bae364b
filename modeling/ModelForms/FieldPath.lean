import ModelForms.Text.Pieces

/-!
# Field paths

A path names a position in a model, in a form tree or in a form.  A step goes to a field of a
group, to the element position of an array, or to one element of an array of controls.  A path is
written with dots before its fields and brackets for its elements, as in `items[].price`.

Reading a path back splits it at dots.  Brackets are read only at the end of a piece, and a number
in brackets is not read at all, so not every path has a text that reads back as the path.
-/

namespace ModelForms

/-- A step of a path. -/
inductive PathStep where
  /-- To a field of a group. -/
  | field (name : String)
  /-- To the element position of an array. -/
  | element
  /-- To one element of an array. -/
  | index (index : Nat)
deriving DecidableEq, Repr, Inhabited

/-- A path from the root. -/
structure FieldPath where
  /-- The steps, outermost first. -/
  steps : List PathStep
deriving DecidableEq, Repr, Inhabited

namespace FieldPath

/-- The path of no steps. -/
def root : FieldPath := ⟨[]⟩

/-- Whether a path has no steps. -/
def isRoot (path : FieldPath) : Bool := path.steps.isEmpty

/-- A path with one more step. -/
def push (path : FieldPath) (step : PathStep) : FieldPath := ⟨path.steps ++ [step]⟩

/-- A path with one more step, to a field. -/
def field (path : FieldPath) (name : String) : FieldPath := path.push (.field name)

/-- A path with one more step, to the element position. -/
def element (path : FieldPath) : FieldPath := path.push .element

/-- A path with one more step, to one element. -/
def index (path : FieldPath) (i : Nat) : FieldPath := path.push (.index i)

/-- A path without its last step. -/
def pop (path : FieldPath) : FieldPath := ⟨path.steps.dropLast⟩

/-! ## Writing -/

/-- A step as it is written. -/
def stepChars (first : Bool) : PathStep → List Char
  | .field name => (if first then [] else ['.']) ++ name.toList
  | .element => ['[', ']']
  | .index i => '[' :: (Nat.toDigits 10 i ++ [']'])

/-- The steps as they are written, with a dot before each field but a first one. -/
def stepsChars (first : Bool) : List PathStep → List Char
  | [] => []
  | step :: rest => stepChars first step ++ stepsChars false rest

/-- The text of a path. -/
def text (path : FieldPath) : String :=
  if path.isRoot then "<root>" else String.ofList (stepsChars true path.steps)

/-! ## Reading -/

/-- Takes pairs of brackets off the end of a piece, which is given backwards, and counts them. -/
def peelBrackets : List Char → List Char × Nat
  | ']' :: '[' :: rest =>
      let (name, count) := peelBrackets rest
      (name, count + 1)
  | name => (name, 0)

/-- The steps that a piece between two dots denotes. -/
def pieceSteps (piece : List Char) : List PathStep :=
  let (name, count) := peelBrackets piece.reverse
  (if name.isEmpty then [] else [.field (String.ofList name.reverse)])
    ++ List.replicate count .element

/-- The path that a dotted text denotes.  Empty pieces are skipped, so the empty text is the root.
-/
def parse (text : String) : FieldPath :=
  ⟨(Text.nonemptyPieces (· == '.') text.toList).flatMap pieceSteps⟩

example : (parse "a.b[].c").text = "a.b[].c" := by decide +kernel
example : (parse "..[]a[]").steps = [.field "[]a", .element] := by decide +kernel
example : text ⟨[.field "a", .index 12]⟩ = "a[12]" := by decide +kernel

end FieldPath

end ModelForms
