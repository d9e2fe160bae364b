import ModelForms.Form.Control
import ModelForms.Form.Matching
import ModelForms.Tree.Basic
import ModelForms.Types.Term

/-!
# Conformance

A control conforms to a form tree if it has exactly the entries that the tree declares, each of the
declared kind, if cells that may be null stand only where the type of the value includes `null`,
and if every cell holds a value of its type.  An entry that is not declared is as much a mismatch
as one that is missing.

`Conformance.mismatches` lists every mismatch in the order of a walk through the tree: the declared
members of a group in their order, then the members that are not declared.  Nothing is reported
below a control of the wrong kind.
-/

namespace ModelForms

/-- A way in which a control does not conform to a tree. -/
inductive Mismatch where
  | missing (path : FieldPath)
  | unexpected (path : FieldPath)
  | kind (path : FieldPath) (expected found : NodeKind)
  /-- The cell may be null and its type may not. -/
  | nullable (path : FieldPath)
  /-- The value is not one of the type that is written here. -/
  | value (path : FieldPath) (expected : String)
deriving DecidableEq, Repr

namespace Mismatch

/-- The position of a mismatch. -/
def path : Mismatch → FieldPath
  | .missing p | .unexpected p | .kind p _ _ | .nullable p | .value p _ => p

/-- The text of a mismatch. -/
def message : Mismatch → String
  | .missing p => "control '" ++ p.text ++ "' is required but missing"
  | .unexpected p => "control '" ++ p.text ++ "' is not part of the form model"
  | .kind p expected found =>
      "expected a " ++ expected.name ++ " at '" ++ p.text ++ "', found a " ++ found.name
  | .nullable p => "control at '" ++ p.text ++ "' must be non-nullable"
  | .value p expected => "value at '" ++ p.text ++ "' is not assignable to '" ++ expected ++ "'"

/-- The mismatch as a diagnostic. -/
def diagnostic (mismatch : Mismatch) : Diagnostic :=
  let place := mismatch.path.text
  match mismatch with
  | .missing _ => .about place .missingControl [place]
  | .unexpected _ => .about place .unexpectedControl [place]
  | .kind _ expected found =>
      .about place .controlKindMismatch [expected.name, place, found.name]
  | .nullable _ => .about place .nullableControl [place]
  | .value _ expected => .about place .valueTypeMismatch [place, expected]

end Mismatch

namespace Conformance

/-- The mismatches between a cell and the type of its value. -/
def cell (catalog : Catalog) (path : FieldPath) (type : TypeId) (cell : Cell) : List Mismatch :=
  (if !cell.nonNullable && !catalog.includesNull type then [.nullable path] else [])
    ++ if catalog.accepts cell.value type then [] else [.value path (catalog.typeText type)]

/-- The members of a group that are not declared. -/
def unexpected (path : FieldPath) (declared : Entries (Bool × TreeNode))
    (members : Entries Control) : List Mismatch :=
  (members.keys.filter (!declared.hasKey ·)).map fun name => .unexpected (path.field name)

mutual

/-- Every mismatch between a node and a control, in the order of the walk. -/
def mismatches (catalog : Catalog) (path : FieldPath) : TreeNode → Control → List Mismatch
  | .control type, .cell c => cell catalog path type c
  | .group declared, .group members =>
      declaredMismatches catalog path members declared ++ unexpected path declared members
  | .array element, .array items =>
      (items.mapIdx fun index item =>
        mismatches catalog (path.index index) element item).flatten
  | node, control => [.kind path node.kind control.kind]
termination_by structural node => node

/-- The mismatches of the declared members of a group. -/
def declaredMismatches (catalog : Catalog) (path : FieldPath) (members : Entries Control) :
    List (String × (Bool × TreeNode)) → List Mismatch
  | [] => []
  | (name, (optional, node)) :: rest =>
      (match members.lookup name with
        | some control => mismatches catalog (path.field name) node control
        | none => if optional then [] else [.missing (path.field name)])
      ++ declaredMismatches catalog path members rest
termination_by structural declared => declared

end

/-- The first mismatches between a node and a control. -/
def check (catalog : Catalog) (node : TreeNode) (control : Control) (limit : Nat) :
    List Mismatch :=
  (mismatches catalog .root node control).take limit

end Conformance

/-! ## Values as controls -/

namespace TreeNode

mutual

/-- A value in the shape of controls that follow a tree as far as the value does.  Where the value
has another shape than the tree it becomes one cell, and a cell may be null exactly where the tree
says so. -/
def controlsFor (catalog : Catalog) : TreeNode → Json → Control
  | .group declared, .object members =>
      .ofMembers (members.map fun m =>
        (m.1, (memberControls catalog declared m.1 m.2).getD (.cell (Cell.new m.2 true))))
  | .array element, .array items => .array (items.map fun item => controlsFor catalog element item)
  | .control type, value => .cell (Cell.new value (!catalog.includesNull type))
  | _, value => .cell (Cell.new value true)
termination_by structural node => node

/-- The value of a declared member in the shape of controls. -/
def memberControls (catalog : Catalog) :
    List (String × (Bool × TreeNode)) → String → Json → Option Control
  | [], _, _ => none
  | (name, (_, node)) :: rest, wanted, value =>
      if name = wanted then some (controlsFor catalog node value)
      else memberControls catalog rest wanted value
termination_by structural declared => declared

end

end TreeNode

namespace Conformance

/-- The mismatches of a value that is checked against a whole form, as diagnostics. -/
def mismatchesOfValue (catalog : Catalog) (tree : DerivedForm) (value : Json) : List Diagnostic :=
  (check catalog tree.root (tree.root.controlsFor catalog value)
    Limits.reportedMismatches).map Mismatch.diagnostic

end Conformance

end ModelForms
