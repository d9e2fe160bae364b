import ModelForms.Form.Conformance

/-!
# The conformance walk

The check goes through a tree and a form together, keeps the path of the place where it stands, and
writes down what it finds there until its list is as long as the limit allows.  A step into a member
or an item is added to the path before the part is visited and taken off afterwards.  The walk does
not end when its list is full, it only writes nothing more down.
-/

namespace ModelForms

/-- The state of a conformance walk. -/
structure Walk where
  /-- Where the walk stands. -/
  path : FieldPath
  /-- What was reported, in order. -/
  reported : List Mismatch
deriving Repr

/-- A part of a conformance walk. -/
abbrev Walking := StateM Walk

namespace Walk

/-- The state before anything is visited. -/
def start : Walk := ⟨.root, []⟩

/-- Reports a mismatch at the path of the walk, if the list has room for it. -/
def report (limit : Nat) (mismatch : FieldPath → Mismatch) : Walking Unit :=
  modify fun walk =>
    if walk.reported.length < limit then
      { walk with reported := walk.reported ++ [mismatch walk.path] }
    else walk

/-- A part of the walk that is one step further in. -/
def inside (step : PathStep) (action : Walking Unit) : Walking Unit := do
  modify fun walk => { walk with path := walk.path.push step }
  action
  modify fun walk => { walk with path := walk.path.pop }

/-- Checks a cell. -/
def cell (catalog : Catalog) (limit : Nat) (type : TypeId) (cell : Cell) : Walking Unit := do
  if !cell.nonNullable && !catalog.includesNull type then
    report limit .nullable
  if !catalog.accepts cell.value type then
    report limit (.value · (catalog.typeText type))

/-- Reports the members of a group that are not declared. -/
def unexpected (limit : Nat) (declared : Entries (Bool × TreeNode)) (members : Entries Control) :
    Walking Unit :=
  members.keys.forM fun name => do
    if !declared.hasKey name then
      report limit fun path => .unexpected (path.field name)

mutual

/-- Checks a control against a node. -/
def node (catalog : Catalog) (limit : Nat) : TreeNode → Control → Walking Unit
  | .control type, .cell c => cell catalog limit type c
  | .group declared, .group controls => do
      members catalog limit controls declared
      unexpected limit declared controls
  | .array element, .array items =>
      items.zipIdx.forM fun (item, index) =>
        inside (.index index) (node catalog limit element item)
  | expected, found => report limit (.kind · expected.kind found.kind)
termination_by structural node => node

/-- Checks the declared members of a group. -/
def members (catalog : Catalog) (limit : Nat) (controls : Entries Control) :
    List (String × (Bool × TreeNode)) → Walking Unit
  | [] => return
  | (name, (optional, part)) :: rest => do
      inside (.field name) <|
        match controls.lookup name with
        | some control => node catalog limit part control
        | none => if optional then return else report limit .missing
      members catalog limit controls rest
termination_by structural declared => declared

end

/-- The mismatches that a walk reports. -/
def check (catalog : Catalog) (limit : Nat) (tree : TreeNode) (control : Control) :
    List Mismatch :=
  (node catalog limit tree control start).2.reported

end Walk

end ModelForms
