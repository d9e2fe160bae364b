import ModelForms.Entries
import ModelForms.FieldPath
import ModelForms.Hint
import ModelForms.Mode
import ModelForms.Types.Table

/-!
# Form trees

The form over a model is a tree of controls, groups and arrays.  A control carries the type of its
value.  A group has a member for each property of the model in the order of their declaration, and
an array has one element position.

What the whole form holds as its value is not kept in the tree.  `TreeNode.valueType` computes it
from the controls, so the two cannot disagree.
-/

namespace ModelForms

/-- A node of a form tree. -/
inductive TreeNode where
  | control (value : TypeId)
  /-- The members in order, each with whether it may be absent. -/
  | group (members : List (String × (Bool × TreeNode)))
  | array (element : TreeNode)
deriving Repr, Inhabited

/-- A form derived from a model. -/
structure DerivedForm where
  /-- The outermost group. -/
  root : TreeNode
  /-- The mode that decided about null and absence. -/
  mode : Mode
  /-- The model. -/
  model : TypeId
deriving Repr

namespace TreeNode

/-- The kind of a node. -/
def kind : TreeNode → NodeKind
  | .control _ => .control
  | .group _ => .group
  | .array _ => .array

/-- The members of a group. -/
def members? : TreeNode → Option (Entries (Bool × TreeNode))
  | .group ms => some ms
  | _ => none

/-- A member of a group, and whether it may be absent. -/
def member? (node : TreeNode) (name : String) : Option (Bool × TreeNode) :=
  node.members?.bind fun members => members.lookup name

/-- The element position of an array. -/
def element? : TreeNode → Option TreeNode
  | .array below => some below
  | _ => none

/-- The type of a control's value. -/
def controlType? : TreeNode → Option TypeId
  | .control value => some value
  | _ => none

/-! ## Positions -/

/-- The node one step below. -/
def step? (node : TreeNode) : PathStep → Option TreeNode
  | .field name => (node.member? name).map Prod.snd
  | .element | .index _ => node.element?

/-- The node at the end of some steps. -/
def follow? : TreeNode → List PathStep → Option TreeNode
  | node, [] => some node
  | node, step :: rest => (node.step? step).bind fun below => below.follow? rest
termination_by structural _ steps => steps

/-- The names of fields that are looked up on the way along some steps. -/
def namesAlong : TreeNode → List PathStep → List String
  | _, [] => []
  | node, step :: rest =>
      (match step with
        | .field name => [name]
        | _ => []) ++ match node.step? step with
        | some below => below.namesAlong rest
        | none => []
termination_by structural _ steps => steps

/-! ## Values -/

mutual

/-- The type of a node's value: that of a control, an object of the members' values, or an array of
the element's values. -/
def valueType : TreeNode → Interning TypeId
  | .control value => return value
  | .group members => do
      let properties ← memberTypes members
      Interning.object properties
  | .array element => do
      let element ← valueType element
      Interning.array element
termination_by structural node => node

/-- The members of a group as properties of its value. -/
def memberTypes : List (String × (Bool × TreeNode)) → Interning (List Property)
  | [] => return []
  | (name, (optional, node)) :: rest => do
      let type ← valueType node
      return ⟨name, type, optional⟩ :: (← memberTypes rest)
termination_by structural members => members

end

end TreeNode

namespace DerivedForm

/-- The members of the outermost group. -/
def members (tree : DerivedForm) : Entries (Bool × TreeNode) := tree.root.members?.getD []

/-- The node at a path. -/
def get? (tree : DerivedForm) (path : FieldPath) : Option TreeNode := tree.root.follow? path.steps

/-- The member at a path that ends in a field, and whether it may be absent. -/
def entry? (tree : DerivedForm) (path : FieldPath) : Option (Bool × TreeNode) :=
  match path.steps.getLast? with
  | some (.field name) =>
      (tree.root.follow? path.steps.dropLast).bind fun parent => parent.member? name
  | _ => none

/-- The type of the whole form's value. -/
def valueType (tree : DerivedForm) : Interning TypeId := tree.root.valueType

end DerivedForm

end ModelForms
