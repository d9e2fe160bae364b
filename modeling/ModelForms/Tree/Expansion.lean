import ModelForms.Bounds.Depth
import ModelForms.Tree.Basic
import ModelForms.Tree.Plan

/-!
# Expanding models

An expansion goes through a model from the root and makes the node of each position.  It reads the
types of the table and also adds to them, since the type of a control's value is in general not the
declared one, and neither is what is left of a type when `null` and `undefined` are set aside.  Each
position is looked at in the table as the positions before it have left it, and what was added stays
there when the expansion fails.

Each model that a group stands for is entered in a guard while the group is expanded.  A model that
is entered again is expanded again only under a hint that describes what lies below, since such
hints are finite; under any other hint it is an error.  A counter bounds how deep nodes may stand
inside each other.  The recursion itself goes along the levels that the counter has left.
-/

namespace ModelForms

/-- The state of an expansion. -/
structure ExpansionState where
  /-- The types. -/
  types : TypeTable
  /-- The models that are being expanded. -/
  guard : Guard ModelId
  /-- The nodes that are being expanded. -/
  depth : Depth
deriving Repr

/-- The state before anything is expanded. -/
def ExpansionState.start (types : TypeTable) : ExpansionState :=
  ⟨types, Guard.forWalk .expansion, Depth.forWalk .expansion⟩

/-- A part of an expansion.  The state is there also after a failure. -/
abbrev Expanding := ExceptT DerivationError (StateM ExpansionState)

/-- What stays the same throughout an expansion. -/
structure Expansion where
  models : Definitions
  mode : Mode

namespace Expansion

/-! ## The state -/

/-- The models with the types as they are now. -/
def catalog (expansion : Expansion) : Expanding Catalog :=
  return ⟨(← get).types, expansion.models⟩

/-- Adds to the types. -/
def intern {α : Type} (action : Interning α) : Expanding α :=
  modifyGet fun state =>
    let (result, types) := action state.types
    (result, { state with types := types })

/-- An action followed by a change of the state, whether the action fails or not. -/
def thenAlways {α : Type} (action : Expanding α) (change : ExpansionState → ExpansionState) :
    Expanding α :=
  ExceptT.mk do
    let result ← action.run
    modify change
    return result

/-- Makes a node one level further in. -/
def withinLevel (path : FieldPath) (action : Expanding TreeNode) : Expanding TreeNode := do
  let entered ← modifyGet fun state =>
    let (entered, depth) := state.depth.enter
    (entered, { state with depth := depth })
  if entered then
    thenAlways action fun state => { state with depth := state.depth.leave }
  else
    throw (.tooDeep path (← get).depth.maxLevel)

/-- Makes a group with the model that its declared type names marked as being expanded. -/
def withinModel (expansion : Expansion) (path : FieldPath) (declared : TypeId) (hint : Hint)
    (action : Expanding TreeNode) : Expanding TreeNode := do
  match (← expansion.catalog).namedModel? declared with
  | none => action
  | some definition =>
      let admission ← modifyGet fun state =>
        let (admission, guard) := state.guard.enter definition
        (admission, { state with guard := guard })
      match admission with
      | .entered =>
          thenAlways action fun state => { state with guard := state.guard.leave definition }
      | .cycle =>
          if hint.describesBelow then action
          else throw (.cyclicModel (expansion.models.describe definition) path)
      | .tooDeep | .tooMany => throw (.tooDeep path (← get).guard.maxDepth)

/-! ## Nodes -/

/-- How a node is made from its path, its declared type, the hint for it, and whether its value may
be null. -/
abbrev Maker := FieldPath → TypeId → Hint → Bool → Expanding TreeNode

/-- The decisions of the mode about a property of a type. -/
def decide (expansion : Expansion) (type : TypeId) (optional : Bool) : Expanding Decided :=
  return expansion.mode.decide ((← expansion.catalog).declared type optional)

/-- The first field that a hint speaks of and a group does not have. -/
def strangeField? (properties : List Property) (hint : Hint) : Option String :=
  hint.namedFields.find? fun field => !properties.any (·.name == field)

/-- Makes the members of a group, given how a node is made. -/
def members (expansion : Expansion) (below : Maker) (path : FieldPath) (hint : Hint) :
    List Property → Expanding (List (String × (Bool × TreeNode)))
  | [] => return []
  | p :: rest => do
      let decided ← expansion.decide p.type p.optional
      let node ← below (path.field p.name) p.type (hint.field p.name) decided.nullable
      return (p.name, (decided.optional, node)) :: (← expansion.members below path hint rest)

/-- Makes a group with a member for each property, given how a node is made. -/
def group (expansion : Expansion) (below : Maker) (path : FieldPath) (hint : Hint)
    (properties : List Property) : Expanding TreeNode :=
  match strangeField? properties hint with
  | some field => throw (.unknownHintField path field)
  | none => return .group (Entries.collect (← expansion.members below path hint properties))

/-- Makes an array, given how a node is made.  An element is never absent. -/
def array (expansion : Expansion) (below : Maker) (path : FieldPath) (hint : Hint)
    (element : TypeId) : Expanding TreeNode := do
  let decided ← expansion.decide element false
  return .array (← below path.element element hint.element decided.nullable)

/-- Makes the node of a position, given how the nodes below are made. -/
def nodeStep (expansion : Expansion) (below : Maker) : Maker := fun path declared hint nullable =>
  withinLevel path do
    let stripped ← intern (Interning.withoutNullish expansion.models declared)
    match (← expansion.catalog).plan stripped hint path with
    | .error error => throw error
    | .ok .control =>
        return .control (← intern (Interning.controlType expansion.models declared nullable))
    | .ok (.group properties) =>
        expansion.withinModel path declared hint (expansion.group below path hint properties)
    | .ok (.array element) => expansion.array below path hint element

/-- Makes the node of a position, where nodes may stand inside each other over `levels` levels.  The
counter allows no more, so what would be done where none are left does not matter. -/
def node (expansion : Expansion) : (levels : Nat) → Maker
  | 0 => expansion.nodeStep fun path _ _ _ => throw (.tooDeep path WalkKind.expansion.maxDepth)
  | levels + 1 => expansion.nodeStep (expansion.node levels)

end Expansion

end ModelForms
