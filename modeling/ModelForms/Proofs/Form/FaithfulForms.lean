import ModelForms.Proofs.Form.CheckedValues
import ModelForms.Proofs.Tree.Cycles
import ModelForms.Proofs.Types.Restoring
import ModelForms.Proofs.Types.Terms

/-!
# Forms that give the model back

Deriving a form from a model and asking for the type of the form's value goes from a type to a tree
and back.  In the mode that keeps to what the model declares, and without hints, this is the
identity on the models that a form can hold in full (`Catalog.Restorable`): the value of the form
has the very id of the model (`DerivedForm.valueType_eq_model`).

The two halves meet at `TreeNode.Projects`, which says of a tree and of one table that the tree's
value has a given type.  A position of such a model is made into a tree that projects to the
declared type (`Expansion.Restores`).  A tree that projects to a type is given that id
(`TreeNode.Projects.valueType`), since everything it interns is there already.  Nothing names a
model, so the guard is never asked, and what bounds the expansion is the depth of positions alone.
-/

namespace ModelForms

namespace TypeTable

/-! ## The parts of a model -/

/-- The ids that the entry of an id mentions. -/
def partsOf (table : TypeTable) (id : TypeId) : List TypeId :=
  ((table.lookup id).map TypeEntry.parts).getD []

/-- A type is the model itself or, over any number of steps, a part of it: a property, an element or
a member of a union. -/
inductive Within (table : TypeTable) (model : TypeId) : TypeId → Prop
  | root : Within table model model
  | part {id part : TypeId} (above : Within table model id) (mem : part ∈ table.partsOf id) :
      Within table model part

/-- A type is declared for a position of a model at some depth below the root, where positions lie
along the properties of objects and the elements of arrays. -/
inductive Position (table : TypeTable) (model : TypeId) : Nat → TypeId → Prop
  | root : Position table model 0 model
  | property {depth : Nat} {id : TypeId} {properties : List Property} {p : Property}
      (above : Position table model depth id)
      (found : table.lookup id = some (.object properties)) (mem : p ∈ properties) :
      Position table model (depth + 1) p.type
  | element {depth : Nat} {id element : TypeId} (above : Position table model depth id)
      (found : table.lookup id = some (.array element)) :
      Position table model (depth + 1) element

variable {table : TypeTable} {model id : TypeId}

theorem partsOf_eq {entry : TypeEntry} (found : table.lookup id = some entry) :
    table.partsOf id = entry.parts := by
  simp [partsOf, found]

theorem Within.knows (wf : table.WellFormed) (known : table.Knows model)
    (h : table.Within model id) : table.Knows id := by
  cases h with
  | root => exact known
  | @part outer _ above mem =>
    cases found : table.lookup outer with
    | none => simp [partsOf, found] at mem
    | some entry =>
      rw [partsOf_eq found] at mem
      exact wf.knows_part found mem

theorem Position.within {depth : Nat} (h : table.Position model depth id) :
    table.Within model id := by
  induction h with
  | root => exact .root
  | property _ found mem ih =>
    refine .part ih ?_
    rw [partsOf_eq found]
    exact List.mem_map_of_mem mem
  | element _ found ih =>
    refine .part ih ?_
    rw [partsOf_eq found]
    exact List.mem_singleton_self _

/-- What holds the model and the parts of what it holds, holds everything within the model. -/
theorem Within.mem_of_closed {types : List TypeId} (root : model ∈ types)
    (closed : ∀ id ∈ types, ∀ part ∈ table.partsOf id, part ∈ types)
    (h : table.Within model id) : id ∈ types := by
  induction h with
  | root => exact root
  | part _ mem ih => exact closed _ ih _ mem

/-- Each position has a lower id than the one above it, so a table has no positions deeper than it
has entries. -/
theorem Position.depth_le (wf : table.WellFormed) (known : table.Knows model) {depth : Nat}
    (h : table.Position model depth id) : depth ≤ table.size := by
  have bound := known.lt
  have lower {depth : Nat} {id : TypeId} (h : table.Position model depth id) :
      depth + id.index ≤ model.index := by
    induction h with
    | root => omega
    | property _ found mem ih =>
      have := wf.part_lt found (List.mem_map_of_mem mem)
      omega
    | element _ found ih =>
      have := wf.part_lt found (List.mem_singleton_self _)
      omega
  cases h with
  | root => exact Nat.zero_le _
  | property above found mem =>
    have given := (wf.part_lt found (List.mem_map_of_mem mem)).1
    have := lower above
    omega
  | element above found =>
    have given := (wf.part_lt found (List.mem_singleton_self _)).1
    have := lower above
    omega

end TypeTable

namespace Catalog

/-- Whether a type is one that a form takes apart. -/
def TypeClass.isStructural : TypeClass → Bool
  | .object _ | .array _ => true
  | _ => false

/-- A model that a form holds in full: an object in which nothing refers to a model, no shape has
two properties of one name, nothing is or contains `undefined`, no position of an object or array
may be `null`, and positions do not nest too deeply. -/
structure Restorable (catalog : Catalog) (model : TypeId) : Prop where
  object : ∃ properties, catalog.types.lookup model = some (.object properties)
  noReference : ∀ id, catalog.types.Within model id → catalog.types.referenced? id = none
  distinctNames : ∀ id properties, catalog.types.Within model id →
    catalog.types.lookup id = some (.object properties) → (properties.map Property.name).Nodup
  noUndefined : ¬ catalog.types.Within model TypeId.undefined
  noNull : ∀ depth id, catalog.types.Position model depth id →
    (catalog.shape id).isStructural = true → TypeId.null ∉ catalog.alternatives id
  shallow : ∀ depth id, catalog.types.Position model depth id → depth < Limits.modelDepth

namespace Restorable

variable {catalog : Catalog} {model id : TypeId}

theorem knows (restorable : catalog.Restorable model) : catalog.types.Knows model := by
  obtain ⟨_, found⟩ := restorable.object
  exact TypeTable.knows_of_lookup found

theorem within_alternative (restorable : catalog.Restorable model)
    (within : catalog.types.Within model id) {m : TypeId} (mem : m ∈ catalog.alternatives id) :
    catalog.types.Within model m := by
  cases union : catalog.types.unionMembers? id with
  | none =>
    rw [alternatives_eq_singleton (restorable.noReference id within) union] at mem
    exact List.mem_singleton.1 mem ▸ within
  | some members =>
    rw [alternatives_of_unionMembers? union] at mem
    refine .part within ?_
    rw [TypeTable.partsOf_eq (TypeTable.unionMembers?_eq_some_iff.1 union)]
    exact mem

theorem undefined_notMem (restorable : catalog.Restorable model)
    (within : catalog.types.Within model id) : TypeId.undefined ∉ catalog.alternatives id := by
  intro mem
  exact restorable.noUndefined (restorable.within_alternative within mem)

/-- No part of the model is a reference that leads nowhere. -/
theorem classify_ne_unresolved (restorable : catalog.Restorable model)
    (within : catalog.types.Within model id) (definition : ModelId) :
    catalog.classify id ≠ .unresolved definition := by
  have proper := restorable.noReference id within
  rw [classify, resolve_of_referenced?_eq_none proper]
  exact classOfEntry_ne_unresolved proper definition

theorem shape_ne_unresolved (restorable : catalog.Restorable model) (wf : catalog.WellFormed)
    (within : catalog.types.Within model id) (definition : ModelId) :
    catalog.shape id ≠ .unresolved definition := by
  unfold shape
  cases wf.stripCase id with
  | whole strips kept =>
    rw [strips]
    exact restorable.classify_ne_unresolved within definition
  | only m strips kept =>
    rw [strips]
    have mem : m ∈ catalog.alternatives id := mem_alternatives_of_mem_kept (by simp [kept])
    exact restorable.classify_ne_unresolved (restorable.within_alternative within mem) definition
  | several ms strips kept normal =>
    rw [strips]
    intro broken
    cases broken

/-- The shape of a position of an object or array is the entry of its declared type. -/
theorem shape_eq (restorable : catalog.Restorable model) {depth : Nat}
    (position : catalog.types.Position model depth id)
    (structural : (catalog.shape id).isStructural = true) :
    catalog.shape id = classOfEntry (catalog.types.lookup id) := by
  have proper : ∀ m ∈ catalog.alternatives id, m.isNullish = false := by
    intro m mem
    have notNull : m ≠ TypeId.null := by
      rintro rfl
      exact restorable.noNull depth id position structural mem
    have notUndefined : m ≠ TypeId.undefined := by
      rintro rfl
      exact restorable.undefined_notMem position.within mem
    simp [TypeId.isNullish, notNull, notUndefined]
  rw [shape, strip_eq_single proper]
  simp only [classify,
    resolve_of_referenced?_eq_none (restorable.noReference id position.within)]

end Restorable

end Catalog

/-! ## From a tree to its type -/

namespace TreeNode

mutual

/-- A tree that projects to a type has that type as its value, and adds nothing to the table. -/
theorem Projects.valueType {types table : TypeTable} (wf : types.WellFormed)
    (same : table.entries = types.entries) {node : TreeNode} {type : TypeId} :
    Projects types node type →
      (node.valueType table).1 = type ∧ (node.valueType table).2.entries = types.entries
  | .control _ => ⟨rfl, same⟩
  | .group found parts => by
    obtain ⟨properties_eq, entries_eq⟩ := ProjectsMembers.memberTypes wf same parts
    rw [valueType_group, properties_eq]
    obtain ⟨noted, noted_eq, object_eq⟩ := TypeTable.object_eq _ (memberTypes _ table).2
    have same := noted_eq.trans entries_eq
    rw [object_eq, (wf.of_entries_eq same).intern_eq
      ((TypeTable.GrowsTo.of_entries_eq same).lookup found) nofun]
    exact ⟨rfl, same⟩
  | .array found part => by
    obtain ⟨element_eq, entries_eq⟩ := Projects.valueType wf same part
    rw [valueType_array, element_eq, (wf.of_entries_eq entries_eq).intern_eq
      ((TypeTable.GrowsTo.of_entries_eq entries_eq).lookup found) nofun]
    exact ⟨rfl, entries_eq⟩

theorem ProjectsMembers.memberTypes {types table : TypeTable} (wf : types.WellFormed)
    (same : table.entries = types.entries) {members : List (String × (Bool × TreeNode))}
    {properties : List Property} :
    ProjectsMembers types members properties →
      (TreeNode.memberTypes members table).1 = properties
        ∧ (TreeNode.memberTypes members table).2.entries = types.entries
  | .nil => ⟨rfl, same⟩
  | .cons part others => by
    obtain ⟨type_eq, first_eq⟩ := Projects.valueType wf same part
    obtain ⟨rest_eq, entries_eq⟩ := ProjectsMembers.memberTypes wf first_eq others
    rw [memberTypes_cons, type_eq, rest_eq]
    exact ⟨rfl, entries_eq⟩

end

mutual

theorem Projects.growsTo {types later : TypeTable} (grows : types.GrowsTo later) {node : TreeNode}
    {type : TypeId} : Projects types node type → Projects later node type
  | .control _ => .control _
  | .group found parts => .group (grows.lookup found) (ProjectsMembers.growsTo grows parts)
  | .array found part => .array (grows.lookup found) (Projects.growsTo grows part)

theorem ProjectsMembers.growsTo {types later : TypeTable} (grows : types.GrowsTo later)
    {members : List (String × (Bool × TreeNode))} {properties : List Property} :
    ProjectsMembers types members properties → ProjectsMembers later members properties
  | .nil => .nil
  | .cons part others =>
      .cons (Projects.growsTo grows part) (ProjectsMembers.growsTo grows others)

end

end TreeNode

/-! ## From a type to its tree -/

namespace Expansion

open Catalog

variable {models : Definitions} {base : TypeTable} {model : TypeId}

/-- Expanding as the model declares. -/
abbrev asDeclared (models : Definitions) : Expansion := ⟨models, ⟨.declared, .declared⟩⟩

/-- Nodes that are made at a depth without a hint project to the declared type.  Whether the value
may be `null` matters only where the node is a control. -/
def Restores (models : Definitions) (base : TypeTable) (below : Maker) (depth : Nat) (id : TypeId) :
    Prop :=
  ∀ (path : FieldPath) (nullable : Bool) (state : ExpansionState),
    state.depth.level = depth → state.depth.maxLevel = Limits.modelDepth →
    Over models base state.types →
    (nullable = (alternatives ⟨base, models⟩ id).contains TypeId.null
      ∨ (shape ⟨base, models⟩ id).isStructural = true) →
    ∃ node types, Gives (below path id .unspecified nullable) state node (state.withTypes types)
      ∧ Over models base types ∧ TreeNode.Projects base node id

variable {below : Maker} {depth : Nat} {id : TypeId} {path : FieldPath} {state : ExpansionState}

theorem leave_deeper_withTypes {middle types : TypeTable} :
    { (state.deeper.withTypes middle).withTypes types with
        depth := ((state.deeper.withTypes middle).withTypes types).depth.leave }
      = state.withTypes types := by
  simp [ExpansionState.deeper, ExpansionState.withTypes, Depth.leave]

/-- What is decided about a part of the model is what the model declares. -/
theorem decided_asDeclared (wf : Catalog.WellFormed ⟨base, models⟩)
    (restorable : Restorable ⟨base, models⟩ model) {types : TypeTable}
    (grown : Over models base types) (within : base.Within model id) (optional : Bool) :
    ((asDeclared models).upon types).decided (asDeclared models).mode id optional
      = ⟨(alternatives ⟨base, models⟩ id).contains TypeId.null, optional⟩ := by
  have known := within.knows wf.types restorable.knows
  have absent : (alternatives ⟨base, models⟩ id).contains TypeId.undefined = false := by
    simpa using restorable.undefined_notMem within
  rw [grown.catalog.decided_eq wf known]
  simp only [decided, Mode.decide, ModifierRule.decide, declared, absent, Bool.or_false]

theorem gives_members (wf : Catalog.WellFormed ⟨base, models⟩)
    (restorable : Restorable ⟨base, models⟩ model) {properties : List Property}
    (within : ∀ p ∈ properties, base.Within model p.type)
    (restores : ∀ p ∈ properties, Restores models base below depth p.type)
    (level : state.depth.level = depth) (maxLevel : state.depth.maxLevel = Limits.modelDepth)
    (grown : Over models base state.types) :
    ∃ members types, Gives ((asDeclared models).members below path .unspecified properties) state
        members (state.withTypes types)
      ∧ Over models base types ∧ TreeNode.ProjectsMembers base members properties := by
  induction properties generalizing state with
  | nil => exact ⟨[], state.types, gives_pure_iff.2 ⟨rfl, rfl⟩, grown, .nil⟩
  | cons p rest ih =>
    obtain ⟨withinFirst, withinRest⟩ := List.forall_mem_cons.1 within
    obtain ⟨restoresFirst, restoresRest⟩ := List.forall_mem_cons.1 restores
    have decides := decided_asDeclared wf restorable grown withinFirst p.optional
    obtain ⟨node, middle, made, grownMiddle, projects⟩ :=
      restoresFirst (path.field p.name) _ state level maxLevel grown (Or.inl rfl)
    obtain ⟨members, types, madeRest, overRest, projectsRest⟩ :=
      @ih (state.withTypes middle) withinRest restoresRest level maxLevel grownMiddle
    refine ⟨(p.name, (p.optional, node)) :: members, types, ?_, overRest,
      .cons projects projectsRest⟩
    unfold Expansion.members
    refine gives_bind_iff.2 ⟨_, state, gives_decide_iff.2 ⟨rfl, rfl⟩, ?_⟩
    rw [decides]
    exact gives_bind_iff.2 ⟨node, _, made, gives_bind_iff.2 ⟨members, _, madeRest,
      gives_pure_iff.2 ⟨rfl, rfl⟩⟩⟩

/-- An object stands for no model, so the guard is not asked. -/
theorem namedModel?_eq_none {catalog : Catalog} {properties : List Property}
    (found : catalog.types.lookup id = some (.object properties)) :
    catalog.namedModel? id = none := by
  unfold namedModel? namedModelWithin
  rw [found]

/-- A position is restored if what is planned for it is restored one level further in. -/
theorem restores_of_make (wf : Catalog.WellFormed ⟨base, models⟩)
    (restorable : Restorable ⟨base, models⟩ model) (position : base.Position model depth id)
    {plan : NodePlan} (planned : NodePlan.ofClass? (shape ⟨base, models⟩ id) none = some plan)
    (makes : Restores models base
      (fun path id hint nullable => (asDeclared models).make below path id hint nullable plan)
      (depth + 1) id) :
    Restores models base ((asDeclared models).nodeStep below) depth id := by
  intro path nullable state level maxLevel grown allowed
  have known := position.within.knows wf.types restorable.knows
  have room : state.depth.level < state.depth.maxLevel := by
    rw [level, maxLevel]
    exact restorable.shallow depth id position
  obtain ⟨grownMiddle, _, class_eq⟩ := grown.withoutNullish wf known
  cases strips : Interning.withoutNullish models id state.types with
  | mk stripped middle =>
  rw [strips] at grownMiddle class_eq
  have deeper : (state.deeper.withTypes middle).depth.level = depth + 1 := by
    rw [← level]
    rfl
  obtain ⟨node, types, made, grownTypes, projects⟩ :=
    makes path nullable (state.deeper.withTypes middle) deeper maxLevel grownMiddle allowed
  have strips : Interning.withoutNullish (asDeclared models).models id state.types
      = (stripped, middle) := strips
  refine ⟨node, types, ?_, grownTypes, projects⟩
  refine (gives_nodeStep_iff strips).2 ⟨room, plan, _, ?_, made, ?_⟩
  · rw [← class_eq] at planned
    exact planned
  · exact leave_deeper_withTypes.symm

theorem restores_control (wf : Catalog.WellFormed ⟨base, models⟩)
    (restorable : Restorable ⟨base, models⟩ model) (position : base.Position model depth id)
    (plain : (shape ⟨base, models⟩ id).isStructural = false) :
    Restores models base ((asDeclared models).nodeStep below) depth id := by
  have within := position.within
  have known := within.knows wf.types restorable.knows
  have planned : NodePlan.ofClass? (shape ⟨base, models⟩ id) none = some .control := by
    have sound := restorable.shape_ne_unresolved wf within
    generalize shape ⟨base, models⟩ id = type at plain sound
    cases type with
    | primitive | atomic | literal | union => rfl
    | object | array => cases plain
    | unresolved definition => exact absurd rfl (sound definition)
  refine restores_of_make wf restorable position planned ?_
  intro path nullable state _ _ grown allowed
  have declared : nullable = (alternatives ⟨base, models⟩ id).contains TypeId.null := by
    rcases allowed with declared | structural
    · exact declared
    · rw [plain] at structural
      cases structural
  obtain ⟨grownTypes, typed⟩ := grown.controlType known nullable
  cases made : Interning.controlType models id nullable state.types with
  | mk value types =>
  rw [made] at grownTypes typed
  have same : value = id := by
    rw [declared, ← grownTypes.catalog.alternatives_eq wf known] at typed
    refine typed.eq_declared grownTypes.wellFormed ?_ ?_
    · exact (grownTypes.grows.referenced?_eq known).trans (restorable.noReference id within)
    · rw [grownTypes.catalog.alternatives_eq wf known]
      exact restorable.undefined_notMem within
  refine ⟨.control id, types, ?_, grownTypes, .control id⟩
  refine gives_intern_bind_iff.2 ?_
  rw [made, same]
  exact gives_pure_iff.2 ⟨rfl, rfl⟩

theorem restores_group (wf : Catalog.WellFormed ⟨base, models⟩)
    (restorable : Restorable ⟨base, models⟩ model) (position : base.Position model depth id)
    {properties : List Property} (shape_eq : shape ⟨base, models⟩ id = .object properties)
    (next : ∀ part, base.Position model (depth + 1) part →
      Restores models base below (depth + 1) part) :
    Restores models base ((asDeclared models).nodeStep below) depth id := by
  have found : base.lookup id = some (.object properties) := by
    rw [restorable.shape_eq position (by rw [shape_eq]; rfl)] at shape_eq
    exact classOfEntry_eq_object_iff.1 shape_eq
  have positions : ∀ p ∈ properties, base.Position model (depth + 1) p.type := by
    intro p mem
    exact .property position found mem
  refine restores_of_make wf restorable position (by rw [shape_eq]; rfl) ?_
  intro path nullable state level maxLevel grown _
  obtain ⟨members, types, made, grownTypes, projects⟩ := gives_members wf restorable
    (fun p mem => (positions p mem).within) (fun p mem => next p.type (positions p mem)) level
    maxLevel grown
  have collected : Entries.collect members = members := by
    refine Entries.collect_eq_self ?_
    rw [← projects.names_eq]
    exact restorable.distinctNames id properties position.within found
  refine ⟨.group members, types, ?_, grownTypes, .group found projects⟩
  refine gives_withinModel_iff.2 ?_
  rw [namedModel?_eq_none (grown.grows.lookup found)]
  refine gives_bind_iff.2 ⟨members, _, made, gives_pure_iff.2 ⟨?_, rfl⟩⟩
  rw [collected]

theorem restores_array (wf : Catalog.WellFormed ⟨base, models⟩)
    (restorable : Restorable ⟨base, models⟩ model) (position : base.Position model depth id)
    {element : TypeId} (shape_eq : shape ⟨base, models⟩ id = .array element)
    (next : ∀ part, base.Position model (depth + 1) part →
      Restores models base below (depth + 1) part) :
    Restores models base ((asDeclared models).nodeStep below) depth id := by
  have found : base.lookup id = some (.array element) := by
    rw [restorable.shape_eq position (by rw [shape_eq]; rfl)] at shape_eq
    exact classOfEntry_eq_array_iff.1 shape_eq
  have position' : base.Position model (depth + 1) element := .element position found
  refine restores_of_make wf restorable position (by rw [shape_eq]; rfl) ?_
  intro path nullable state level maxLevel grown _
  have decides := decided_asDeclared wf restorable grown position'.within false
  obtain ⟨node, types, made, grownTypes, projects⟩ :=
    next element position' path.element _ state level maxLevel grown (Or.inl rfl)
  refine ⟨.array node, types, ?_, grownTypes, .array found projects⟩
  refine gives_bind_iff.2 ⟨_, state, gives_decide_iff.2 ⟨rfl, rfl⟩, ?_⟩
  rw [decides]
  exact gives_bind_iff.2 ⟨node, _, made, gives_pure_iff.2 ⟨rfl, rfl⟩⟩

/-- The nodes of all positions are restored, where there is a level for each depth. -/
theorem restores_node (wf : Catalog.WellFormed ⟨base, models⟩)
    (restorable : Restorable ⟨base, models⟩ model) (levels : Nat)
    (position : base.Position model depth id) (enough : depth + levels = Limits.modelDepth) :
    Restores models base ((asDeclared models).node levels) depth id := by
  induction levels generalizing depth id with
  | zero =>
    have := restorable.shallow depth id position
    omega
  | succ levels ih =>
    have next (part : TypeId) (position : base.Position model (depth + 1) part) :
        Restores models base ((asDeclared models).node levels) (depth + 1) part :=
      ih position (by omega)
    cases shape_eq : shape ⟨base, models⟩ id with
    | object properties => exact restores_group wf restorable position shape_eq next
    | array element => exact restores_array wf restorable position shape_eq next
    | primitive | atomic | literal | union | unresolved =>
      exact restores_control wf restorable position (by rw [shape_eq]; rfl)

end Expansion

/-! ## Derived forms -/

namespace DerivedForm

/-- In the mode that keeps to what is declared, and without hints, there is a form over every model
that a form can hold in full, and the type of its value is the model. -/
theorem valueType_eq_model {models : Definitions} {model : TypeId} {types : TypeTable}
    (wf : Catalog.WellFormed ⟨types, models⟩)
    (restorable : Catalog.Restorable ⟨types, models⟩ model) :
    ∃ tree after,
      derive models ⟨.declared, .declared⟩ .unspecified model types = (.ok tree, after)
        ∧ after.WellFormed
        ∧ ∀ later, after.GrowsTo later → later.WellFormed →
          (tree.valueType later).1 = model := by
  obtain ⟨properties, found⟩ := restorable.object
  have object : Catalog.classify ⟨types, models⟩ model = .object properties :=
    Catalog.classify_of_lookup found (restorable.noReference model .root)
  have structural : (Catalog.shape ⟨types, models⟩ model).isStructural = true := by
    rw [Catalog.shape_eq_of_classify_eq_object object]
    rfl
  obtain ⟨root, after, gives, grown, projects⟩ :=
    Expansion.restores_node wf restorable Limits.modelDepth .root (Nat.zero_add _) .root false
      (.start types) rfl rfl ⟨wf, .refl types⟩ (Or.inr structural)
  have rootOk : checkRoot ⟨types, models⟩ .unspecified model = .ok () :=
    checkRoot_eq_ok_iff.2 ⟨nofun, nofun, properties, object⟩
  refine ⟨⟨root, ⟨.declared, .declared⟩, model⟩, after, ?_, grown.wellFormed.types, ?_⟩
  · exact (derive_eq_ok_iff_gives rootOk).2 ⟨rfl, rfl, _, gives, rfl⟩
  · intro later grows wfLater
    exact ((projects.growsTo (grown.grows.trans grows)).valueType wfLater rfl).1

/-- A customer has a name that may be `null`, possibly tags that may be `null`, and a home. -/
def customer : Catalog where
  types.entries := [.union [TypeId.null, .ofIntrinsic .string], .array ⟨100⟩,
    .object [⟨"street", .ofIntrinsic .string, false⟩],
    .object [⟨"name", ⟨100⟩, false⟩, ⟨"tags", ⟨101⟩, true⟩, ⟨"home", ⟨102⟩, false⟩]]
  types.names := .builtin
  models := .empty

/-- The types within a customer. -/
def customerParts : List TypeId :=
  [⟨103⟩, ⟨102⟩, ⟨101⟩, ⟨100⟩, .ofIntrinsic .string, TypeId.null]

theorem restorable_customer : customer.Restorable ⟨103⟩ := by
  have known : customer.types.Knows ⟨103⟩ := by decide
  have among {id : TypeId} (within : customer.types.Within ⟨103⟩ id) : id ∈ customerParts :=
    within.mem_of_closed (by decide) (by decide)
  constructor
  case object => exact ⟨_, rfl⟩
  case noReference =>
    intro id within
    have none : ∀ id ∈ customerParts, customer.types.referenced? id = none := by decide
    exact none id (among within)
  case distinctNames =>
    intro id properties _ found
    have distinct : customer.types.DistinctNames := by decide
    exact distinct properties (TypeTable.mem_entries_of_lookup found nofun)
  case noUndefined => exact fun within => absurd (among within) (by decide)
  case noNull =>
    intro depth id position
    have proper : ∀ id ∈ customerParts, (customer.shape id).isStructural = true →
        TypeId.null ∉ customer.alternatives id := by decide
    exact proper id (among position.within)
  case shallow =>
    intro depth id position
    have deepest : depth ≤ 4 := position.depth_le (by decide) known
    exact Nat.lt_of_le_of_lt deepest (by decide)

theorem valueType_eq_model_customer :
    customer.Restorable ⟨103⟩ ∧ ∃ tree after,
      derive customer.models ⟨.declared, .declared⟩ .unspecified ⟨103⟩ customer.types
          = (.ok tree, after)
        ∧ (tree.valueType after).1 = ⟨103⟩ := by
  obtain ⟨tree, after, derives, wf, restored⟩ :=
    valueType_eq_model (by decide) restorable_customer
  exact ⟨restorable_customer, tree, after, derives, restored after (.refl after) wf⟩

end DerivedForm

end ModelForms
