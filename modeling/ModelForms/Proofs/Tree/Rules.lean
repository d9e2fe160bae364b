import ModelForms.Proofs.Entries
import ModelForms.Proofs.Types.Stripping
import ModelForms.Tree.Expansion

/-!
# The rules of expansion

`Expansion.Expands` is what an expansion comes to when nothing bounds it: there is no guard and no
counter, and a position has a node exactly if there is a finite derivation of it.  The table is
passed from position to position in the order in which they are expanded.  The rules also count the
groups whose declared type names a model.  All of it is determined by the type and the hint
(`Expands.unique`).

`Catalog.Yields` forgets the table.  It says of one catalog which node a declared type comes to, by
the shape of the type and by the type of a control's value.  What is expanded is yielded by every
later catalog (`Expands.settles`), so what is proved of `Yields` needs no table that changes.
-/

namespace ModelForms

/-! ## Plans -/

/-- What a position becomes, by what its type is and the kind of node that its hint asks for. -/
def NodePlan.ofClass? : Catalog.TypeClass → Option NodeKind → Option NodePlan
  | _, some .control => some .control
  | .unresolved _, _ => none
  | .atomic _, _ => some .control
  | .array element, none | .array element, some .array => some (.array element)
  | .object properties, none | .object properties, some .group => some (.group properties)
  | _, some _ => none
  | _, none => some .control

theorem Catalog.plan_eq_ok_iff {catalog : Catalog} {stripped : TypeId} {hint : Hint}
    {path : FieldPath} {plan : NodePlan} :
    catalog.plan stripped hint path = .ok plan
      ↔ NodePlan.ofClass? (catalog.classify stripped) hint.kind? = some plan := by
  unfold Catalog.plan
  cases hint.kind? with
  | none => cases catalog.classify stripped <;> simp [NodePlan.ofClass?]
  | some kind =>
    cases kind with
    | control => cases catalog.classify stripped <;> simp [NodePlan.ofClass?]
    | group => cases catalog.classify stripped <;> simp [NodePlan.ofClass?]
    | array => cases catalog.classify stripped <;> simp [NodePlan.ofClass?]

namespace NodePlan

variable {type : Catalog.TypeClass} {kind : Option NodeKind}

theorem eq_object_of_ofClass? {properties : List Property}
    (h : ofClass? type kind = some (.group properties)) : type = .object properties := by
  unfold ofClass? at h
  split at h <;> simp_all

theorem eq_array_of_ofClass? {element : TypeId} (h : ofClass? type kind = some (.array element)) :
    type = .array element := by
  unfold ofClass? at h
  split at h <;> simp_all

theorem ofClass?_control (type : Catalog.TypeClass) :
    ofClass? type (some .control) = some .control := by
  cases type <;> rfl

end NodePlan

/-! ## Expanding -/

/-- The decisions of a mode about a property of a type. -/
def Catalog.decided (catalog : Catalog) (mode : Mode) (type : TypeId) (optional : Bool) :
    Decided :=
  mode.decide (catalog.declared type optional)

namespace Expansion

/-- The models of an expansion over some types. -/
abbrev upon (expansion : Expansion) (types : TypeTable) : Catalog := ⟨types, expansion.models⟩

/-- The number of models, none or one, that a group over a declared type stands for. -/
def namedCount (catalog : Catalog) (declared : TypeId) : Nat :=
  if (catalog.namedModel? declared).isSome then 1 else 0

mutual

/-- A declared type expands to a node under a hint.  The last arguments are the node, the number of
groups in it that stand for a model, and the table that is left. -/
inductive Expands (expansion : Expansion) :
    TypeTable → TypeId → Hint → Bool → TreeNode → Nat → TypeTable → Prop
  | control {types middle after : TypeTable} {declared stripped value : TypeId} {hint : Hint}
      {nullable : Bool}
      (strips : Interning.withoutNullish expansion.models declared types = (stripped, middle))
      (plan : NodePlan.ofClass? ((expansion.upon middle).classify stripped) hint.kind?
        = some .control)
      (typed : Interning.controlType expansion.models declared nullable middle = (value, after)) :
      Expands expansion types declared hint nullable (.control value) 0 after
  /-- A hint may only speak of fields that the group has. -/
  | group {types middle after : TypeTable} {declared stripped : TypeId} {hint : Hint}
      {nullable : Bool} {properties : List Property} {members : List (String × (Bool × TreeNode))}
      {named : Nat}
      (strips : Interning.withoutNullish expansion.models declared types = (stripped, middle))
      (plan : NodePlan.ofClass? ((expansion.upon middle).classify stripped) hint.kind?
        = some (.group properties))
      (fields : strangeField? properties hint = none)
      (below : ExpandsMembers expansion middle hint properties members named after) :
      Expands expansion types declared hint nullable (.group (Entries.collect members))
        (namedCount (expansion.upon middle) declared + named) after
  /-- An element is never absent. -/
  | array {types middle after : TypeTable} {declared stripped element : TypeId} {hint : Hint}
      {nullable : Bool} {node : TreeNode} {named : Nat}
      (strips : Interning.withoutNullish expansion.models declared types = (stripped, middle))
      (plan : NodePlan.ofClass? ((expansion.upon middle).classify stripped) hint.kind?
        = some (.array element))
      (below : Expands expansion middle element hint.element
        ((expansion.upon middle).decided expansion.mode element false).nullable node named after) :
      Expands expansion types declared hint nullable (.array node) named after

/-- The properties of an object expand to the members of a group, one after the other. -/
inductive ExpandsMembers (expansion : Expansion) :
    TypeTable → Hint → List Property → List (String × (Bool × TreeNode)) → Nat → TypeTable → Prop
  | nil {types : TypeTable} {hint : Hint} : ExpandsMembers expansion types hint [] [] 0 types
  | cons {types middle after : TypeTable} {hint : Hint} {p : Property} {rest : List Property}
      {node : TreeNode} {members : List (String × (Bool × TreeNode))} {first others : Nat}
      {decided : Decided}
      (decides : (expansion.upon types).decided expansion.mode p.type p.optional = decided)
      (head : Expands expansion types p.type (hint.field p.name) decided.nullable node first middle)
      (tail : ExpandsMembers expansion middle hint rest members others after) :
      ExpandsMembers expansion types hint (p :: rest)
        ((p.name, (decided.optional, node)) :: members) (first + others) after

end

variable {expansion : Expansion}

/-- The members have the names of the properties. -/
theorem ExpandsMembers.keys_eq {types after : TypeTable} {hint : Hint} {properties : List Property}
    {members : List (String × (Bool × TreeNode))} {named : Nat} :
    expansion.ExpandsMembers types hint properties members named after →
      Entries.keys members = properties.map Property.name
  | .nil => rfl
  | .cons _ _ tail => congrArg (_ :: ·) tail.keys_eq

/-! ## What a type expands to is determined -/

mutual

theorem Expands.unique {types after after' : TypeTable} {declared : TypeId} {hint : Hint}
    {nullable : Bool} {node node' : TreeNode} {named named' : Nat} :
    expansion.Expands types declared hint nullable node named after →
      expansion.Expands types declared hint nullable node' named' after' →
        node = node' ∧ named = named' ∧ after = after'
  | .control strips plan typed => fun h => by
    cases h with
    | control strips' plan' typed' =>
      cases strips.symm.trans strips'
      cases typed.symm.trans typed'
      exact ⟨rfl, rfl, rfl⟩
    | group strips' plan' | array strips' plan' =>
      cases strips.symm.trans strips'
      cases plan.symm.trans plan'
  | .group strips plan _ below => fun h => by
    cases h with
    | group strips' plan' _ below' =>
      cases strips.symm.trans strips'
      cases plan.symm.trans plan'
      obtain ⟨rfl, rfl, rfl⟩ := ExpandsMembers.unique below below'
      exact ⟨rfl, rfl, rfl⟩
    | control strips' plan' | array strips' plan' =>
      cases strips.symm.trans strips'
      cases plan.symm.trans plan'
  | .array strips plan below => fun h => by
    cases h with
    | array strips' plan' below' =>
      cases strips.symm.trans strips'
      cases plan.symm.trans plan'
      obtain ⟨rfl, rfl, rfl⟩ := Expands.unique below below'
      exact ⟨rfl, rfl, rfl⟩
    | control strips' plan' | group strips' plan' =>
      cases strips.symm.trans strips'
      cases plan.symm.trans plan'

theorem ExpandsMembers.unique {types after after' : TypeTable} {hint : Hint}
    {properties : List Property} {members members' : List (String × (Bool × TreeNode))}
    {named named' : Nat} :
    expansion.ExpandsMembers types hint properties members named after →
      expansion.ExpandsMembers types hint properties members' named' after' →
        members = members' ∧ named = named' ∧ after = after'
  | .nil => fun h => by
    cases h
    exact ⟨rfl, rfl, rfl⟩
  | .cons decides head tail => fun h => by
    cases h with
    | cons decides' head' tail' =>
      cases decides.symm.trans decides'
      obtain ⟨rfl, rfl, rfl⟩ := Expands.unique head head'
      obtain ⟨rfl, rfl, rfl⟩ := ExpandsMembers.unique tail tail'
      exact ⟨rfl, rfl, rfl⟩

end

end Expansion

/-! ## Without the table -/

namespace Catalog

mutual

/-- A declared type comes to a node under a hint. -/
inductive Yields (catalog : Catalog) (mode : Mode) : TypeId → Hint → Bool → TreeNode → Prop
  | control {declared value : TypeId} {hint : Hint} {nullable : Bool}
      (plan : NodePlan.ofClass? (catalog.shape declared) hint.kind? = some .control)
      (typed : catalog.ControlTypeOf declared nullable value) :
      Yields catalog mode declared hint nullable (.control value)
  | group {declared : TypeId} {hint : Hint} {nullable : Bool} {properties : List Property}
      {members : List (String × (Bool × TreeNode))}
      (shape : catalog.shape declared = .object properties)
      (below : YieldsMembers catalog mode hint properties members) :
      Yields catalog mode declared hint nullable (.group (Entries.collect members))
  | array {declared element : TypeId} {hint : Hint} {nullable : Bool} {node : TreeNode}
      (shape : catalog.shape declared = .array element)
      (below : Yields catalog mode element hint.element
        (catalog.decided mode element false).nullable node) :
      Yields catalog mode declared hint nullable (.array node)

/-- The properties of an object come to the members of a group. -/
inductive YieldsMembers (catalog : Catalog) (mode : Mode) :
    Hint → List Property → List (String × (Bool × TreeNode)) → Prop
  | nil {hint : Hint} : YieldsMembers catalog mode hint [] []
  | cons {hint : Hint} {p : Property} {rest : List Property} {node : TreeNode}
      {members : List (String × (Bool × TreeNode))} {decided : Decided}
      (decides : catalog.decided mode p.type p.optional = decided)
      (head : Yields catalog mode p.type (hint.field p.name) decided.nullable node)
      (tail : YieldsMembers catalog mode hint rest members) :
      YieldsMembers catalog mode hint (p :: rest)
        ((p.name, (decided.optional, node)) :: members)

end

/-- The members have the names of the properties. -/
theorem YieldsMembers.keys_eq {catalog : Catalog} {mode : Mode} {hint : Hint}
    {properties : List Property} {members : List (String × (Bool × TreeNode))} :
    catalog.YieldsMembers mode hint properties members →
      Entries.keys members = properties.map Property.name
  | .nil => rfl
  | .cons _ _ tail => congrArg (_ :: ·) tail.keys_eq

theorem YieldsMembers.collect_eq {catalog : Catalog} {mode : Mode} {hint : Hint}
    {properties : List Property} {members : List (String × (Bool × TreeNode))}
    (h : catalog.YieldsMembers mode hint properties members)
    (distinct : (properties.map Property.name).Nodup) : Entries.collect members = members :=
  Entries.collect_eq_self (h.keys_eq ▸ distinct)

theorem GrowsTo.decided_eq {earlier later : Catalog} (grows : earlier.GrowsTo later)
    (wf : earlier.WellFormed) {type : TypeId} (known : earlier.types.Knows type) (mode : Mode)
    (optional : Bool) : later.decided mode type optional = earlier.decided mode type optional := by
  unfold decided
  rw [grows.declared_eq wf known]

end Catalog

namespace Expansion

/-- What an expansion leaves is a well-formed catalog with nothing but unions added, and every later
catalog has a property. -/
structure Settles (expansion : Expansion) (types after : TypeTable) (holds : Catalog → Prop) :
    Prop where
  wellFormed : (expansion.upon after).WellFormed
  adds : types.AddsUnions after
  holds : ∀ later, (expansion.upon after).GrowsTo later → holds later

variable {expansion : Expansion}

theorem Settles.grows {types after : TypeTable} {holds : Catalog → Prop}
    (settled : expansion.Settles types after holds) :
    (expansion.upon types).GrowsTo (expansion.upon after) :=
  .of_types settled.adds.growsTo expansion.models

/-- What is known of a declared type once `null` and `undefined` are set aside. -/
theorem stripped_spec {types middle : TypeTable} {declared stripped : TypeId}
    (strips : Interning.withoutNullish expansion.models declared types = (stripped, middle))
    (wf : (expansion.upon types).WellFormed) (known : types.Knows declared) :
    (expansion.upon middle).WellFormed ∧ types.AddsUnions middle
      ∧ (expansion.upon middle).classify stripped = (expansion.upon middle).shape declared := by
  obtain ⟨made, strippedTo⟩ := Catalog.withoutNullish_spec wf known
  rw [strips] at made strippedTo
  have wf' := wf.of_types made.adds.growsTo made.wellFormed
  exact ⟨wf', made.adds, Catalog.classify_of_strippedTo wf' strippedTo⟩

mutual

/-- What a declared type expands to, it comes to in every later catalog. -/
theorem Expands.settles {types after : TypeTable} {declared : TypeId} {hint : Hint}
    {nullable : Bool} {node : TreeNode} {named : Nat} (wf : (expansion.upon types).WellFormed)
    (known : types.Knows declared) :
    expansion.Expands types declared hint nullable node named after →
      expansion.Settles types after fun later =>
        later.Yields expansion.mode declared hint nullable node
  | .control strips plan typed => by
    obtain ⟨wf', adds, class_eq⟩ := stripped_spec strips wf known
    have known' := adds.growsTo.knows known
    obtain ⟨made, controlType⟩ := Catalog.controlType_spec wf' known' nullable
    rw [typed] at made controlType
    have wf'' := wf'.of_types made.adds.growsTo made.wellFormed
    have known'' := made.adds.growsTo.knows known'
    have toAfter := Catalog.GrowsTo.of_types made.adds.growsTo expansion.models
    refine ⟨wf'', adds.trans made.adds, fun later grows => .control ?_ ?_⟩
    · rw [(toAfter.trans grows).shape_eq wf' known', ← class_eq]
      exact plan
    · exact controlType.growsTo grows wf'' known''
  | .group strips plan _ below => by
    obtain ⟨wf', adds, class_eq⟩ := stripped_spec strips wf known
    have known' := adds.growsTo.knows known
    have shape := class_eq.symm.trans (NodePlan.eq_object_of_ofClass? plan)
    have settled := ExpandsMembers.settles wf' (fun p hp => wf'.knows_property shape hp) below
    exact ⟨settled.wellFormed, adds.trans settled.adds, fun later grows =>
      .group (((settled.grows.trans grows).shape_eq wf' known').trans shape) (settled.holds later grows)⟩
  | .array strips plan below => by
    obtain ⟨wf', adds, class_eq⟩ := stripped_spec strips wf known
    have known' := adds.growsTo.knows known
    have shape := class_eq.symm.trans (NodePlan.eq_array_of_ofClass? plan)
    have knownElement := wf'.knows_element shape
    have settled := Expands.settles wf' knownElement below
    refine ⟨settled.wellFormed, adds.trans settled.adds, fun later grows =>
      .array (((settled.grows.trans grows).shape_eq wf' known').trans shape) ?_⟩
    rw [(settled.grows.trans grows).decided_eq wf' knownElement]
    exact settled.holds later grows

theorem ExpandsMembers.settles {types after : TypeTable} {hint : Hint}
    {properties : List Property} {members : List (String × (Bool × TreeNode))} {named : Nat}
    (wf : (expansion.upon types).WellFormed) (known : ∀ p ∈ properties, types.Knows p.type) :
    expansion.ExpandsMembers types hint properties members named after →
      expansion.Settles types after fun later =>
        later.YieldsMembers expansion.mode hint properties members
  | .nil => ⟨wf, .refl types, fun _ _ => .nil⟩
  | .cons decides head tail => by
    have knownFirst := known _ List.mem_cons_self
    have first := Expands.settles wf knownFirst head
    have others := ExpandsMembers.settles first.wellFormed (fun p hp =>
      first.adds.growsTo.knows (known p (List.mem_cons_of_mem _ hp))) tail
    refine ⟨others.wellFormed, first.adds.trans others.adds, fun later grows =>
      .cons ?_ (first.holds later (others.grows.trans grows)) (others.holds later grows)⟩
    rw [(first.grows.trans (others.grows.trans grows)).decided_eq wf knownFirst]
    exact decides

end

end Expansion

end ModelForms
