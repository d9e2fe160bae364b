import ModelForms.Proofs.Tree.Rules

/-!
# Expansions by plan

`Catalog.Plans` says which tree a declared type comes to under a hint, and leaves open which types
the controls of the tree have.  It follows the plans, position by position, and reads one catalog
only.  So it is the part of an expansion that the table has no share in.

What is expanded is planned (`Expansion.Expands.plans`).  What is planned is expanded in every
later table, up to the types of the controls (`Catalog.Plans.expands`): setting `null` and
`undefined` aside and typing a control never fail.  Two trees that differ in nothing else have the
same outline.
-/

namespace ModelForms

/-! ## Outlines -/

namespace Entries

variable {α β : Type}

theorem put_map (f : String → α → β) (key : String) (value : α) (entries : Entries α) :
    put key (f key value) (entries.map fun e => (e.1, f e.1 e.2))
      = (put key value entries).map fun e => (e.1, f e.1 e.2) := by
  induction entries with
  | nil => rfl
  | cons e rest ih =>
    obtain ⟨k, v⟩ := e
    simp only [List.map_cons, put]
    split
    next => rfl
    next => rw [List.map_cons, ih]

theorem collect_map (f : String → α → β) (pairs : List (String × α)) :
    collect (pairs.map fun e => (e.1, f e.1 e.2))
      = (collect pairs).map fun e => (e.1, f e.1 e.2) := by
  have aux (start : Entries α) :
      (pairs.map fun e => (e.1, f e.1 e.2)).foldl (fun entries p => put p.1 p.2 entries)
          (start.map fun e => (e.1, f e.1 e.2))
        = (pairs.foldl (fun entries p => put p.1 p.2 entries) start).map
          fun e => (e.1, f e.1 e.2) := by
    induction pairs generalizing start with
    | nil => rfl
    | cons p rest ih => simp only [List.map_cons, List.foldl_cons, put_map, ih]
  exact aux []

end Entries

namespace TreeNode

mutual

/-- A tree without the types of its controls' values. -/
def outline : TreeNode → TreeNode
  | .control _ => .control TypeId.unknown
  | .group members => .group (outlineMembers members)
  | .array element => .array (outline element)
termination_by structural node => node

/-- The members of a group, each without the types of its controls' values. -/
def outlineMembers : List (String × (Bool × TreeNode)) → List (String × (Bool × TreeNode))
  | [] => []
  | (name, (optional, node)) :: rest => (name, (optional, outline node)) :: outlineMembers rest
termination_by structural members => members

end

theorem outlineMembers_eq_map (members : List (String × (Bool × TreeNode))) :
    outlineMembers members = members.map fun m => (m.1, (m.2.1, m.2.2.outline)) := by
  induction members with
  | nil => rfl
  | cons first rest ih =>
    obtain ⟨name, optional, node⟩ := first
    rw [outlineMembers, ih, List.map_cons]

theorem outlineMembers_collect (members : List (String × (Bool × TreeNode))) :
    outlineMembers (Entries.collect members) = Entries.collect (outlineMembers members) := by
  rw [outlineMembers_eq_map, outlineMembers_eq_map]
  exact (Entries.collect_map (fun _ (m : Bool × TreeNode) => (m.1, m.2.outline)) members).symm

end TreeNode

/-! ## Plans -/

namespace Catalog

mutual

/-- A declared type comes to a node under a hint, whatever the types of its controls are. -/
inductive Plans (catalog : Catalog) (mode : Mode) : TypeId → Hint → TreeNode → Prop
  | control {declared value : TypeId} {hint : Hint}
      (plan : NodePlan.ofClass? (catalog.shape declared) hint.kind? = some .control) :
      Plans catalog mode declared hint (.control value)
  /-- A hint may only speak of fields that the group has. -/
  | group {declared : TypeId} {hint : Hint} {properties : List Property}
      {members : List (String × (Bool × TreeNode))}
      (plan : NodePlan.ofClass? (catalog.shape declared) hint.kind? = some (.group properties))
      (fields : Expansion.strangeField? properties hint = none)
      (below : PlansMembers catalog mode hint properties members) :
      Plans catalog mode declared hint (.group (Entries.collect members))
  | array {declared element : TypeId} {hint : Hint} {node : TreeNode}
      (plan : NodePlan.ofClass? (catalog.shape declared) hint.kind? = some (.array element))
      (below : Plans catalog mode element hint.element node) :
      Plans catalog mode declared hint (.array node)

/-- The properties of an object come to the members of a group. -/
inductive PlansMembers (catalog : Catalog) (mode : Mode) :
    Hint → List Property → List (String × (Bool × TreeNode)) → Prop
  | nil {hint : Hint} : PlansMembers catalog mode hint [] []
  | cons {hint : Hint} {p : Property} {rest : List Property} {optional : Bool} {node : TreeNode}
      {members : List (String × (Bool × TreeNode))}
      (decides : (catalog.decided mode p.type p.optional).optional = optional)
      (head : Plans catalog mode p.type (hint.field p.name) node)
      (tail : PlansMembers catalog mode hint rest members) :
      PlansMembers catalog mode hint (p :: rest) ((p.name, (optional, node)) :: members)

end

/-- The members have the names of the properties. -/
theorem PlansMembers.keys_eq {catalog : Catalog} {mode : Mode} {hint : Hint}
    {properties : List Property} {members : List (String × (Bool × TreeNode))} :
    catalog.PlansMembers mode hint properties members →
      Entries.keys members = properties.map Property.name
  | .nil => rfl
  | .cons _ _ tail => congrArg (_ :: ·) tail.keys_eq

end Catalog

namespace Expansion

variable {expansion : Expansion}

/-- What is left of a declared type in a later table is what its shape was before. -/
theorem over_of_strips {base types middle : TypeTable} {declared stripped : TypeId}
    (wf : (expansion.upon base).WellFormed) (grown : Catalog.Over expansion.models base types)
    (known : base.Knows declared)
    (strips : Interning.withoutNullish expansion.models declared types = (stripped, middle)) :
    Catalog.Over expansion.models base middle
      ∧ (expansion.upon middle).classify stripped = (expansion.upon base).shape declared := by
  obtain ⟨grownMiddle, _, class_eq⟩ := grown.withoutNullish wf known
  rw [strips] at grownMiddle class_eq
  exact ⟨grownMiddle, class_eq⟩

mutual

/-- What a declared type expands to in a later table was planned before. -/
theorem Expands.plans {types later after : TypeTable} {declared : TypeId} {hint : Hint}
    {nullable : Bool} {node : TreeNode} {named : Nat} (wf : (expansion.upon types).WellFormed)
    (wf' : (expansion.upon later).WellFormed) (grows : types.GrowsTo later)
    (known : types.Knows declared) :
    expansion.Expands later declared hint nullable node named after →
      (expansion.upon types).Plans expansion.mode declared hint node
  | .control strips plan typed => by
    obtain ⟨_, class_eq⟩ := over_of_strips wf ⟨wf', grows⟩ known strips
    rw [class_eq] at plan
    exact .control plan
  | .group strips plan fields below => by
    obtain ⟨⟨wfMiddle, toMiddle⟩, class_eq⟩ := over_of_strips wf ⟨wf', grows⟩ known strips
    rw [class_eq] at plan
    have shape := NodePlan.eq_object_of_ofClass? plan
    exact .group plan fields
      (below.plans wf wfMiddle toMiddle fun p hp => wf.knows_property shape hp)
  | .array strips plan below => by
    obtain ⟨⟨wfMiddle, toMiddle⟩, class_eq⟩ := over_of_strips wf ⟨wf', grows⟩ known strips
    rw [class_eq] at plan
    have shape := NodePlan.eq_array_of_ofClass? plan
    exact .array plan (below.plans wf wfMiddle toMiddle (wf.knows_element shape))

theorem ExpandsMembers.plans {types later after : TypeTable} {hint : Hint}
    {properties : List Property} {members : List (String × (Bool × TreeNode))} {named : Nat}
    (wf : (expansion.upon types).WellFormed) (wf' : (expansion.upon later).WellFormed)
    (grows : types.GrowsTo later) (known : ∀ p ∈ properties, types.Knows p.type) :
    expansion.ExpandsMembers later hint properties members named after →
      (expansion.upon types).PlansMembers expansion.mode hint properties members
  | .nil => .nil
  | .cons decides head tail => by
    have knownFirst := known _ List.mem_cons_self
    have settled := head.settles wf' (grows.knows knownFirst)
    have toNext := grows.trans settled.adds.growsTo
    rw [(Catalog.GrowsTo.of_types grows expansion.models).decided_eq wf knownFirst] at decides
    exact .cons (congrArg Decided.optional decides) (head.plans wf wf' grows knownFirst)
      (tail.plans wf settled.wellFormed toNext fun p hp => known p (List.mem_cons_of_mem _ hp))

end

end Expansion

namespace Catalog

open Expansion

variable {expansion : Expansion}

mutual

/-- What is planned for a declared type, it expands to in every later table, up to the types of the
controls. -/
theorem Plans.expands {types : TypeTable} {declared : TypeId} {hint : Hint} {node : TreeNode}
    (wf : (expansion.upon types).WellFormed) (known : types.Knows declared) :
    (expansion.upon types).Plans expansion.mode declared hint node →
      ∀ (later : TypeTable) (nullable : Bool), (expansion.upon later).WellFormed →
        types.GrowsTo later → ∃ node' named after,
          expansion.Expands later declared hint nullable node' named after
            ∧ node'.outline = node.outline
  | .control plan => fun later nullable wf' grows => by
    cases strips : Interning.withoutNullish expansion.models declared later with
    | mk stripped middle =>
    obtain ⟨_, class_eq⟩ := over_of_strips wf ⟨wf', grows⟩ known strips
    rw [← class_eq] at plan
    exact ⟨_, _, _, .control strips plan rfl, rfl⟩
  | .group plan fields below => fun later nullable wf' grows => by
    have shape := NodePlan.eq_object_of_ofClass? plan
    cases strips : Interning.withoutNullish expansion.models declared later with
    | mk stripped middle =>
    obtain ⟨⟨wfMiddle, toMiddle⟩, class_eq⟩ := over_of_strips wf ⟨wf', grows⟩ known strips
    rw [← class_eq] at plan
    obtain ⟨members', named, after, expands, same⟩ :=
      below.expands wf (fun p hp => wf.knows_property shape hp) middle wfMiddle toMiddle
    refine ⟨_, _, _, .group strips plan fields expands, ?_⟩
    rw [TreeNode.outline, TreeNode.outline, TreeNode.outlineMembers_collect, same,
      TreeNode.outlineMembers_collect]
  | .array plan below => fun later nullable wf' grows => by
    have shape := NodePlan.eq_array_of_ofClass? plan
    cases strips : Interning.withoutNullish expansion.models declared later with
    | mk stripped middle =>
    obtain ⟨⟨wfMiddle, toMiddle⟩, class_eq⟩ := over_of_strips wf ⟨wf', grows⟩ known strips
    rw [← class_eq] at plan
    obtain ⟨node', named, after, expands, same⟩ :=
      below.expands wf (wf.knows_element shape) middle _ wfMiddle toMiddle
    exact ⟨_, _, _, .array strips plan expands, congrArg TreeNode.array same⟩

theorem PlansMembers.expands {types : TypeTable} {hint : Hint} {properties : List Property}
    {members : List (String × (Bool × TreeNode))} (wf : (expansion.upon types).WellFormed)
    (known : ∀ p ∈ properties, types.Knows p.type) :
    (expansion.upon types).PlansMembers expansion.mode hint properties members →
      ∀ later : TypeTable, (expansion.upon later).WellFormed → types.GrowsTo later →
        ∃ members' named after,
          expansion.ExpandsMembers later hint properties members' named after
            ∧ TreeNode.outlineMembers members' = TreeNode.outlineMembers members
  | .nil => fun later _ _ => ⟨[], 0, later, .nil, rfl⟩
  | @PlansMembers.cons _ _ _ p rest _ _ _ decides head tail => fun later wf' grows => by
    have knownFirst := known p List.mem_cons_self
    obtain ⟨node', _, middle, first, same⟩ := head.expands wf knownFirst later
      ((expansion.upon later).decided expansion.mode p.type p.optional).nullable wf' grows
    have settled := first.settles wf' (grows.knows knownFirst)
    obtain ⟨members', _, after, others, sameRest⟩ :=
      tail.expands wf (fun q hq => known q (List.mem_cons_of_mem p hq)) middle settled.wellFormed
        (grows.trans settled.adds.growsTo)
    refine ⟨_, _, after, .cons rfl first others, ?_⟩
    rw [(Catalog.GrowsTo.of_types grows expansion.models).decided_eq wf knownFirst, decides,
      TreeNode.outlineMembers, TreeNode.outlineMembers, same, sameRest]

end

end Catalog

end ModelForms
