import ModelForms.Proofs.Form.CheckedValues
import ModelForms.Proofs.Tree.Exactness

/-!
# Blank forms

A blank form follows a tree with nothing filled in: every member of a group is there, every cell
holds `null` and may do so, and no array has an item.  In a mode that allows `null` everywhere the
blank form over a derived tree conforms to it (`DerivedForm.conforms_blank`).

A control's type is then a union with `null` as an operand.  The normal form of a union may drop
operands or put `unknown` in the place of them all, and what is left of the declared type may be
anything, a reference that leads nowhere included.  `UnionOf.of_mem` says what the normal form
cannot do: lose an operand that is a type of its own.
-/

namespace ModelForms

namespace TypeTable

/-- An operand that is neither a union nor `never` is a member of the union, unless the union is
that operand alone or every value. -/
theorem UnionOf.of_mem {table : TypeTable} {operands : List TypeId} {id m : TypeId}
    (h : table.UnionOf operands id) (mem : m ∈ operands) (flat : table.unionMembers? m = none)
    (proper : m ≠ TypeId.never) :
    id = TypeId.unknown ∨ id = m
      ∨ ∃ members, table.unionMembers? id = some members ∧ m ∈ members := by
  have among : m ∈ table.keptMembers operands :=
    mem_keptMembers.2 ⟨mem_flatten.2 ⟨m, mem, by simp [flat]⟩, proper⟩
  rcases h.cases with ⟨_, rfl⟩ | ⟨_, ⟨empty, _⟩ | single | ⟨_, stored⟩⟩
  · exact .inl rfl
  · rw [empty] at among
    cases among
  · rw [single] at among
    exact .inr (.inl (List.mem_singleton.1 among).symm)
  · exact .inr (.inr ⟨_, unionMembers?_eq_some_iff.2 stored, among⟩)

end TypeTable

namespace Catalog

/-! ## Types that take `null` -/

/-- A type includes `null` as a cell sees it, and accepts it as matching does. -/
structure TakesNull (catalog : Catalog) (type : TypeId) : Prop where
  includes : catalog.includesNull type = true
  accepts : catalog.accepts .null type = true

section

variable {catalog : Catalog} {type : TypeId}

theorem takesNull_of_alternative
    (includes : TypeId.null ∈ catalog.alternatives type ∨ TypeId.unknown ∈ catalog.alternatives type)
    (inhabits : catalog.InhabitsWithin 2 .null type) : catalog.TakesNull type where
  includes := by simpa [includesNull] using includes
  accepts := accepts_iff.2 (inhabits.mono (by decide))

/-- A union takes `null` if `null` is an operand of it, whatever the normal form makes of the
others. -/
theorem takesNull_of_unionOf {operands : List TypeId} (h : catalog.types.UnionOf operands type)
    (mem : TypeId.null ∈ operands) : catalog.TakesNull type := by
  rcases h.of_mem mem rfl (by decide) with rfl | rfl | ⟨members, union, mem⟩
  · exact takesNull_of_alternative (Or.inr (List.mem_singleton_self _)) rfl
  · exact takesNull_of_alternative (Or.inl (List.mem_singleton_self _)) rfl
  · have found := TypeTable.unionMembers?_eq_some_iff.1 union
    have same := alternatives_of_unionMembers? union
    refine takesNull_of_alternative (Or.inl (same ▸ mem)) ?_
    show catalog.Suits (catalog.InhabitsWithin 1) .null type
    unfold Suits
    rw [found]
    exact ⟨TypeId.null, mem, rfl⟩

/-- The type of a control that may be null takes `null`. -/
theorem ControlTypeOf.takesNull {declared : TypeId}
    (h : catalog.ControlTypeOf declared true type) : catalog.TakesNull type := by
  obtain ⟨stripped, _, unionOf⟩ := h
  exact takesNull_of_unionOf unionOf (List.mem_cons_of_mem _ (List.mem_singleton_self _))

end

end Catalog

namespace TreeNode

/-! ## The controls of a tree -/

/-- Every control in a tree has a type with some property. -/
inductive EachControl (holds : TypeId → Prop) : TreeNode → Prop
  | control {type : TypeId} (h : holds type) : EachControl holds (.control type)
  | group {members : List (String × (Bool × TreeNode))}
      (parts : ∀ m ∈ members, EachControl holds m.2.2) : EachControl holds (.group members)
  | array {element : TreeNode} (part : EachControl holds element) : EachControl holds (.array element)

variable {holds : TypeId → Prop}

theorem EachControl.step {node below : TreeNode} (each : node.EachControl holds) {step : PathStep}
    (found : node.step? step = some below) : below.EachControl holds := by
  cases each with
  | control h => cases step <;> cases found
  | @group members parts =>
    cases step with
    | field name =>
      obtain ⟨member, hmember, rfl⟩ := Option.map_eq_some_iff.1 found
      exact parts _ (Entries.mem_of_lookup hmember)
    | element | index => cases found
  | array part =>
    cases step with
    | field => cases found
    | element | index =>
      cases found
      exact part

theorem EachControl.of_follow {node : TreeNode} (each : node.EachControl holds)
    {steps : List PathStep} {type : TypeId} (found : node.follow? steps = some (.control type)) :
    holds type := by
  induction steps generalizing node with
  | nil =>
    cases found
    cases each with
    | control h => exact h
  | cons step rest ih =>
    obtain ⟨next, hnext, found⟩ := Option.bind_eq_some_iff.1 found
    exact ih (each.step hnext) found

/-! ## Blank forms -/

mutual

/-- The controls over a tree with nothing filled in. -/
def blank : TreeNode → Control
  | .control _ => .cell (Cell.new .null false)
  | .group members => .group (blankMembers members)
  | .array _ => .array []
termination_by structural node => node

/-- The members of a group with nothing filled in, those that may be absent included. -/
def blankMembers : List (String × (Bool × TreeNode)) → List (String × Control)
  | [] => []
  | (name, (_, node)) :: rest => (name, blank node) :: blankMembers rest
termination_by structural members => members

end

theorem blankMembers_eq (members : List (String × (Bool × TreeNode))) :
    blankMembers members = members.map fun m => (m.1, m.2.2.blank) := by
  induction members with
  | nil => rfl
  | cons first rest ih => exact congrArg ((first.1, first.2.2.blank) :: ·) ih

/-- Blank controls have a member exactly where the group has one. -/
theorem unexpected_blankMembers (path : FieldPath) (members : List (String × (Bool × TreeNode))) :
    Conformance.unexpected path members (blankMembers members) = [] := by
  have names : Entries.keys (blankMembers members) = Entries.keys members := by
    rw [blankMembers_eq, Entries.keys, List.map_map]
    rfl
  rw [Conformance.unexpected, names, List.map_eq_nil_iff, List.filter_eq_nil_iff]
  intro name hname
  simpa using Entries.hasKey_iff.2 hname

/-- The blank form over a tree whose controls take `null` conforms to it. -/
theorem mismatches_blank {catalog : Catalog} {node : TreeNode}
    (each : node.EachControl catalog.TakesNull) (distinct : node.Distinct) (path : FieldPath) :
    Conformance.mismatches catalog path node node.blank = [] := by
  induction each generalizing path with
  | control null =>
    show Conformance.cell catalog path _ (Cell.new .null false) = []
    simp [Conformance.cell, Cell.new, null.includes, null.accepts]
  | @group members parts ih =>
    cases distinct with
    | group names distinct =>
    show Conformance.declaredMismatches catalog path (blankMembers members) members
      ++ Conformance.unexpected path members (blankMembers members) = []
    rw [unexpected_blankMembers, List.append_nil, List.eq_nil_iff_forall_not_mem]
    intro mismatch reported
    obtain ⟨m, hm, reported⟩ := Conformance.mem_declaredMismatches_iff.1 reported
    have present : (blankMembers members).lookup m.1 = some m.2.2.blank := by
      rw [blankMembers_eq, Entries.lookup_map fun _ (member : Bool × TreeNode) => member.2.blank,
        Entries.lookup_of_mem names hm, Option.map_some]
    rw [present] at reported
    rcases reported with ⟨control, same, reported⟩ | ⟨absent, _⟩
    · cases same
      rw [ih m hm (distinct m hm)] at reported
      cases reported
    · cases absent
  | array => rfl

end TreeNode

/-! ## Derived forms -/

namespace Catalog

variable {catalog : Catalog} {mode : Mode}

mutual

/-- Under a rule that always allows `null`, the controls of a position that allows it take `null`,
and so do all below. -/
theorem Yields.eachControl (always : mode.nullable = .always) {declared : TypeId} {hint : Hint}
    {nullable : Bool} {node : TreeNode} (here : nullable = true ∨ node.kind ≠ .control) :
    catalog.Yields mode declared hint nullable node → node.EachControl catalog.TakesNull
  | .control plan typed => by
    rcases here with rfl | structural
    · exact .control typed.takesNull
    · exact absurd rfl structural
  | .group shape below =>
      .group fun m hm => below.eachControl always m (Entries.mem_of_mem_collect hm)
  | .array shape below =>
      .array (below.eachControl always (Or.inl (by rw [decided, Mode.decide, always]; rfl)))

theorem YieldsMembers.eachControl (always : mode.nullable = .always) {hint : Hint}
    {properties : List Property} {members : List (String × (Bool × TreeNode))} :
    catalog.YieldsMembers mode hint properties members →
      ∀ m ∈ members, m.2.2.EachControl catalog.TakesNull
  | .nil => by simp
  | .cons decides head tail => by
    refine List.forall_mem_cons.2 ⟨head.eachControl always (Or.inl ?_), tail.eachControl always⟩
    rw [← decides, decided, Mode.decide, always]
    rfl

end

end Catalog

namespace DerivedForm

/-- In a mode that always allows `null`, every control of a derived form has a type that includes
`null`, and the blank form conforms to the tree. -/
theorem conforms_blank {models : Definitions} {mode : Mode} {hint : Hint} {model : TypeId}
    {types after later : TypeTable} {tree : DerivedForm}
    (wf : Catalog.WellFormed ⟨types, models⟩) (always : mode.nullable = .always)
    (derives : derive models mode hint model types = (.ok tree, after))
    (grows : after.GrowsTo later) :
    (∀ steps value, tree.root.follow? steps = some (.control value) →
        Catalog.includesNull ⟨later, models⟩ value = true)
      ∧ Conformance.check ⟨later, models⟩ tree.root tree.root.blank Limits.reportedMismatches
        = [] := by
  obtain ⟨_, _, _, expands, _⟩ := expands_of_derive derives
  have settled := expands.settles wf (knows_of_derive derives)
  have yields := settled.holds ⟨later, models⟩ (.of_types grows models)
  obtain ⟨members, isGroup⟩ := exists_root_eq_group wf derives
  have each := yields.eachControl always (Or.inr (by simp [isGroup, TreeNode.kind]))
  refine ⟨fun steps value found => (each.of_follow found).includes, ?_⟩
  rw [Conformance.check, TreeNode.mismatches_blank each expands.distinct, List.take_nil]

/-- The types that the form over a person leaves where every value may be `null`: a name that may be
`null` is new. -/
def openPersonTypes : TypeTable :=
  { Catalog.person.types with
    entries := Catalog.person.types.entries ++ [.union [TypeId.null, .ofIntrinsic .string]] }

/-- The form over a person, whose friends are not taken apart, where every value may be `null`. -/
def ofOpenPerson : DerivedForm where
  root := .group [("name", (false, .control ⟨104⟩)), ("friends", (true, .array (.control ⟨101⟩)))]
  mode := ⟨.always, .declared⟩
  model := ⟨103⟩

theorem conforms_blank_ofOpenPerson :
    derive Catalog.person.models ⟨.always, .declared⟩
        (.fields [("friends", .elements (.kind .control))]) ⟨103⟩ Catalog.person.types
        = (.ok ofOpenPerson, openPersonTypes)
      ∧ Catalog.includesNull ⟨openPersonTypes, Catalog.person.models⟩ ⟨104⟩ = true
      ∧ Conformance.check ⟨openPersonTypes, Catalog.person.models⟩ ofOpenPerson.root
          (.group [("name", .cell (.new .null false)), ("friends", .array [])])
          Limits.reportedMismatches = [] := by
  have derives : derive Catalog.person.models ⟨.always, .declared⟩
      (.fields [("friends", .elements (.kind .control))]) ⟨103⟩ Catalog.person.types
      = (.ok ofOpenPerson, openPersonTypes) := rfl
  obtain ⟨includes, conforms⟩ := conforms_blank (by decide) rfl derives (.refl openPersonTypes)
  exact ⟨derives, includes [.field "name"] ⟨104⟩ rfl, conforms⟩

end DerivedForm

end ModelForms
