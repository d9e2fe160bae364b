import Mathlib.Data.List.Perm.Basic
import ModelForms.Proofs.Tree.Agreement
import ModelForms.Proofs.Types.UnnamedTerms

/-!
# Types without a name

A catalog may have one model more than another, whose body is a type of the other one, and the name
of this model may stand in the place of the type.  A type of the first catalog is related to the
type of the second that is the same without the name (`Catalog.Unnamed`).

Related types have related parts, and chains of aliases lead to related types: where a chain goes
through the name, the other one stays where it is.  The exception are unions.  A member may be the
name of a union, and two members may be the same without the name.  Otherwise the members are
related (`Catalog.Naming.exists_arranged`).
-/

namespace ModelForms

open NamedTerm (unnamed)

namespace Catalog

variable {catalog other : Catalog} {name : String} {type : NamedTerm} {d d' : TypeId}

/-! ## The relation -/

/-- A type of the second catalog is the same as one of the first without the name. -/
structure Unnamed (catalog other : Catalog) (name : String) (type : NamedTerm) (d d' : TypeId) :
    Prop where
  known : catalog.types.Knows d
  known' : other.types.Knows d'
  same : catalog.namedTerm d = unnamed name type (other.namedTerm d')

/-- The models of the second catalog are those of the first one, without the name, and the model of
that name, which is the type. -/
structure Naming (catalog other : Catalog) (name : String) (type : NamedTerm) : Prop where
  closed : catalog.Closed
  closed' : other.Closed
  names : catalog.models.names.Nodup
  names' : other.models.names.Nodup
  unbroken : catalog.Unbroken
  unbroken' : other.Unbroken
  new : ∀ definition body, other.models.name? definition = some name →
    other.models.body? definition = some body → unnamed name type (other.namedTerm body) = type
  others : ∀ definition definition' model body', model ≠ name →
    catalog.models.name? definition = some model → other.models.name? definition' = some model →
    other.models.body? definition' = some body' →
    ∃ body, catalog.models.body? definition = some body
      ∧ catalog.namedTerm body = unnamed name type (other.namedTerm body')

/-- The type is the name. -/
def IsName (catalog : Catalog) (name : String) (d : TypeId) : Prop :=
  catalog.namedTerm d = .reference name

/-- The structure of a type without the name. -/
noncomputable def unnamedTerm (catalog : Catalog) (name : String) (type : NamedTerm) (d : TypeId) :
    NamedTerm :=
  unnamed name type (catalog.namedTerm d)

theorem unnamedTerm_of_isName (isName : catalog.IsName name d) :
    catalog.unnamedTerm name type d = type := by
  rw [unnamedTerm, isName, NamedTerm.unnamed_reference_self]

/-! ## Entries and structures -/

theorem exists_namedEntry (wf : catalog.types.WellFormed) (known : catalog.types.Knows d) :
    ∃ entry, catalog.types.lookup d = some entry
      ∧ catalog.namedTerm d = catalog.namedEntry entry := by
  obtain ⟨entry, found⟩ := Option.isSome_iff_exists.1 known
  exact ⟨entry, found, namedTerm_of_lookup wf found⟩

theorem namedTerm_ne_union (wf : catalog.types.WellFormed) (known : catalog.types.Knows d)
    (flat : catalog.types.unionMembers? d = none) (members : List NamedTerm) :
    catalog.namedTerm d ≠ .union members := by
  obtain ⟨entry, found, same⟩ := exists_namedEntry wf known
  rw [same]
  cases entry with
  | union ms => simp [TypeTable.unionMembers?, found] at flat
  | _ => simp [namedEntry]

theorem exists_unionMembers? (wf : catalog.types.WellFormed) (known : catalog.types.Knows d)
    {terms : List NamedTerm} (same : catalog.namedTerm d = .union terms) :
    ∃ members, catalog.types.unionMembers? d = some members
      ∧ (members.map catalog.namedTerm).toFinset.toList = terms := by
  obtain ⟨entry, found, same'⟩ := exists_namedEntry wf known
  rw [same] at same'
  cases entry with
  | union members =>
    exact ⟨members, TypeTable.unionMembers?_eq_some_iff.2 found, (NamedTerm.union.inj same').symm⟩
  | _ => cases same'

/-- A reference has the name of its model. -/
theorem Closed.namedTerm_of_referenced? (closed : catalog.Closed) {definition : ModelId}
    (refers : catalog.types.referenced? d = some definition) :
    ∃ model, catalog.models.name? definition = some model
      ∧ catalog.namedTerm d = .reference model := by
  have found := TypeTable.referenced?_eq_some_iff.1 refers
  obtain ⟨model, named⟩ := Definitions.exists_name?_of_contains
    (closed.reserved definition (TypeTable.mem_entries_of_lookup found (by simp)))
  refine ⟨model, named, ?_⟩
  rw [namedTerm_of_lookup closed.wellFormed.types found, namedEntry,
    Definitions.describe_eq_of_name? named]

/-- What has the structure of a reference is one. -/
theorem Closed.exists_referenced? (closed : catalog.Closed) (known : catalog.types.Knows d)
    {model : String} (same : catalog.namedTerm d = .reference model) :
    ∃ definition, catalog.types.referenced? d = some definition
      ∧ catalog.models.name? definition = some model := by
  obtain ⟨entry, found, same'⟩ := exists_namedEntry closed.wellFormed.types known
  cases entry with
  | reference definition =>
    have refers := TypeTable.referenced?_eq_some_iff.2 found
    obtain ⟨other, named, same''⟩ := closed.namedTerm_of_referenced? refers
    cases same.symm.trans same''
    exact ⟨definition, refers, named⟩
  | _ => cases same.symm.trans same'

/-! ## Steps -/

/-- The ways in which two types are the same without the name. -/
inductive UnnamedStep (catalog other : Catalog) (name : String) (type : NamedTerm)
    (d d' : TypeId) : Prop
  | intrinsic (k : Intrinsic) (left : d = TypeId.ofIntrinsic k) (right : d' = TypeId.ofIntrinsic k)
  | literal {value : Literal} (left : catalog.types.lookup d = some (.literal value))
      (right : other.types.lookup d' = some (.literal value))
  | leaf {leaf : String} (left : catalog.types.lookup d = some (.leaf leaf))
      (right : other.types.lookup d' = some (.leaf leaf))
  | object {properties properties' : List Property}
      (left : catalog.types.lookup d = some (.object properties))
      (right : other.types.lookup d' = some (.object properties'))
      (parts : List.Forall₂ (Property.Agree (catalog.Unnamed other name type)) properties
        properties')
  | array {element element' : TypeId} (left : catalog.types.lookup d = some (.array element))
      (right : other.types.lookup d' = some (.array element'))
      (part : catalog.Unnamed other name type element element')
  | union {members' : List TypeId} (right : other.types.unionMembers? d' = some members')
  | reference {definition definition' : ModelId} {model : String}
      (left : catalog.types.referenced? d = some definition)
      (right : other.types.referenced? d' = some definition') (unequal : model ≠ name)
      (named : catalog.models.name? definition = some model)
      (named' : other.models.name? definition' = some model)
  | name {definition' : ModelId} (right : other.types.referenced? d' = some definition')
      (named' : other.models.name? definition' = some name)

/-- Properties of the same structures without the name agree. -/
theorem agree_of_map_namedProperty {properties properties' : List Property}
    (known : ∀ p ∈ properties, catalog.types.Knows p.type)
    (known' : ∀ p ∈ properties', other.types.Knows p.type)
    (same : properties.map catalog.namedProperty
      = NamedProperties.mapTypes (unnamed name type) (properties'.map other.namedProperty)) :
    List.Forall₂ (Property.Agree (catalog.Unnamed other name type)) properties properties' := by
  induction properties generalizing properties' with
  | nil =>
    cases properties' with
    | nil => exact .nil
    | cons => cases same
  | cons p rest ih =>
    cases properties' with
    | nil => cases same
    | cons q rest' =>
      obtain ⟨knownFirst, known⟩ := List.forall_mem_cons.1 known
      obtain ⟨knownFirst', known'⟩ := List.forall_mem_cons.1 known'
      obtain ⟨first, same⟩ := List.cons.inj same
      obtain ⟨label, types⟩ := Prod.mk.inj first
      obtain ⟨names, flags⟩ := Prod.mk.inj label
      exact .cons ⟨names, flags, knownFirst, knownFirst', types⟩ (ih known known' same)

namespace Naming

variable (naming : catalog.Naming other name type)

include naming

theorem step (h : catalog.Unnamed other name type d d') :
    catalog.UnnamedStep other name type d d' := by
  obtain ⟨known, known', same⟩ := h
  have wf := naming.closed.wellFormed.types
  have wf' := naming.closed'.wellFormed.types
  obtain ⟨entry', found', is'⟩ := exists_namedEntry wf' known'
  obtain ⟨entry, found, is⟩ := exists_namedEntry wf known
  rw [is, is'] at same
  cases entry' with
  | intrinsic k =>
    rw [namedEntry, unnamed] at same
    exact .intrinsic k
      ((namedTerm_eq_intrinsic_iff naming.closed naming.names known).1 (is.trans same))
      ((namedTerm_eq_intrinsic_iff naming.closed' naming.names' known').1 is')
  | literal value =>
    rw [namedEntry, unnamed] at same
    cases entry <;> cases same
    exact .literal found found'
  | leaf leafName =>
    rw [namedEntry, unnamed] at same
    cases entry <;> cases same
    exact .leaf found found'
  | object properties' =>
    rw [namedEntry, NamedTerm.unnamed_object] at same
    cases entry with
    | object properties =>
      exact .object found found' (agree_of_map_namedProperty
        (fun p mem => wf.knows_part found (List.mem_map_of_mem mem))
        (fun p mem => wf'.knows_part found' (List.mem_map_of_mem mem))
        (NamedTerm.object.inj same))
    | _ => cases same
  | array element' =>
    rw [namedEntry, unnamed] at same
    cases entry with
    | array element =>
      exact .array found found' ⟨wf.knows_part found (List.mem_singleton_self _),
        wf'.knows_part found' (List.mem_singleton_self _), NamedTerm.array.inj same⟩
    | _ => cases same
  | union members' => exact .union (TypeTable.unionMembers?_eq_some_iff.2 found')
  | reference definition' =>
    have right := TypeTable.referenced?_eq_some_iff.2 found'
    obtain ⟨model, named', same'⟩ := naming.closed'.namedTerm_of_referenced? right
    by_cases unequal : model = name
    · subst unequal
      exact .name right named'
    · rw [← is', same', NamedTerm.unnamed_reference unequal] at same
      obtain ⟨definition, left, named⟩ :=
        naming.closed.exists_referenced? known (is.trans same)
      exact .reference left right unequal named named'

/-- Chains of aliases lead to related types.  At the name only one of them goes on. -/
theorem exists_leadsTo {target' : TypeId} (h : catalog.Unnamed other name type d d')
    (leads : other.LeadsTo d' target') :
    ∃ target, catalog.LeadsTo d target ∧ catalog.Unnamed other name type target target' := by
  induction leads generalizing d with
  | here id => exact ⟨d, .here d, h⟩
  | @onwards id body' target' definition' refers defined _ ih =>
    have known' := naming.closed'.wellFormed.bodies definition' body' defined
    cases naming.step h with
    | reference left right unequal named named' =>
      cases refers.symm.trans right
      obtain ⟨body, definedLeft, same⟩ := naming.others _ _ _ _ unequal named named' defined
      obtain ⟨target, leads, unnamed⟩ :=
        ih ⟨naming.closed.wellFormed.bodies _ _ definedLeft, known', same⟩
      exact ⟨target, .onwards left definedLeft leads, unnamed⟩
    | name right named' =>
      -- The name leads on to the part.  The other chain is there already.
      cases refers.symm.trans right
      obtain ⟨model, named, same⟩ := naming.closed'.namedTerm_of_referenced? refers
      cases named.symm.trans named'
      refine ih ⟨h.known, known', ?_⟩
      rw [h.same, same, NamedTerm.unnamed_reference_self, naming.new _ _ named' defined]
    | intrinsic k _ right =>
      subst right
      cases k <;> cases refers
    | literal _ right | leaf _ right | object _ right | array _ right =>
      simp [TypeTable.referenced?, right] at refers
    | union right => simp [TypeTable.referenced?_of_unionMembers? right] at refers

/-! ## Members of unions -/

/-- A member that is not the name is an intrinsic type without the name only if it is one with
it. -/
theorem unnamedTerm_eq_intrinsic_iff {m : TypeId} (known : other.types.Knows m)
    (flat : other.types.unionMembers? m = none) (proper : ¬ other.IsName name m) {k : Intrinsic} :
    other.unnamedTerm name type m = .intrinsic k ↔ m = TypeId.ofIntrinsic k := by
  have wf' := naming.closed'.wellFormed.types
  rw [unnamedTerm, NamedTerm.unnamed_eq_intrinsic_iff (namedTerm_ne_union wf' known flat) proper,
    namedTerm_eq_intrinsic_iff naming.closed' naming.names' known]

theorem unnamedTerm_ne_union {m : TypeId} (known : other.types.Knows m)
    (flat : other.types.unionMembers? m = none) (proper : ¬ other.IsName name m)
    (members : List NamedTerm) : other.unnamedTerm name type m ≠ .union members :=
  NamedTerm.unnamed_ne_union (namedTerm_ne_union naming.closed'.wellFormed.types known flat) proper
    members

theorem unnamedTerm_ofIntrinsic (k : Intrinsic) :
    other.unnamedTerm name type (TypeId.ofIntrinsic k) = .intrinsic k := by
  rw [unnamedTerm, namedTerm_ofIntrinsic naming.closed'.wellFormed.types, unnamed]

/-- The structure of a union without the name is the union of what its members are without it. -/
theorem namedTerm_eq_unionOf {members' : List TypeId} (h : catalog.Unnamed other name type d d')
    (right : other.types.unionMembers? d' = some members') :
    catalog.namedTerm d = .unionOf (members'.map (other.unnamedTerm name type)) := by
  have wf' := naming.closed'.wellFormed.types
  rw [h.same, namedTerm_of_lookup wf' (TypeTable.unionMembers?_eq_some_iff.1 right), namedEntry,
    NamedTerm.unnamed_union]
  have mem_iff (m : NamedTerm) :
      m ∈ NamedTerm.flattened ((members'.map other.namedTerm).toFinset.toList.map
          (unnamed name type))
        ↔ m ∈ NamedTerm.flattened (members'.map (other.unnamedTerm name type)) := by
    simp [NamedTerm.flattened, unnamedTerm]
  exact NamedTerm.unionOf_congr (mem_iff _) fun _ m _ => mem_iff m

end Naming

end Catalog

namespace NamedTerm

/-- What may be a member of a union. -/
structure IsMember (term : NamedTerm) : Prop where
  proper : ∀ members, term ≠ .union members
  notUnknown : term ≠ unknown
  notNever : term ≠ never

theorem flattened_eq_self {terms : List NamedTerm}
    (proper : ∀ term ∈ terms, ∀ members, term ≠ .union members) : flattened terms = terms := by
  induction terms with
  | nil => rfl
  | cons term rest ih =>
    obtain ⟨first, proper⟩ := List.forall_mem_cons.1 proper
    have apart : flattened (term :: rest) = term.alternatives ++ flattened rest := rfl
    rw [apart, ih proper]
    cases term with
    | union members => exact absurd rfl (first members)
    | _ => rfl

/-- Two members or more make a union. -/
theorem unionOf_eq_union {terms : List NamedTerm} (members : ∀ term ∈ terms, IsMember term)
    (several : 2 ≤ terms.toFinset.card) : unionOf terms = .union terms.toFinset.toList := by
  have notUnknown : unknown ∉ terms := fun mem => (members _ mem).notUnknown rfl
  have notNever : never ∉ terms.toFinset := fun mem =>
    (members _ (List.mem_toFinset.1 mem)).notNever rfl
  rw [unionOf_eq, flattened_eq_self fun term mem => (members term mem).proper,
    if_neg notUnknown, Finset.erase_eq_of_notMem notNever, ofSet_of_two several]

end NamedTerm

namespace Catalog

namespace Naming

variable {catalog other : Catalog} {name : String} {type : NamedTerm} {d d' : TypeId}
  (naming : catalog.Naming other name type)

include naming

theorem nodup_map_namedTerm {members : List TypeId}
    (isUnion : catalog.types.unionMembers? d = some members) :
    (members.map catalog.namedTerm).Nodup := by
  have normal := naming.closed.wellFormed.types.normalUnion isUnion
  refine List.Nodup.map_on (fun m mem m' mem' same => ?_) normal.nodup
  exact namedTerm_injective naming.closed naming.names (normal.known m mem) (normal.known m' mem')
    same

/-- A type whose structure is the union of two members or more is a union of these members. -/
theorem exists_members {terms : List NamedTerm} (known : catalog.types.Knows d)
    (same : catalog.namedTerm d = .unionOf terms) (members : ∀ term ∈ terms, term.IsMember)
    (several : 2 ≤ terms.toFinset.card) :
    ∃ found, catalog.types.unionMembers? d = some found
      ∧ (found.map catalog.namedTerm).toFinset = terms.toFinset := by
  rw [NamedTerm.unionOf_eq_union members several] at same
  obtain ⟨found, isUnion, same⟩ := exists_unionMembers? naming.closed.wellFormed.types known same
  refine ⟨found, isUnion, ?_⟩
  rw [← Finset.toList_toFinset (List.toFinset _), same, Finset.toList_toFinset]

section

variable {members' : List TypeId} (right : other.types.unionMembers? d' = some members')

include right

theorem isMember_unnamedTerm {m : TypeId} (mem : m ∈ members') (proper : ¬ other.IsName name m) :
    (other.unnamedTerm name type m).IsMember := by
  have normal := naming.closed'.wellFormed.types.normalUnion right
  have iff (k : Intrinsic) :=
    @unnamedTerm_eq_intrinsic_iff _ _ _ _ naming _ (normal.known m mem) (normal.flat m mem) proper k
  exact ⟨naming.unnamedTerm_ne_union (normal.known m mem) (normal.flat m mem) proper,
    fun same => (normal.proper m mem).2 ((iff .unknown).1 same),
    fun same => (normal.proper m mem).1 ((iff .never).1 same)⟩

/-- If no member is the name and no two are the same without it, the members of the two unions are
related, in some order. -/
theorem exists_arranged (h : catalog.Unnamed other name type d d')
    (proper : ∀ m ∈ members', ¬ other.IsName name m)
    (distinct : (members'.map (other.unnamedTerm name type)).Nodup) :
    ∃ members arranged, catalog.types.unionMembers? d = some members
      ∧ List.Forall₂ (catalog.Unnamed other name type) members arranged
      ∧ arranged.Perm members' := by
  have normal' := naming.closed'.wellFormed.types.normalUnion right
  have isMember : ∀ term ∈ members'.map (other.unnamedTerm name type), term.IsMember := by
    intro term mem
    obtain ⟨m, among, rfl⟩ := List.mem_map.1 mem
    exact naming.isMember_unnamedTerm right among (proper m among)
  have several : 2 ≤ (members'.map (other.unnamedTerm name type)).toFinset.card := by
    rw [List.toFinset_card_of_nodup distinct, List.length_map]
    exact normal'.several
  obtain ⟨members, isUnion, same⟩ :=
    naming.exists_members h.known (naming.namedTerm_eq_unionOf h right) isMember several
  have normal := naming.closed.wellFormed.types.normalUnion isUnion
  have perm : (members.map catalog.namedTerm).Perm (members'.map (other.unnamedTerm name type)) :=
    List.perm_of_nodup_nodup_toFinset_eq (naming.nodup_map_namedTerm isUnion) distinct same
  have links : List.Forall₂ (fun term m => term = other.unnamedTerm name type m)
      (members'.map (other.unnamedTerm name type)) members' := by
    rw [List.forall₂_map_left_iff]
    exact List.forall₂_same.2 fun _ _ => rfl
  obtain ⟨arranged, links, arranges⟩ := List.perm_comp_forall₂ perm links
  refine ⟨members, arranged, isUnion, ?_, arranges⟩
  rw [List.forall₂_map_left_iff] at links
  refine List.forall₂_iff_zip.2 ⟨links.length_eq, fun {m m'} mem => ?_⟩
  obtain ⟨left, right⟩ := List.of_mem_zip mem
  exact ⟨normal.known m left, normal'.known m' (arranges.mem_iff.1 right),
    List.forall₂_zip links mem⟩

end

end Naming

end Catalog

end ModelForms
