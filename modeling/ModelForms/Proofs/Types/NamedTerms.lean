import Mathlib.Data.Finset.Card
import ModelForms.Proofs.Types.Handles
import ModelForms.Proofs.Types.Restoring
import ModelForms.Proofs.Types.Terms

/-!
# Structures without ids

The id of a type and the handle of a model depend on what was interned and reserved before.  A
`NamedTerm` is what a type is apart from that: a reference is the name of a model, and a union is
the set of its members.  To have one term for one set, the members stand in the order in which
Mathlib lists the set, so two types are of the same structure exactly if their terms are equal.

In a catalog whose models have different names no two ids have the same term
(`Catalog.namedTerm_injective`).  Hence a union is made of ids the way it is made of terms
(`Catalog.namedTerm_of_unionOf`): what is the same member by its id is the same member by its term.
-/

namespace ModelForms

/-- The structure of a type. -/
inductive NamedTerm where
  | intrinsic (k : Intrinsic)
  | literal (value : Literal)
  | leaf (name : String)
  /-- Properties in order: the name, whether it may be absent, and the type. -/
  | object (properties : List ((String × Bool) × NamedTerm))
  | array (element : NamedTerm)
  /-- A set of two or more members, listed in the order that belongs to the set. -/
  | union (members : List NamedTerm)
  | reference (name : String)

namespace NamedTerm

noncomputable instance : DecidableEq NamedTerm := Classical.decEq _

/-- The type without values. -/
abbrev never : NamedTerm := intrinsic .never

/-- The type of every value. -/
abbrev unknown : NamedTerm := intrinsic .unknown

/-- The members of a union, or else the type itself. -/
def alternatives : NamedTerm → List NamedTerm
  | .union members => members
  | term => [term]

/-- The union of a set of types that are no unions. -/
noncomputable def ofSet (members : Finset NamedTerm) : NamedTerm :=
  match members.toList with
  | [] => never
  | [only] => only
  | several => .union several

/-- The union of some types.  The members of unions among them are members of it, `never` is left
out, and `unknown` takes the place of the whole. -/
noncomputable def unionOf (members : List NamedTerm) : NamedTerm :=
  let flat := (members.flatMap alternatives).toFinset
  if unknown ∈ flat then unknown else ofSet (flat.erase never)

theorem ofSet_of_two {members : Finset NamedTerm} (two : 2 ≤ members.card) :
    ofSet members = .union members.toList := by
  rw [← Finset.length_toList] at two
  unfold ofSet
  match members.toList, two with
  | _ :: _ :: _, _ => rfl

end NamedTerm

namespace TypeTerm

mutual

/-- The structure of a term, where each handle has a name.  An id that was never given out is taken
for `unknown`. -/
noncomputable def named (nameOf : ModelId → String) : TypeTerm → NamedTerm
  | .stray _ => .unknown
  | .intrinsic k => .intrinsic k
  | .literal value => .literal value
  | .leaf name => .leaf name
  | .object properties => .object (namedProperties nameOf properties)
  | .array element => .array (named nameOf element)
  | .union members => .union (namedMembers nameOf members).toFinset.toList
  | .reference definition => .reference (nameOf definition)
termination_by structural term => term

/-- The structures of the properties of an object. -/
noncomputable def namedProperties (nameOf : ModelId → String) :
    List ((String × Bool) × TypeTerm) → List ((String × Bool) × NamedTerm)
  | [] => []
  | (label, type) :: rest => (label, named nameOf type) :: namedProperties nameOf rest
termination_by structural properties => properties

/-- The structures of the members of a union. -/
noncomputable def namedMembers (nameOf : ModelId → String) : List TypeTerm → List NamedTerm
  | [] => []
  | m :: rest => named nameOf m :: namedMembers nameOf rest
termination_by structural members => members

end

variable {nameOf : ModelId → String}

theorem namedProperties_eq (properties : List ((String × Bool) × TypeTerm)) :
    namedProperties nameOf properties = properties.map fun p => (p.1, p.2.named nameOf) := by
  induction properties with
  | nil => rfl
  | cons p rest ih =>
    rw [namedProperties, ih]
    rfl

theorem namedMembers_eq (members : List TypeTerm) :
    namedMembers nameOf members = members.map (named nameOf) := by
  induction members with
  | nil => rfl
  | cons m rest ih =>
    rw [namedMembers, ih]
    rfl

end TypeTerm

namespace Catalog

variable {catalog : Catalog} {id other : TypeId} {entry : TypeEntry}

/-! ## The term of an id -/

/-- The structure of a type. -/
noncomputable def namedTerm (catalog : Catalog) (id : TypeId) : NamedTerm :=
  (catalog.types.term id).named catalog.models.describe

/-- A property with the structure of its type. -/
noncomputable def namedProperty (catalog : Catalog) (p : Property) :
    (String × Bool) × NamedTerm :=
  ((p.name, p.optional), catalog.namedTerm p.type)

/-- The structure of an entry, given by the structures of its parts. -/
noncomputable def namedEntry (catalog : Catalog) : TypeEntry → NamedTerm
  | .intrinsic k => .intrinsic k
  | .literal value => .literal value
  | .leaf name => .leaf name
  | .object properties => .object (properties.map catalog.namedProperty)
  | .array element => .array (catalog.namedTerm element)
  | .union members => .union (members.map catalog.namedTerm).toFinset.toList
  | .reference definition => .reference (catalog.models.describe definition)

theorem namedTerm_of_lookup (wf : catalog.types.WellFormed)
    (found : catalog.types.lookup id = some entry) :
    catalog.namedTerm id = catalog.namedEntry entry := by
  unfold namedTerm
  rw [wf.term_of_lookup found]
  cases entry with
  | intrinsic | literal | leaf | array | reference => rfl
  | object properties =>
    rw [TypeTable.entryTerm, TypeTerm.named, TypeTerm.namedProperties_eq, List.map_map]
    rfl
  | union members =>
    rw [TypeTable.entryTerm, TypeTerm.named, TypeTerm.namedMembers_eq, List.map_map]
    rfl

theorem namedTerm_ofIntrinsic (wf : catalog.types.WellFormed) (k : Intrinsic) :
    catalog.namedTerm (TypeId.ofIntrinsic k) = .intrinsic k :=
  namedTerm_of_lookup wf (catalog.types.lookup_ofIntrinsic k)

/-- The alternatives of the structure of a type are the structures of its members. -/
theorem mem_alternatives_namedTerm_iff (wf : catalog.types.WellFormed)
    (known : catalog.types.Knows id) {term : NamedTerm} :
    term ∈ (catalog.namedTerm id).alternatives
      ↔ ∃ m ∈ (catalog.types.unionMembers? id).getD [id], catalog.namedTerm m = term := by
  obtain ⟨entry, found⟩ := Option.isSome_iff_exists.1 known
  cases entry with
  | union members =>
    rw [namedTerm_of_lookup wf found, TypeTable.unionMembers?_eq_some_iff.2 found]
    simp [namedEntry, NamedTerm.alternatives]
  | intrinsic | literal | leaf | object | array | reference =>
    simp [namedTerm_of_lookup wf found, TypeTable.unionMembers?, found, namedEntry,
      NamedTerm.alternatives, eq_comm]

/-- A known type keeps its structure while the table grows and no name changes. -/
theorem namedTerm_eq_of_growsTo {later : Catalog} (wf : catalog.types.WellFormed)
    (grows : catalog.types.GrowsTo later.types)
    (names : later.models.names = catalog.models.names) (known : catalog.types.Knows id) :
    later.namedTerm id = catalog.namedTerm id := by
  have describe : later.models.describe = catalog.models.describe := by
    funext definition
    unfold Definitions.describe
    rw [Definitions.name?_eq_of_names_eq names]
  unfold namedTerm
  rw [grows.term_eq wf known, describe]

/-! ## One id for one term -/

section

variable (closed : catalog.Closed) (names : catalog.models.names.Nodup)

include closed names

/-- Two entries with the same structure are the same if that holds of their parts. -/
theorem eq_of_namedEntry_eq {entry entry' : TypeEntry}
    (found : catalog.types.lookup id = some entry)
    (found' : catalog.types.lookup other = some entry')
    (parts : ∀ part ∈ entry.parts, ∀ part' ∈ entry'.parts,
      catalog.namedTerm part = catalog.namedTerm part' → part = part')
    (same : catalog.namedEntry entry = catalog.namedEntry entry') : entry = entry' := by
  cases entry <;> cases entry' <;> simp only [namedEntry, NamedTerm.intrinsic.injEq,
    NamedTerm.literal.injEq, NamedTerm.leaf.injEq, NamedTerm.object.injEq, NamedTerm.array.injEq,
    NamedTerm.union.injEq, NamedTerm.reference.injEq, reduceCtorEq] at same
  case intrinsic.intrinsic => rw [same]
  case literal.literal => rw [same]
  case leaf.leaf => rw [same]
  case array.array e e' =>
    rw [parts e (List.mem_singleton_self e) e' (List.mem_singleton_self e') same]
  case object.object ps ps' =>
    refine congrArg TypeEntry.object (TypeTable.eq_of_map_eq (fun p mem p' mem' same => ?_) same)
    obtain ⟨label, type⟩ := Prod.mk.inj same
    obtain ⟨name, optional⟩ := Prod.mk.inj label
    have types := parts p.type (List.mem_map_of_mem mem) p'.type (List.mem_map_of_mem mem') type
    cases p
    cases p'
    cases name
    cases optional
    cases types
    rfl
  case union.union ms ms' =>
    have sets := congrArg List.toFinset same
    rw [Finset.toList_toFinset, Finset.toList_toFinset] at sets
    have mem_iff (m : TypeId) : m ∈ ms ↔ m ∈ ms' := by
      constructor
      · intro mem
        have mem' : catalog.namedTerm m ∈ (ms'.map catalog.namedTerm).toFinset :=
          sets ▸ List.mem_toFinset.2 (List.mem_map_of_mem mem)
        obtain ⟨m', mem', same⟩ := List.mem_map.1 (List.mem_toFinset.1 mem')
        exact parts m mem m' mem' same.symm ▸ mem'
      · intro mem'
        have mem : catalog.namedTerm m ∈ (ms.map catalog.namedTerm).toFinset :=
          sets ▸ List.mem_toFinset.2 (List.mem_map_of_mem mem')
        obtain ⟨m', mem, same⟩ := List.mem_map.1 (List.mem_toFinset.1 mem)
        exact parts m' mem m mem' same ▸ mem
    have wf := closed.wellFormed.types
    rw [TypeTable.eq_of_mem_iff
      (wf.normalUnion (TypeTable.unionMembers?_eq_some_iff.2 found)).ascending
      (wf.normalUnion (TypeTable.unionMembers?_eq_some_iff.2 found')).ascending mem_iff]
  case reference.reference d d' =>
    rw [Definitions.eq_of_describe_eq names
      (closed.reserved d (TypeTable.mem_entries_of_lookup found (by simp)))
      (closed.reserved d' (TypeTable.mem_entries_of_lookup found' (by simp))) same]

/-- Known types with the same structure have one id. -/
theorem namedTerm_injective (known : catalog.types.Knows id) (known' : catalog.types.Knows other)
    (same : catalog.namedTerm id = catalog.namedTerm other) : id = other := by
  have wf := closed.wellFormed.types
  -- The parts of an entry have lower ids than the entry.
  generalize bound : id.index = n
  induction n using Nat.strong_induction_on generalizing id other with
  | _ n ih =>
    subst bound
    obtain ⟨entry, found⟩ := Option.isSome_iff_exists.1 known
    obtain ⟨entry', found'⟩ := Option.isSome_iff_exists.1 known'
    rw [namedTerm_of_lookup wf found, namedTerm_of_lookup wf found'] at same
    have entries := eq_of_namedEntry_eq closed names found found' (fun part mem part' mem' same =>
      ih part.index (wf.part_lt found mem).2 (wf.knows_part found mem)
        (wf.knows_part found' mem') same rfl) same
    exact wf.eq_of_lookup found (entries ▸ found')

/-! ## Unions -/

theorem namedTerm_eq_intrinsic_iff (known : catalog.types.Knows id) {k : Intrinsic} :
    catalog.namedTerm id = .intrinsic k ↔ id = TypeId.ofIntrinsic k := by
  have given := namedTerm_ofIntrinsic closed.wellFormed.types k
  constructor
  · intro same
    exact namedTerm_injective closed names known (catalog.types.knows_intrinsic k)
      (same.trans given.symm)
  · rintro rfl
    exact given

omit names in
/-- The flattened operands have the structures that the flattened structures of the operands are. -/
theorem mem_flatMap_alternatives_iff {operands : List TypeId}
    (known : ∀ m ∈ operands, catalog.types.Knows m) {term : NamedTerm} :
    term ∈ (operands.map catalog.namedTerm).flatMap NamedTerm.alternatives
      ↔ ∃ m ∈ catalog.types.flatten operands, catalog.namedTerm m = term := by
  have wf := closed.wellFormed.types
  simp only [List.mem_flatMap, List.mem_map, TypeTable.mem_flatten]
  constructor
  · rintro ⟨_, ⟨given, mem, rfl⟩, among⟩
    obtain ⟨m, mem', same⟩ := (mem_alternatives_namedTerm_iff wf (known given mem)).1 among
    exact ⟨m, ⟨given, mem, mem'⟩, same⟩
  · rintro ⟨m, ⟨given, mem, mem'⟩, same⟩
    exact ⟨_, ⟨given, mem, rfl⟩,
      (mem_alternatives_namedTerm_iff wf (known given mem)).2 ⟨m, mem', same⟩⟩

section

variable {operands : List TypeId} (known : ∀ m ∈ operands, catalog.types.Knows m)

include known

theorem unknown_mem_alternatives_iff :
    NamedTerm.unknown ∈ (operands.map catalog.namedTerm).flatMap NamedTerm.alternatives
      ↔ TypeId.unknown ∈ catalog.types.flatten operands := by
  have wf := closed.wellFormed.types
  rw [mem_flatMap_alternatives_iff closed known]
  constructor
  · rintro ⟨m, mem, same⟩
    obtain rfl := (namedTerm_eq_intrinsic_iff closed names (wf.of_mem_flatten known mem).1).1 same
    exact mem
  · intro mem
    exact ⟨_, mem, namedTerm_ofIntrinsic wf .unknown⟩

/-- Sorting the members by their ids changes nothing in the set of their structures. -/
theorem toFinset_namedTerm_keptMembers :
    ((operands.map catalog.namedTerm).flatMap NamedTerm.alternatives).toFinset.erase
        NamedTerm.never
      = ((catalog.types.keptMembers operands).map catalog.namedTerm).toFinset := by
  have wf := closed.wellFormed.types
  ext term
  rw [Finset.mem_erase, List.mem_toFinset, mem_flatMap_alternatives_iff closed known,
    List.mem_toFinset, List.mem_map]
  simp only [TypeTable.mem_keptMembers]
  constructor
  · rintro ⟨proper, m, mem, rfl⟩
    refine ⟨m, ⟨mem, ?_⟩, rfl⟩
    rintro rfl
    exact proper (namedTerm_ofIntrinsic wf .never)
  · rintro ⟨m, ⟨mem, proper⟩, rfl⟩
    have known := (wf.of_mem_flatten known mem).1
    exact ⟨fun same => proper ((namedTerm_eq_intrinsic_iff closed names known).1 same),
      m, mem, rfl⟩

theorem nodup_namedTerm_keptMembers :
    ((catalog.types.keptMembers operands).map catalog.namedTerm).Nodup := by
  have knownOf {m : TypeId} (mem : m ∈ catalog.types.keptMembers operands) :
      catalog.types.Knows m :=
    (closed.wellFormed.types.of_mem_flatten known (TypeTable.mem_keptMembers.1 mem).1).1
  refine List.Nodup.map_on (fun m mem m' mem' same => ?_) ?_
  · exact namedTerm_injective closed names (knownOf mem) (knownOf mem') same
  · exact (TypeTable.pairwise_ascending _).imp fun lt same =>
      absurd (congrArg TypeId.index same) (Nat.ne_of_lt lt)

/-- The structure of a union is the union of the structures. -/
theorem namedTerm_of_unionOf (h : catalog.types.UnionOf operands id) :
    catalog.namedTerm id = NamedTerm.unionOf (operands.map catalog.namedTerm) := by
  have wf := closed.wellFormed.types
  have distinct := nodup_namedTerm_keptMembers closed names known
  simp only [NamedTerm.unionOf, List.mem_toFinset,
    unknown_mem_alternatives_iff closed names known,
    toFinset_namedTerm_keptMembers closed names known]
  rcases h.cases with ⟨unknown, rfl⟩ | ⟨other, left⟩
  · rw [if_pos unknown]
    exact namedTerm_ofIntrinsic wf .unknown
  · rw [if_neg other]
    rcases left with ⟨empty, rfl⟩ | single | ⟨several, stored⟩
    · rw [empty, namedTerm_ofIntrinsic wf]
      simp [NamedTerm.ofSet]
    · simp [single, NamedTerm.ofSet]
    · rw [NamedTerm.ofSet_of_two, namedTerm_of_lookup wf stored]
      · rfl
      · rwa [List.toFinset_card_of_nodup distinct, List.length_map]

end

end

end Catalog

end ModelForms
