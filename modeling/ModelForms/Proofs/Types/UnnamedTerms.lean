import ModelForms.Proofs.Types.NamedLaws

/-!
# Terms without a name

`NamedTerm.unnamed` puts a type in the place of every reference to one model.  A member of a union
may be a union afterwards, or the same as another member, so the union is made again of what its
members have become.  With that it makes no difference whether a name goes before a union is made or
after (`NamedTerm.unnamed_unionOf`), and neither for the ways of composing properties.
-/

namespace ModelForms

namespace NamedTerm

variable {name : String} {type term m : NamedTerm} {terms before : List NamedTerm}

mutual

/-- A term with a type in the place of the references to one model. -/
noncomputable def unnamed (name : String) (type : NamedTerm) : NamedTerm → NamedTerm
  | .intrinsic k => .intrinsic k
  | .literal value => .literal value
  | .leaf leafName => .leaf leafName
  | .object properties => .object (unnamedProperties name type properties)
  | .array element => .array (unnamed name type element)
  | .union members => unionOf (unnamedMembers name type members)
  | .reference model => if model = name then type else .reference model
termination_by structural term => term

/-- Properties with a type in the place of the references to one model. -/
noncomputable def unnamedProperties (name : String) (type : NamedTerm) :
    List ((String × Bool) × NamedTerm) → List ((String × Bool) × NamedTerm)
  | [] => []
  | (label, term) :: rest => (label, unnamed name type term) :: unnamedProperties name type rest
termination_by structural properties => properties

/-- Members of a union with a type in the place of the references to one model. -/
noncomputable def unnamedMembers (name : String) (type : NamedTerm) :
    List NamedTerm → List NamedTerm
  | [] => []
  | m :: rest => unnamed name type m :: unnamedMembers name type rest
termination_by structural members => members

end

theorem unnamedMembers_eq (members : List NamedTerm) :
    unnamedMembers name type members = members.map (unnamed name type) := by
  induction members with
  | nil => rfl
  | cons m rest ih => rw [unnamedMembers, ih, List.map_cons]

theorem unnamed_union (members : List NamedTerm) :
    unnamed name type (.union members) = unionOf (members.map (unnamed name type)) := by
  rw [unnamed, unnamedMembers_eq]

theorem unnamed_reference_self : unnamed name type (.reference name) = type := by
  rw [unnamed, if_pos rfl]

theorem unnamed_reference {model : String} (other : model ≠ name) :
    unnamed name type (.reference model) = .reference model := by
  rw [unnamed, if_neg other]

/-- Nothing but the name and unions may become a union. -/
theorem unnamed_ne_union (proper : ∀ members, term ≠ .union members)
    (other : term ≠ .reference name) (members : List NamedTerm) :
    unnamed name type term ≠ .union members := by
  cases term with
  | union members => exact absurd rfl (proper members)
  | reference model =>
    have other : model ≠ name := fun same => other (same ▸ rfl)
    rw [unnamed_reference other]
    simp
  | _ => simp [unnamed]

/-- Nothing but the name and unions may become an intrinsic type. -/
theorem unnamed_eq_intrinsic_iff (proper : ∀ members, term ≠ .union members)
    (other : term ≠ .reference name) {k : Intrinsic} :
    unnamed name type term = .intrinsic k ↔ term = .intrinsic k := by
  cases term with
  | union members => exact absurd rfl (proper members)
  | reference model =>
    have other : model ≠ name := fun same => other (same ▸ rfl)
    rw [unnamed_reference other]
  | _ => simp [unnamed]

mutual

/-- Without the name there are no unions in unions, if the type is regular. -/
theorem regular_unnamed (regular : Regular type) :
    ∀ term : NamedTerm, Regular (unnamed name type term)
  | .intrinsic _ | .literal _ | .leaf _ | .object _ | .array _ => by
    unfold unnamed
    exact regular_of_ne_union (by simp)
  | .union members => by
    unfold unnamed
    exact regular_unionOf fun m mem => (regular_unnamedMembers regular members m mem).flat
  | .reference model => by
    unfold unnamed
    split
    · exact regular
    · exact regular_of_ne_union (by simp)
termination_by structural term => term

theorem regular_unnamedMembers (regular : Regular type) :
    ∀ members : List NamedTerm, ∀ m ∈ unnamedMembers name type members, Regular m
  | [] => by simp [unnamedMembers]
  | m :: rest =>
    List.forall_mem_cons.2 ⟨regular_unnamed regular m, regular_unnamedMembers regular rest⟩
termination_by structural members => members

end

/-- Unions may be taken apart before a name goes, instead of afterwards. -/
theorem unionOf_map_unnamed (regular : Regular type) (terms before : List NamedTerm) :
    unionOf (before ++ terms.map (unnamed name type))
      = unionOf (before ++ (flattened terms).map (unnamed name type)) := by
  have flat (members : List NamedTerm) : ∀ m ∈ members.map (unnamed name type), Flat m := by
    intro m mem
    obtain ⟨given, _, rfl⟩ := List.mem_map.1 mem
    exact (regular_unnamed regular given).flat
  induction terms generalizing before with
  | nil => rfl
  | cons term rest ih =>
    have apart : flattened (term :: rest) = term.alternatives ++ flattened rest := rfl
    rw [apart, List.map_cons, List.map_append]
    cases term with
    | union members =>
      rw [unnamed_union, unionOf_group (flat members)]
      simpa [alternatives] using ih (before ++ members.map (unnamed name type))
    | _ => simpa [alternatives] using ih (before ++ [unnamed name type _])

/-- It makes no difference whether a name goes before a union is made or after. -/
theorem unnamed_unionOf (regular : Regular type) (terms : List NamedTerm) :
    unnamed name type (unionOf terms) = unionOf (terms.map (unnamed name type)) := by
  have apart := @unionOf_map_unnamed name type regular terms []
  rw [List.nil_append, List.nil_append] at apart
  rw [apart, unionOf_eq terms]
  generalize flattened terms = members
  have mem_iff (given : List NamedTerm) (m : NamedTerm) :
      m ∈ flattened (given.map (unnamed name type))
        ↔ ∃ term ∈ given, m ∈ (unnamed name type term).alternatives := by
    simp [flattened]
  split
  next mem =>
    have absorbs : unknown ∈ flattened (members.map (unnamed name type)) :=
      (mem_iff members unknown).2 ⟨unknown, mem, by simp [unnamed, alternatives]⟩
    rw [unionOf_eq, if_pos absorbs, unnamed]
  next known =>
    have made (kept : Finset NamedTerm) :
        unnamed name type (ofSet kept) = unionOf (kept.toList.map (unnamed name type)) := by
      unfold ofSet
      rcases kept.toList with _ | ⟨only, _ | ⟨second, rest⟩⟩
      · simp [unnamed, unionOf_eq, flattened, ofSet]
      · exact (regular_unnamed regular only).whole.symm
      · exact unnamed_union _
    -- All that is left out is `never`, which remains what it is.
    have same (m : NamedTerm) (proper : m ≠ never) :
        m ∈ flattened (((members.toFinset.erase never).toList).map (unnamed name type))
          ↔ m ∈ flattened (members.map (unnamed name type)) := by
      rw [mem_iff, mem_iff]
      simp only [Finset.mem_toList, Finset.mem_erase, List.mem_toFinset]
      refine exists_congr fun term => ?_
      by_cases empty : term = never
      · subst empty
        simp [unnamed, alternatives, proper]
      · simp [empty]
    rw [made]
    exact unionOf_congr (same unknown (by simp)) fun _ m proper => same m proper

/-- The members of a union are those of its members, or it is `unknown` or `never`. -/
theorem mem_flattened_of_mem_alternatives (flat : ∀ term ∈ terms, Flat term)
    (mem : m ∈ (unionOf terms).alternatives) (notUnknown : m ≠ unknown) (notNever : m ≠ never) :
    m ∈ flattened terms := by
  by_cases known : unknown ∈ flattened terms
  · rw [unionOf_eq, if_pos known] at mem
    exact absurd (List.mem_singleton.1 mem) notUnknown
  · exact (mem_alternatives_unionOf_iff flat known notNever).1 mem

end NamedTerm

namespace NamedProperties

variable {f : NamedTerm → NamedTerm} {properties base extra : NamedProperties}

/-- Properties of the same names and flags, with other types. -/
def mapTypes (f : NamedTerm → NamedTerm) (properties : NamedProperties) : NamedProperties :=
  properties.map fun p => (p.1, f p.2)

theorem mapTypes_allOptional :
    (properties.allOptional).mapTypes f = allOptional (properties.mapTypes f) := by
  simp [mapTypes, allOptional]

theorem mapTypes_without (names : List String) :
    (properties.without names).mapTypes f = without names (properties.mapTypes f) := by
  simp [mapTypes, without, List.filter_map, Function.comp_def]

theorem mapTypes_only (names : List String) :
    (properties.only names).mapTypes f = only names (properties.mapTypes f) := by
  simp [mapTypes, only, List.filter_map, Function.comp_def]

theorem mapTypes_merge :
    (base.merge extra).mapTypes f = merge (base.mapTypes f) (extra.mapTypes f) := by
  have replaced (p : (String × Bool) × NamedTerm) :
      ((replaced extra p).1, f (replaced extra p).2)
        = replaced (extra.mapTypes f) (p.1, f p.2) := by
    rw [NamedProperties.replaced, NamedProperties.replaced, mapTypes, List.find?_map,
      Function.comp_def]
    cases extra.find? fun q => q.1.1 = p.1.1 <;> rfl
  have names : (base.mapTypes f).map (·.1.1) = base.map (·.1.1) := by
    simp [mapTypes, Function.comp_def]
  rw [merge_eq, merge_eq, names]
  simp only [mapTypes, List.map_append, List.map_map, List.filter_map, Function.comp_def, replaced]

end NamedProperties

namespace NamedTerm

theorem unnamed_object {name : String} {type : NamedTerm} (properties : NamedProperties) :
    unnamed name type (.object properties) = .object (properties.mapTypes (unnamed name type)) := by
  rw [unnamed]
  congr 1
  induction properties with
  | nil => rfl
  | cons p rest ih =>
    rw [unnamedProperties, ih]
    rfl

end NamedTerm

end ModelForms
