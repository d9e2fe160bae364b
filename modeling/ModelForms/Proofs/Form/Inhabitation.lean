import ModelForms.Form.Matching
import ModelForms.Proofs.Types.Stripping

/-!
# Inhabitation

`Inhabits` is the relation of values and types that matching decides, without the bound on the
levels that matching takes inside each other.  Each way in which a type has a value is one rule.  A
member of an object that is missing is judged by `Catalog.allowsAbsence`, as in matching.

For a fixed value the relation is an additive property of types, so what is known of such properties
holds of it.  It also stays the same when the table grows (`inhabits_iff`).
-/

namespace ModelForms

/-- A value is one of a type. -/
inductive Inhabits (catalog : Catalog) : Json → TypeId → Prop
  | intrinsic {value : Json} {type : TypeId} {k : Intrinsic}
      (found : catalog.types.lookup type = some (.intrinsic k)) (accepts : k.accepts value = true) :
      Inhabits catalog value type
  | literal {value : Json} {type : TypeId} {literal : Literal}
      (found : catalog.types.lookup type = some (.literal literal))
      (accepts : literal.accepts value = true) : Inhabits catalog value type
  | leaf {value : Json} {type : TypeId} {name : String}
      (found : catalog.types.lookup type = some (.leaf name)) (present : value.isNull = false) :
      Inhabits catalog value type
  /-- An object has no members but those of its type, and it has those that may not be missing. -/
  | object {members : Entries Json} {type : TypeId} {properties : List Property}
      (found : catalog.types.lookup type = some (.object properties))
      (suits : ∀ p ∈ properties, ∀ value, members.lookup p.name = some value →
        Inhabits catalog value p.type)
      (complete : ∀ p ∈ properties, members.lookup p.name = none →
        p.optional = true ∨ catalog.allowsAbsence p.type = true)
      (declared : ∀ name ∈ members.keys, ∃ p ∈ properties, p.name = name) :
      Inhabits catalog (.object members) type
  | array {items : List Json} {type element : TypeId}
      (found : catalog.types.lookup type = some (.array element))
      (suits : ∀ item ∈ items, Inhabits catalog item element) :
      Inhabits catalog (.array items) type
  | union {value : Json} {type m : TypeId} {members : List TypeId}
      (found : catalog.types.lookup type = some (.union members)) (mem : m ∈ members)
      (inhabits : Inhabits catalog value m) : Inhabits catalog value type
  | reference {value : Json} {type body : TypeId} {definition : ModelId}
      (found : catalog.types.lookup type = some (.reference definition))
      (defined : catalog.models.body? definition = some body)
      (inhabits : Inhabits catalog value body) : Inhabits catalog value type

namespace Inhabits

variable {catalog : Catalog} {value : Json}

/-! ## As a property of types -/

theorem intrinsic_iff {type : TypeId} {k : Intrinsic}
    (found : catalog.types.lookup type = some (.intrinsic k)) :
    Inhabits catalog value type ↔ k.accepts value = true := by
  refine ⟨fun h => ?_, .intrinsic found⟩
  cases h with
  | intrinsic found' accepts =>
    rw [found] at found'
    cases found'
    exact accepts
  | literal found' | leaf found' | object found' | array found' | union found'
  | reference found' =>
    rw [found] at found'
    cases found'

theorem union_iff {type : TypeId} {members : List TypeId}
    (found : catalog.types.lookup type = some (.union members)) :
    Inhabits catalog value type ↔ ∃ m ∈ members, Inhabits catalog value m := by
  refine ⟨fun h => ?_, fun ⟨m, hm, h⟩ => .union found hm h⟩
  cases h with
  | union found' mem inhabits =>
    rw [found] at found'
    cases found'
    exact ⟨_, mem, inhabits⟩
  | intrinsic found' | literal found' | leaf found' | object found' | array found'
  | reference found' =>
    rw [found] at found'
    cases found'

theorem reference_iff {type body : TypeId} {definition : ModelId}
    (found : catalog.types.lookup type = some (.reference definition))
    (defined : catalog.models.body? definition = some body) :
    Inhabits catalog value type ↔ Inhabits catalog value body := by
  refine ⟨fun h => ?_, .reference found defined⟩
  cases h with
  | reference found' defined' inhabits =>
    rw [found] at found'
    cases found'
    rw [defined] at defined'
    cases defined'
    exact inhabits
  | intrinsic found' | literal found' | leaf found' | object found' | array found'
  | union found' =>
    rw [found] at found'
    cases found'

/-- Having a given value is an additive property of types. -/
theorem additive (catalog : Catalog) (value : Json) : catalog.Additive (Inhabits catalog value) where
  unknown := (intrinsic_iff (k := .unknown) rfl).2 rfl
  never := fun h => by
    have := (intrinsic_iff (k := .never) rfl).1 h
    cases value <;> cases this
  union := fun _ _ h => union_iff (TypeTable.unionMembers?_eq_some_iff.1 h)
  reference := fun _ _ _ h defined =>
    reference_iff (TypeTable.referenced?_eq_some_iff.1 h) defined

end Inhabits

/-! ## In a later table -/

namespace Catalog.GrowsTo

variable {earlier later : Catalog}

theorem allowsAbsence_eq (grows : earlier.GrowsTo later) (wf : earlier.WellFormed) {type : TypeId}
    (known : earlier.types.Knows type) :
    later.allowsAbsence type = earlier.allowsAbsence type := by
  simp only [allowsAbsence, grows.resolved_eq wf known,
    grows.types.unionMembers?_eq (wf.knows_resolved known)]

/-- Absence that is allowed stays allowed, whatever else is known. -/
theorem allowsAbsence (grows : earlier.GrowsTo later) {type : TypeId}
    (h : earlier.allowsAbsence type = true) : later.allowsAbsence type = true := by
  have ends : earlier.types.Knows (earlier.resolved type)
      ∧ earlier.types.referenced? (earlier.resolved type) = none := by
    simp only [Catalog.allowsAbsence] at h
    split at h
    next members union =>
      have found := TypeTable.unionMembers?_eq_some_iff.1 union
      exact ⟨TypeTable.knows_of_lookup found, by simp [TypeTable.referenced?, found]⟩
    next =>
      simp only [Bool.or_eq_true, beq_iff_eq] at h
      rcases h with h | h
      · rw [h]
        exact ⟨TypeTable.knows_intrinsic _ .undefined, rfl⟩
      · rw [h]
        exact ⟨TypeTable.knows_intrinsic _ .unknown, rfl⟩
  have same : later.resolved type = earlier.resolved type := by
    unfold Catalog.resolved at ends ⊢
    cases hresolve : earlier.resolve type with
    | ok target =>
      simp only [hresolve] at ends
      rw [grows.resolve_eq_ok ends.1 hresolve]
    | error definition =>
      simp only [hresolve] at ends
      rw [resolve_of_referenced?_eq_none ends.2] at hresolve
      cases hresolve
  simp only [Catalog.allowsAbsence] at h ⊢
  rw [same, grows.types.unionMembers?_eq ends.1]
  exact h

/-- A value of a type stays one. -/
theorem inhabits (grows : earlier.GrowsTo later) {value : Json} {type : TypeId}
    (h : Inhabits earlier value type) : Inhabits later value type := by
  induction h with
  | intrinsic found accepts => exact .intrinsic (grows.types.lookup found) accepts
  | literal found accepts => exact .literal (grows.types.lookup found) accepts
  | leaf found present => exact .leaf (grows.types.lookup found) present
  | object found suits complete declared ih =>
    exact .object (grows.types.lookup found) ih
      (fun p hp hv => (complete p hp hv).imp_right grows.allowsAbsence) declared
  | array found suits ih => exact .array (grows.types.lookup found) ih
  | union found mem _ ih => exact .union (grows.types.lookup found) mem ih
  | reference found defined _ ih =>
    exact .reference (grows.types.lookup found) (by rw [grows.models]; exact defined) ih

/-- A known type has the same values in a later table. -/
theorem inhabits_iff (grows : earlier.GrowsTo later) (wf : earlier.WellFormed) {value : Json}
    {type : TypeId} (known : earlier.types.Knows type) :
    Inhabits later value type ↔ Inhabits earlier value type := by
  refine ⟨fun h => ?_, grows.inhabits⟩
  induction h with
  | intrinsic found accepts =>
    rw [grows.types.lookup_eq known] at found
    exact .intrinsic found accepts
  | literal found accepts =>
    rw [grows.types.lookup_eq known] at found
    exact .literal found accepts
  | leaf found present =>
    rw [grows.types.lookup_eq known] at found
    exact .leaf found present
  | @object members type properties found suits complete declared ih =>
    rw [grows.types.lookup_eq known] at found
    have part {p : Property} (hp : p ∈ properties) : earlier.types.Knows p.type :=
      wf.types.knows_part found (List.mem_map_of_mem hp)
    refine .object found (fun p hp v hv => ih p hp v hv (part hp)) (fun p hp hv => ?_) declared
    rw [← grows.allowsAbsence_eq wf (part hp)]
    exact complete p hp hv
  | array found suits ih =>
    rw [grows.types.lookup_eq known] at found
    exact .array found fun item hi =>
      ih item hi (wf.types.knows_part found (List.mem_singleton_self _))
  | union found mem _ ih =>
    rw [grows.types.lookup_eq known] at found
    exact .union found mem (ih (wf.types.knows_part found mem))
  | reference found defined _ ih =>
    rw [grows.types.lookup_eq known] at found
    rw [grows.models] at defined
    exact .reference found defined (ih (wf.bodies _ _ defined))

end Catalog.GrowsTo

end ModelForms
