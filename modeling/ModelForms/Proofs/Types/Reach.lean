import ModelForms.Proofs.Types.Aliases

/-!
# Unfolding a type

`Reaches` goes from a type into the members of a union and from a reference to the body of its
model, any number of times.  A type admits `null` if it reaches `null` or `unknown` in this way.

A property of types is `Additive` over a catalog if it is passed on by both kinds of step and by
nothing else, as `AdmitsNull` is.  Such a property is decided by the alternatives of a type
(`Additive.iff_exists_alternative`), and a type has it if it reaches one that has.
-/

namespace ModelForms

namespace Catalog

/-! ## Additive properties -/

/-- A property of types that a union has exactly if one of its members has it, and a reference
exactly if the body of its model has it. -/
structure Additive (catalog : Catalog) (holds : TypeId → Prop) : Prop
    extends catalog.types.Additive holds where
  reference : ∀ id definition body, catalog.types.referenced? id = some definition →
    catalog.models.body? definition = some body → (holds id ↔ holds body)

namespace Additive

variable {catalog : Catalog} {holds : TypeId → Prop}

theorem iff_of_leadsTo (additive : catalog.Additive holds) {id target : TypeId}
    (h : catalog.LeadsTo id target) : holds id ↔ holds target := by
  induction h with
  | here => exact Iff.rfl
  | onwards reference defined _ ih =>
    exact (additive.reference _ _ _ reference defined).trans ih

/-- A type has an additive property exactly if one of its alternatives has. -/
theorem iff_exists_alternative (additive : catalog.Additive holds) (id : TypeId) :
    holds id ↔ ∃ m ∈ catalog.alternatives id, holds m := by
  rw [additive.iff_of_leadsTo (leadsTo_resolved catalog id)]
  rcases catalog.alternatives_cases id with ⟨_, single⟩ | union
  · simp [single]
  · exact additive.union _ _ union

end Additive

/-! ## Reaching -/

/-- A type reaches another through members of unions and bodies of models. -/
inductive Reaches (catalog : Catalog) : TypeId → TypeId → Prop
  | here (id : TypeId) : Reaches catalog id id
  | member {id m target : TypeId} {members : List TypeId}
      (union : catalog.types.unionMembers? id = some members) (mem : m ∈ members)
      (rest : Reaches catalog m target) : Reaches catalog id target
  | body {id body target : TypeId} {definition : ModelId}
      (reference : catalog.types.referenced? id = some definition)
      (defined : catalog.models.body? definition = some body)
      (rest : Reaches catalog body target) : Reaches catalog id target

section

variable {catalog : Catalog} {id target : TypeId}

theorem Reaches.trans {other : TypeId} (h : catalog.Reaches id target)
    (h' : catalog.Reaches target other) : catalog.Reaches id other := by
  induction h with
  | here => exact h'
  | member union mem _ ih => exact .member union mem (ih h')
  | body reference defined _ ih => exact .body reference defined (ih h')

theorem LeadsTo.reaches (h : catalog.LeadsTo id target) : catalog.Reaches id target := by
  induction h with
  | here id => exact .here id
  | onwards reference defined _ ih => exact .body reference defined ih

theorem reaches_of_mem_alternatives {m : TypeId} (h : m ∈ catalog.alternatives id) :
    catalog.Reaches id m := by
  refine (leadsTo_resolved catalog id).reaches.trans ?_
  rcases catalog.alternatives_cases id with ⟨_, single⟩ | union
  · rw [single, List.mem_singleton] at h
    exact h ▸ .here _
  · exact .member union h (.here m)

/-- An additive property of a type is one of every type that reaches it. -/
theorem Additive.of_reaches {holds : TypeId → Prop} (additive : catalog.Additive holds)
    (h : catalog.Reaches id target) (hh : holds target) : holds id := by
  induction h with
  | here => exact hh
  | member union mem _ ih => exact (additive.union _ _ union).2 ⟨_, mem, ih hh⟩
  | body reference defined _ ih => exact (additive.reference _ _ _ reference defined).2 (ih hh)

/-- An intrinsic type reaches only itself. -/
theorem Reaches.eq_of_intrinsic {k : Intrinsic}
    (h : catalog.Reaches (TypeId.ofIntrinsic k) target) : target = TypeId.ofIntrinsic k := by
  cases h with
  | here => rfl
  | member union => cases k <;> cases union
  | body reference => cases k <;> cases reference

/-- Reaching an intrinsic type is passed on by the steps and by nothing else. -/
theorem reaches_union_iff {k : Intrinsic} {members : List TypeId}
    (union : catalog.types.unionMembers? id = some members) :
    catalog.Reaches id (TypeId.ofIntrinsic k)
      ↔ ∃ m ∈ members, catalog.Reaches m (TypeId.ofIntrinsic k) := by
  refine ⟨fun h => ?_, fun ⟨m, hm, h⟩ => .member union hm h⟩
  cases h with
  | here => cases k <;> cases union
  | member union' mem rest =>
    rw [union] at union'
    cases union'
    exact ⟨_, mem, rest⟩
  | body reference =>
    simp only [TypeTable.unionMembers?_eq_some_iff.1 union, TypeTable.referenced?] at reference
    cases reference

theorem reaches_reference_iff {k : Intrinsic} {definition : ModelId} {body : TypeId}
    (reference : catalog.types.referenced? id = some definition)
    (defined : catalog.models.body? definition = some body) :
    catalog.Reaches id (TypeId.ofIntrinsic k) ↔ catalog.Reaches body (TypeId.ofIntrinsic k) := by
  refine ⟨fun h => ?_, .body reference defined⟩
  cases h with
  | here => cases k <;> cases reference
  | member union =>
    simp only [TypeTable.unionMembers?_eq_some_iff.1 union, TypeTable.referenced?] at reference
    cases reference
  | body reference' defined' rest =>
    rw [reference] at reference'
    cases reference'
    rw [defined] at defined'
    cases defined'
    exact rest

end

/-! ## Admitting null -/

/-- A type admits `null` if unfolding it comes to `null` or to `unknown`. -/
def AdmitsNull (catalog : Catalog) (id : TypeId) : Prop :=
  catalog.Reaches id TypeId.null ∨ catalog.Reaches id TypeId.unknown

theorem AdmitsNull.additive (catalog : Catalog) : catalog.Additive catalog.AdmitsNull where
  unknown := Or.inr (.here _)
  never := fun h => by
    rcases h with h | h
    · cases h.eq_of_intrinsic
    · cases h.eq_of_intrinsic
  union := fun id members union => by
    unfold AdmitsNull
    rw [reaches_union_iff union, reaches_union_iff union]
    simp only [and_or_left, exists_or]
  reference := fun id definition body reference defined => by
    unfold AdmitsNull
    rw [reaches_reference_iff reference defined, reaches_reference_iff reference defined]

/-! ## In a later table -/

theorem GrowsTo.reaches_iff {earlier later : Catalog} (grows : earlier.GrowsTo later)
    (wf : earlier.WellFormed) {id target : TypeId} (known : earlier.types.Knows id) :
    later.Reaches id target ↔ earlier.Reaches id target := by
  constructor
  · intro h
    induction h with
    | here id => exact .here id
    | member union mem _ ih =>
      rw [grows.types.unionMembers?_eq known] at union
      exact .member union mem (ih ((wf.types.normalUnion union).known _ mem))
    | body reference defined _ ih =>
      rw [grows.types.referenced?_eq known] at reference
      rw [grows.models] at defined
      exact .body reference defined (ih (wf.bodies _ _ defined))
  · intro h
    induction h with
    | here id => exact .here id
    | member union mem _ ih =>
      have known' := (wf.types.normalUnion union).known _ mem
      rw [← grows.types.unionMembers?_eq known] at union
      exact .member union mem (ih known')
    | body reference defined _ ih =>
      have known' := wf.bodies _ _ defined
      rw [← grows.types.referenced?_eq known] at reference
      rw [← grows.models] at defined
      exact .body reference defined (ih known')

end Catalog

end ModelForms
