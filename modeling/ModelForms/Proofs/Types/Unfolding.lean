import Mathlib.Data.Finset.Card
import ModelForms.Proofs.Types.Reach

/-!
# The length of unfoldings

`UnfoldsIn` counts the steps of an unfolding: each goes into a member of a union or from a reference
to the body of its model.  In a catalog that `UnfoldsWithin` some steps every type comes to what it
comes to at all within so many.

Each well-formed catalog does so within two steps for each model and one more
(`WellFormed.unfoldsWithin`).  The members of a union are no unions, so a reference comes with the
next step or the one after it.  And no model is needed twice: what is reached from a body through
its model is reached from the last body of that model without it (`ReachesVia.erase`).
-/

namespace ModelForms

namespace Catalog

/-- A type comes to another in some steps. -/
inductive UnfoldsIn (catalog : Catalog) : Nat → TypeId → TypeId → Prop
  | here (id : TypeId) : UnfoldsIn catalog 0 id id
  | member {steps : Nat} {id m target : TypeId} {members : List TypeId}
      (union : catalog.types.unionMembers? id = some members) (mem : m ∈ members)
      (rest : UnfoldsIn catalog steps m target) : UnfoldsIn catalog (steps + 1) id target
  | body {steps : Nat} {id body target : TypeId} {definition : ModelId}
      (reference : catalog.types.referenced? id = some definition)
      (defined : catalog.models.body? definition = some body)
      (rest : UnfoldsIn catalog steps body target) : UnfoldsIn catalog (steps + 1) id target

/-- Whatever a type comes to, it comes to within some steps. -/
def UnfoldsWithin (catalog : Catalog) (steps : Nat) : Prop :=
  ∀ id target, catalog.Reaches id target → ∃ n ≤ steps, catalog.UnfoldsIn n id target

/-- A type comes to another through references to some models only. -/
inductive ReachesVia (catalog : Catalog) (models : Finset ModelId) : TypeId → TypeId → Prop
  | here (id : TypeId) : ReachesVia catalog models id id
  | member {id m target : TypeId} {members : List TypeId}
      (union : catalog.types.unionMembers? id = some members) (mem : m ∈ members)
      (rest : ReachesVia catalog models m target) : ReachesVia catalog models id target
  | body {id body target : TypeId} {definition : ModelId} (among : definition ∈ models)
      (reference : catalog.types.referenced? id = some definition)
      (defined : catalog.models.body? definition = some body)
      (rest : ReachesVia catalog models body target) : ReachesVia catalog models id target

section

variable {catalog : Catalog} {id target : TypeId} {models : Finset ModelId}

theorem UnfoldsIn.trans {first second : Nat} {via : TypeId} (h : catalog.UnfoldsIn first id via)
    (h' : catalog.UnfoldsIn second via target) : catalog.UnfoldsIn (first + second) id target := by
  induction h with
  | here =>
    rw [Nat.zero_add]
    exact h'
  | member union mem _ ih =>
    rw [Nat.add_right_comm]
    exact .member union mem (ih h')
  | body reference defined _ ih =>
    rw [Nat.add_right_comm]
    exact .body reference defined (ih h')

/-! ## Leaving a model out -/

/-- What is reached through a model is reached from its body without it, unless it was not needed in
the first place. -/
theorem ReachesVia.erase (h : catalog.ReachesVia models id target) {definition : ModelId}
    {body : TypeId} (defined : catalog.models.body? definition = some body) :
    catalog.ReachesVia (models.erase definition) id target
      ∨ catalog.ReachesVia (models.erase definition) body target := by
  induction h with
  | here id => exact Or.inl (.here id)
  | member union mem _ ih => exact ih.imp_left (.member union mem)
  | @body _ other _ used among reference defined' _ ih =>
    by_cases same : used = definition
    · subst same
      rw [defined] at defined'
      cases defined'
      exact Or.inr (or_self_iff.1 ih)
    · exact ih.imp_left (.body (Finset.mem_erase.2 ⟨same, among⟩) reference defined')

/-- Within one step a type comes to where it goes or to a reference on the way. -/
theorem ReachesVia.first (wf : catalog.WellFormed) (h : catalog.ReachesVia models id target) :
    ∃ n ≤ 1, ∃ via, catalog.UnfoldsIn n id via ∧ (via = target
      ∨ ∃ definition ∈ models, ∃ body, catalog.types.referenced? via = some definition
        ∧ catalog.models.body? definition = some body
        ∧ catalog.ReachesVia models body target) := by
  cases h with
  | here => exact ⟨0, Nat.zero_le 1, id, .here id, Or.inl rfl⟩
  | body among reference defined rest =>
    exact ⟨0, Nat.zero_le 1, id, .here id, Or.inr ⟨_, among, _, reference, defined, rest⟩⟩
  | @member _ m _ _ union mem rest =>
    refine ⟨1, Nat.le_refl 1, m, .member union mem (.here m), ?_⟩
    cases rest with
    | here => exact Or.inl rfl
    | member inner =>
      rw [(wf.types.normalUnion union).flat m mem] at inner
      cases inner
    | body among reference defined rest =>
      exact Or.inr ⟨_, among, _, reference, defined, rest⟩

/-- The induction is on the models, each of which is used once. -/
theorem ReachesVia.exists_unfoldsIn (wf : catalog.WellFormed)
    (h : catalog.ReachesVia models id target) :
    ∃ n ≤ 2 * models.card + 1, catalog.UnfoldsIn n id target := by
  induction models using Finset.strongInduction generalizing id with
  | H models ih =>
    obtain ⟨n, le, via, first, rfl | ⟨definition, among, body, reference, defined, rest⟩⟩ :=
      h.first wf
    · exact ⟨n, by omega, first⟩
    · have without : catalog.ReachesVia (models.erase definition) body target :=
        or_self_iff.1 (rest.erase defined)
      obtain ⟨m, le', last⟩ := ih _ (Finset.erase_ssubset among) without
      have card := Finset.card_erase_add_one among
      exact ⟨n + (m + 1), by omega, first.trans (.body reference defined last)⟩

/-! ## All models -/

/-- The handles that were given out. -/
def handles (catalog : Catalog) : Finset ModelId :=
  (Finset.range catalog.models.size).image fun i => ⟨i + 1⟩

theorem mem_handles_of_body? {definition : ModelId} {body : TypeId}
    (defined : catalog.models.body? definition = some body) : definition ∈ catalog.handles := by
  unfold Definitions.body? Definitions.get? at defined
  rcases definition with ⟨_ | i⟩
  · cases defined
  · refine Finset.mem_image.2 ⟨i, Finset.mem_range.2 ?_, rfl⟩
    obtain ⟨entry, found, _⟩ := Option.bind_eq_some_iff.1 defined
    exact (List.getElem?_eq_some_iff.1 found).1

theorem Reaches.via_handles (h : catalog.Reaches id target) :
    catalog.ReachesVia catalog.handles id target := by
  induction h with
  | here id => exact .here id
  | member union mem _ ih => exact .member union mem ih
  | body reference defined _ ih => exact .body (mem_handles_of_body? defined) reference defined ih

/-- A well-formed catalog unfolds within two steps for each model and one more. -/
theorem WellFormed.unfoldsWithin (wf : catalog.WellFormed) :
    catalog.UnfoldsWithin (2 * catalog.models.size + 1) := by
  intro id target reaches
  obtain ⟨n, le, steps⟩ := reaches.via_handles.exists_unfoldsIn wf
  have card : catalog.handles.card ≤ catalog.models.size :=
    Finset.card_image_le.trans (Finset.card_range _).le
  exact ⟨n, by omega, steps⟩

end

end Catalog

end ModelForms
