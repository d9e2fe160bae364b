import ModelForms.Proofs.Entries
import ModelForms.Proofs.Form.Levels
import ModelForms.Proofs.Types.Unfolding

/-!
# The levels that a nested value takes

Matching counts levels.  Each array and each object of a value takes one, and so does each union and
each reference that is unfolded to get to the type of an array, an object or anything else that a
value may be.  The nesting of a value says nothing of the latter.

Where every type unfolds within some steps, those steps and one more are enough for each level of a
value.  So a value that nests `n` deep is matched within `n + 1` times as many levels
(`inhabitsWithin_of_nesting`).  Where this is no more than a match may take, the bound on matching
refuses none of the values of a type (`accepts_iff_of_unfoldsWithin`).

Nothing better holds.  A model that is `null` or an array of itself unfolds within two steps, and it
takes three levels for each array around `null` and three for `null` itself
(`inhabitsWithin_wrapped_iff`).
-/

namespace ModelForms

/-! ## Nesting -/

namespace Json

mutual

/-- How many arrays and objects stand inside each other in a value. -/
def nesting : Json → Nat
  | .null | .bool _ | .number _ | .string _ => 0
  | .array items => nestingOfItems items + 1
  | .object members => nestingOfMembers members + 1
termination_by structural value => value

/-- The nesting of the most nested of some items. -/
def nestingOfItems : List Json → Nat
  | [] => 0
  | item :: rest => max (nesting item) (nestingOfItems rest)
termination_by structural items => items

/-- The nesting of the most nested of the values of some members. -/
def nestingOfMembers : List (String × Json) → Nat
  | [] => 0
  | (_, value) :: rest => max (nesting value) (nestingOfMembers rest)
termination_by structural members => members

end

theorem nesting_lt_array {item : Json} {items : List Json} (mem : item ∈ items) :
    item.nesting < (Json.array items).nesting := by
  refine Nat.lt_succ_of_le ?_
  induction items with
  | nil => cases mem
  | cons first rest ih =>
    rcases List.mem_cons.1 mem with rfl | mem
    · exact Nat.le_max_left _ _
    · exact (ih mem).trans (Nat.le_max_right _ _)

theorem nesting_lt_object {value : Json} {members : Entries Json} {name : String}
    (mem : (name, value) ∈ members) : value.nesting < (Json.object members).nesting := by
  refine Nat.lt_succ_of_le ?_
  induction members with
  | nil => cases mem
  | cons first rest ih =>
    rcases List.mem_cons.1 mem with rfl | mem
    · exact Nat.le_max_left _ _
    · exact (ih mem).trans (Nat.le_max_right _ _)

end Json

namespace Catalog

section

variable {catalog : Catalog} {value : Json} {type : TypeId}

/-! ## Getting to the type of a value -/

/-- A value is one of a type that is unfolded as far as it goes. -/
theorem exists_reaches_of_inhabits (inhabits : Inhabits catalog value type) :
    ∃ target, catalog.Reaches type target ∧ Inhabits catalog value target
      ∧ catalog.types.unionMembers? target = none ∧ catalog.types.referenced? target = none := by
  have stays {type : TypeId} {value : Json} {entry : TypeEntry}
      (found : catalog.types.lookup type = some entry) (inhabits : Inhabits catalog value type)
      (notUnion : ∀ members, entry ≠ .union members)
      (notReference : ∀ definition, entry ≠ .reference definition) :
      ∃ target, catalog.Reaches type target ∧ Inhabits catalog value target
        ∧ catalog.types.unionMembers? target = none
        ∧ catalog.types.referenced? target = none := by
    refine ⟨type, .here type, inhabits, ?_, ?_⟩
    · refine Option.eq_none_iff_forall_ne_some.2 fun members union => notUnion members ?_
      exact Option.some.inj (found.symm.trans (TypeTable.unionMembers?_eq_some_iff.1 union))
    · refine Option.eq_none_iff_forall_ne_some.2 fun definition reference =>
        notReference definition ?_
      exact Option.some.inj (found.symm.trans (TypeTable.referenced?_eq_some_iff.1 reference))
  induction inhabits with
  | intrinsic found accepts => exact stays found (.intrinsic found accepts) nofun nofun
  | literal found accepts => exact stays found (.literal found accepts) nofun nofun
  | leaf found present => exact stays found (.leaf found present) nofun nofun
  | object found suits complete declared =>
    exact stays found (.object found suits complete declared) nofun nofun
  | array found suits => exact stays found (.array found suits) nofun nofun
  | union found mem _ ih =>
    obtain ⟨target, reaches, rest⟩ := ih
    exact ⟨target, .member (TypeTable.unionMembers?_eq_some_iff.2 found) mem reaches, rest⟩
  | reference found defined _ ih =>
    obtain ⟨target, reaches, rest⟩ := ih
    exact ⟨target, .body (TypeTable.referenced?_eq_some_iff.2 found) defined reaches, rest⟩

/-- Each step of an unfolding takes one level. -/
theorem UnfoldsIn.inhabitsWithin {steps levels : Nat} {target : TypeId}
    (unfolds : catalog.UnfoldsIn steps type target)
    (inhabits : catalog.InhabitsWithin levels value target) :
    catalog.InhabitsWithin (levels + steps) value type := by
  induction unfolds with
  | here => exact inhabits
  | member union mem _ ih =>
    rw [← Nat.add_assoc, InhabitsWithin, Suits, TypeTable.unionMembers?_eq_some_iff.1 union]
    exact ⟨_, mem, ih inhabits⟩
  | body reference defined _ ih =>
    rw [← Nat.add_assoc, InhabitsWithin, Suits, TypeTable.referenced?_eq_some_iff.1 reference]
    exact ⟨_, defined, ih inhabits⟩

/-! ## Levels for each level of a value -/

/-- One level of a value, where the type needs no unfolding and the parts of the value have their
levels. -/
theorem inhabitsWithin_succ {levels depth : Nat} (deep : value.nesting ≤ depth)
    (below : ∀ part type, part.nesting < depth → Inhabits catalog part type →
      catalog.InhabitsWithin levels part type)
    (inhabits : Inhabits catalog value type) (notUnion : catalog.types.unionMembers? type = none)
    (notReference : catalog.types.referenced? type = none) :
    catalog.InhabitsWithin (levels + 1) value type := by
  cases inhabits with
  | intrinsic found accepts | literal found accepts | leaf found accepts =>
    rw [InhabitsWithin, Suits, found]
    exact accepts
  | object found suits complete declared =>
    refine (suits_object_iff found).2
      ⟨_, rfl, fun p hp => ⟨fun v hv => ?_, complete p hp⟩, declared⟩
    exact below v p.type ((Json.nesting_lt_object (Entries.mem_of_lookup hv)).trans_le deep)
      (suits p hp v hv)
  | array found suits =>
    refine (suits_array_iff found).2 ⟨_, rfl, fun item hitem => ?_⟩
    exact below item _ ((Json.nesting_lt_array hitem).trans_le deep) (suits item hitem)
  | union found =>
    rw [TypeTable.unionMembers?_eq_some_iff.2 found] at notUnion
    cases notUnion
  | reference found =>
    rw [TypeTable.referenced?_eq_some_iff.2 found] at notReference
    cases notReference

/-- The induction is on the nesting: each level of the value takes its own level after those of an
unfolding. -/
theorem inhabitsWithin_of_nesting {steps : Nat} (unfolds : catalog.UnfoldsWithin steps) :
    ∀ (depth : Nat) {value : Json} {type : TypeId}, value.nesting < depth →
      Inhabits catalog value type → catalog.InhabitsWithin (depth * (steps + 1)) value type
  | 0, _, _, deep, _ => absurd deep (Nat.not_lt_zero _)
  | depth + 1, value, type, deep, inhabits => by
    obtain ⟨target, reaches, inhabits, notUnion, notReference⟩ :=
      exists_reaches_of_inhabits inhabits
    obtain ⟨n, le, unfolding⟩ := unfolds type target reaches
    have level : catalog.InhabitsWithin (depth * (steps + 1) + 1) value target :=
      inhabitsWithin_succ (Nat.le_of_lt_succ deep)
        (fun _ _ => inhabitsWithin_of_nesting unfolds depth) inhabits notUnion notReference
    refine (unfolding.inhabitsWithin level).mono ?_
    rw [Nat.succ_mul]
    omega

/-- A well-formed catalog unfolds within some steps.  Where those and one more for each level of a
value are no more than a match may take, a type accepts just the values that are its own. -/
theorem accepts_iff_of_unfoldsWithin (wf : catalog.WellFormed) :
    catalog.UnfoldsWithin (2 * catalog.models.size + 1)
    ∧ ∀ steps, catalog.UnfoldsWithin steps → ∀ (value : Json) (type : TypeId),
      (value.nesting + 1) * (steps + 1) ≤ 128 →
      (catalog.accepts value type = true ↔ Inhabits catalog value type) := by
  refine ⟨wf.unfoldsWithin, fun steps unfolds value type bound => ⟨inhabits_of_accepts, ?_⟩⟩
  intro inhabits
  have within := inhabitsWithin_of_nesting unfolds _ (Nat.lt_succ_self _) inhabits
  exact accepts_iff.2 (within.mono bound)

end

/-! ## Arrays around `null` -/

/-- The types of one model, `Nest`, which is `null` or an array of itself. -/
def nest : Catalog where
  types.entries := [.reference ⟨1⟩, .array ⟨100⟩, .union [TypeId.null, ⟨101⟩]]
  types.names := .builtin
  models.entries := [⟨"Nest", some ⟨102⟩⟩]

theorem members_nest {id : TypeId} {members : List TypeId}
    (union : nest.types.unionMembers? id = some members) : members = [TypeId.null, ⟨101⟩] := by
  have mem := TypeTable.mem_entries_of_lookup (TypeTable.unionMembers?_eq_some_iff.1 union) nofun
  simpa [nest] using mem

theorem definition_nest {id : TypeId} {definition : ModelId}
    (reference : nest.types.referenced? id = some definition) : definition = ⟨1⟩ := by
  have mem :=
    TypeTable.mem_entries_of_lookup (TypeTable.referenced?_eq_some_iff.1 reference) nofun
  simpa [nest] using mem

/-- `Nest` unfolds into a union and then into one of its members. -/
theorem unfoldsWithin_nest : nest.UnfoldsWithin 2 := by
  have ends {m target : TypeId} (mem : m ∈ [TypeId.null, ⟨101⟩])
      (reaches : nest.Reaches m target) : target = m := by
    rcases List.mem_cons.1 mem with rfl | mem
    · exact reaches.eq_of_intrinsic (k := .null)
    · cases List.mem_singleton.1 mem
      cases reaches with
      | here => rfl
      | member union => cases union
      | body reference => cases reference
  intro id target reaches
  cases reaches with
  | here => exact ⟨0, Nat.zero_le 2, .here id⟩
  | member union mem rest =>
    cases members_nest union
    cases ends mem rest
    exact ⟨1, by decide, .member union mem (.here _)⟩
  | body reference defined rest =>
    cases definition_nest reference
    cases defined
    cases rest with
    | here => exact ⟨1, by decide, .body reference rfl (.here _)⟩
    | member union mem rest =>
      cases members_nest union
      cases ends mem rest
      exact ⟨2, Nat.le_refl 2, .body reference rfl (.member union mem (.here _))⟩
    | body again => cases again

/-- `null` in some arrays that stand inside each other. -/
def wrapped : Nat → Json
  | 0 => .null
  | n + 1 => .array [wrapped n]
termination_by structural n => n

theorem nesting_wrapped : (n : Nat) → (wrapped n).nesting = n
  | 0 => rfl
  | n + 1 => by
    show max (wrapped n).nesting 0 + 1 = n + 1
    rw [Nat.max_zero, nesting_wrapped n]

theorem inhabits_wrapped : (n : Nat) → Inhabits nest (wrapped n) ⟨100⟩
  | 0 => .reference rfl rfl (.union rfl List.mem_cons_self (.intrinsic (k := .null) rfl rfl))
  | n + 1 => by
    have items : Inhabits nest (wrapped (n + 1)) ⟨101⟩ :=
      .array rfl fun _ mem => List.mem_singleton.1 mem ▸ inhabits_wrapped n
    exact .reference rfl rfl (.union rfl (List.mem_cons_of_mem _ List.mem_cons_self) items)

/-- In forty-one arrays `null` is accepted as a `Nest`. -/
theorem accepts_iff_of_unfoldsWithin_nest :
    nest.UnfoldsWithin 2 ∧ ((wrapped 41).nesting + 1) * (2 + 1) ≤ 128
      ∧ nest.accepts (wrapped 41) ⟨100⟩ = true := by
  have bound : ((wrapped 41).nesting + 1) * (2 + 1) ≤ 128 := by
    rw [nesting_wrapped]
    decide
  obtain ⟨_, accepts_iff⟩ := accepts_iff_of_unfoldsWithin (show nest.WellFormed by decide)
  exact ⟨unfoldsWithin_nest, bound,
    (accepts_iff 2 unfoldsWithin_nest _ _ bound).2 (inhabits_wrapped 41)⟩

/-- A `Nest` is a reference and a union before it is anything else. -/
theorem inhabitsWithin_nest_iff {levels : Nat} {value : Json} :
    nest.InhabitsWithin (levels + 2) value ⟨100⟩
      ↔ nest.InhabitsWithin levels value TypeId.null
        ∨ nest.InhabitsWithin levels value ⟨101⟩ := by
  have body : nest.models.body? ⟨1⟩ = some ⟨102⟩ := rfl
  have union : nest.types.lookup ⟨102⟩ = some (.union [TypeId.null, ⟨101⟩]) := rfl
  rw [InhabitsWithin, suits_reference_iff rfl body, InhabitsWithin, suits_union_iff union]
  simp

theorem not_inhabitsWithin_nest {levels : Nat} {value : Json} (few : levels ≤ 2) :
    ¬ nest.InhabitsWithin levels value ⟨100⟩ := fun inhabits => by
  have more : nest.InhabitsWithin (0 + 2) value ⟨100⟩ := inhabits.mono few
  rcases inhabitsWithin_nest_iff.1 more with none | none
  · exact none
  · exact none

theorem suits_null_iff {below : Json → TypeId → Prop} {value : Json} :
    nest.Suits below value TypeId.null ↔ value.isNull = true := by
  show Intrinsic.null.accepts value = true ↔ _
  cases value <;> simp [Intrinsic.accepts, Json.isNull]

/-- Each of the arrays takes three levels, and so does `null`. -/
theorem inhabitsWithin_wrapped_iff : (n levels : Nat) →
    (nest.InhabitsWithin levels (wrapped n) ⟨100⟩ ↔ 3 * (n + 1) ≤ levels)
  | n, 0 | n, 1 | n, 2 =>
    iff_of_false (not_inhabitsWithin_nest (by decide)) (by omega)
  | 0, levels + 3 => by
    rw [inhabitsWithin_nest_iff, InhabitsWithin, suits_null_iff]
    exact iff_of_true (Or.inl rfl) (by omega)
  | n + 1, levels + 3 => by
    have array : nest.types.lookup ⟨101⟩ = some (.array ⟨100⟩) := rfl
    rw [inhabitsWithin_nest_iff, InhabitsWithin, suits_null_iff, suits_array_iff array]
    have items : (∃ items, wrapped (n + 1) = .array items
        ∧ ∀ item ∈ items, nest.InhabitsWithin levels item ⟨100⟩)
        ↔ nest.InhabitsWithin levels (wrapped n) ⟨100⟩ := by
      simp [wrapped]
    rw [items, inhabitsWithin_wrapped_iff n levels]
    simp only [wrapped, Json.isNull, Bool.false_eq_true, false_or]
    omega

/-- A bound on the nesting alone does not do: values that nest no deeper than 64 are refused by a
type that they are of. -/
theorem not_forall_accepts_of_nesting_le :
    ¬ ∀ (catalog : Catalog) (value : Json) (type : TypeId), catalog.WellFormed →
      value.nesting ≤ 64 → Inhabits catalog value type → catalog.accepts value type = true := by
  intro always
  have accepts := always nest (wrapped 64) ⟨100⟩ (by decide) (nesting_wrapped 64).le
    (inhabits_wrapped 64)
  rw [accepts_iff, inhabitsWithin_wrapped_iff] at accepts
  exact absurd accepts (by decide)

end Catalog

end ModelForms
