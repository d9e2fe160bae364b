import ModelForms.Proofs.Types.Stripping

/-!
# Types that are put together again

The type of a control's value comes from the declared type by taking `null` and `undefined` out and
adding `null` again.  Where `null` is added exactly if it was there, and `undefined` was not, the
members come to the declared ones.  The normal form of a union depends on nothing else, and no entry
has two ids, so the id is the declared one (`Catalog.ControlTypeOf.eq_declared`).
-/

namespace ModelForms

namespace TypeTable

variable {table : TypeTable}

/-- Adding an entry that has an id gives the id and leaves the table alone. -/
theorem WellFormed.intern_eq (wf : table.WellFormed) {id : TypeId} {entry : TypeEntry}
    (h : table.lookup id = some entry) (proper : ∀ k, entry ≠ .intrinsic k) :
    Interning.intern entry table = (id, table) := by
  have stored : entry ∈ table.entries := mem_entries_of_lookup h proper
  have unchanged : (Interning.intern entry table).2 = table := by
    cases found : table.entries.idxOf? entry with
    | some i => rw [intern_of_found proper found]
    | none => exact absurd stored (List.idxOf?_eq_none_iff.1 found)
  have found := lookup_intern entry table
  rw [unchanged] at found
  exact Prod.ext (wf.lookup_injective found h proper) unchanged

/-- Ascending lists with the same members are the same. -/
theorem eq_of_mem_iff {members others : List TypeId}
    (ascends : members.Pairwise (·.index < ·.index))
    (ascends' : others.Pairwise (·.index < ·.index)) (same : ∀ m, m ∈ members ↔ m ∈ others) :
    members = others := by
  have irreflexive {a b : TypeId} (lt : a.index < b.index) : a ≠ b := by
    rintro rfl
    exact Nat.lt_irrefl _ lt
  have perm : members.Perm others :=
    (List.perm_ext_iff_of_nodup (ascends.imp irreflexive) (ascends'.imp irreflexive)).2 same
  refine perm.eq_of_pairwise ?_ ascends ascends'
  intro a b _ _ lt gt
  exact absurd gt (Nat.lt_asymm lt)

/-- What has the members of a normal union, in any order and any number of times, has it as its
normal form. -/
theorem normalize_eq_of_mem_iff {members flat : List TypeId} (normal : table.NormalUnion members)
    (same : ∀ m, m ∈ flat ↔ m ∈ members) : normalize flat = .several members := by
  have noUnknown : TypeId.unknown ∉ flat := by
    intro mem
    exact (normal.proper _ ((same _).1 mem)).2 rfl
  have sorted : ascending (flat.filter (· ≠ TypeId.never)) = members := by
    refine eq_of_mem_iff (pairwise_ascending _) normal.ascending ?_
    intro m
    rw [mem_ascending, List.mem_filter, same, decide_eq_true_iff]
    exact and_iff_left_of_imp fun mem => (normal.proper m mem).1
  have several := normal.several
  unfold normalize
  rw [if_neg noUnknown, sorted]
  match members, several with
  | _ :: _ :: _, _ => rfl

end TypeTable

namespace Catalog

variable {catalog : Catalog} {id stripped value : TypeId}

/-- A type without `null` and `undefined` is left alone. -/
theorem strip_eq_single (proper : ∀ m ∈ catalog.alternatives id, m.isNullish = false) :
    catalog.strip id = .single id := by
  unfold strip
  cases union : catalog.types.unionMembers? (catalog.resolved id) with
  | none => rfl
  | some members =>
    have several : catalog.alternatives id = members := by simp [alternatives, union]
    have untouched : members.filter (!·.isNullish) = members := by
      refine List.filter_eq_self.2 fun m mem => ?_
      simp [proper m (several ▸ mem)]
    simp [untouched]

/-- What is left of a type that is no reference consists of the alternatives that are kept. -/
theorem StrippedTo.mem_iff (wf : catalog.WellFormed)
    (proper : catalog.types.referenced? id = none) (h : catalog.StrippedTo id stripped)
    (m : TypeId) :
    m ∈ (catalog.types.unionMembers? stripped).getD [stripped] ↔ m ∈ catalog.kept id := by
  cases h.leftOf wf with
  | whole strips kept => rw [kept, alternatives, resolved_of_referenced?_eq_none proper]
  | only strips kept =>
    have among : stripped ∈ catalog.kept id := by simp [kept]
    have flat := wf.unionMembers?_of_mem_alternatives (mem_alternatives_of_mem_kept among)
    simp [flat, kept]
  | several strips stored =>
    rw [TypeTable.unionMembers?_eq_some_iff.2 stored, Option.getD_some]

/-- Without `undefined`, nothing but `null` is set aside. -/
theorem mem_kept_of_ne_null (present : TypeId.undefined ∉ catalog.alternatives id) {m : TypeId}
    (mem : m ∈ catalog.alternatives id) (proper : m ≠ TypeId.null) :
    m.isNullish = false ∧ m ∈ catalog.kept id := by
  have defined : m ≠ TypeId.undefined := fun same => present (same ▸ mem)
  have kept : m.isNullish = false := by simp [TypeId.isNullish, defined, proper]
  exact ⟨kept, mem_kept_of_mem_alternatives mem kept⟩

/-- Where only `null` was set aside, adding it again gives the operands of the declared type. -/
theorem StrippedTo.mem_flatten_iff (wf : catalog.WellFormed)
    (proper : catalog.types.referenced? id = none) (strips : catalog.StrippedTo id stripped)
    (present : TypeId.undefined ∉ catalog.alternatives id)
    (hasNull : TypeId.null ∈ catalog.alternatives id) (m : TypeId) :
    m ∈ catalog.types.flatten [stripped, TypeId.null] ↔ m ∈ catalog.alternatives id := by
  have split : m ∈ catalog.types.flatten [stripped, TypeId.null]
      ↔ m ∈ catalog.kept id ∨ m = TypeId.null := by
    rw [← strips.mem_iff wf proper, TypeTable.mem_flatten]
    simp [show catalog.types.unionMembers? TypeId.null = none from rfl]
  rw [split]
  constructor
  · rintro (mem | rfl)
    · exact mem_alternatives_of_mem_kept mem
    · exact hasNull
  · intro mem
    by_cases isNull : m = TypeId.null
    · exact Or.inr isNull
    · exact Or.inl (mem_kept_of_ne_null present mem isNull).2

/-- The type of a control's value is the declared type, if `null` is added exactly where it was
taken out and `undefined` was not there. -/
theorem ControlTypeOf.eq_declared (wf : catalog.WellFormed)
    (proper : catalog.types.referenced? id = none)
    (present : TypeId.undefined ∉ catalog.alternatives id)
    (h : catalog.ControlTypeOf id ((catalog.alternatives id).contains TypeId.null) value) :
    value = id := by
  obtain ⟨stripped, strips, typed⟩ := h
  by_cases hasNull : TypeId.null ∈ catalog.alternatives id
  · rw [if_pos (List.contains_iff_mem.2 hasNull)] at typed
    have same := strips.mem_flatten_iff wf proper present hasNull
    cases union : catalog.types.unionMembers? id with
    | some members =>
      rw [alternatives_of_unionMembers? union] at same
      have normal := wf.types.normalUnion union
      rw [TypeTable.unionOf_congr ((TypeTable.normalize_eq_of_mem_iff normal same).trans
        (TypeTable.normalize_of_normalUnion normal).symm), normal.unionOf_iff] at typed
      exact wf.types.lookup_injective typed (TypeTable.unionMembers?_eq_some_iff.1 union) (by simp)
    | none =>
      -- The declared type is `null` itself, and so is the union of `null` with it.
      rw [alternatives_eq_singleton proper union, List.mem_singleton] at hasNull
      subst hasNull
      have whole : stripped = TypeId.null := by
        simpa [StrippedTo, strip, resolved_of_referenced?_eq_none proper, union] using strips
      subst whole
      have flat : ∀ m ∈ [TypeId.null, TypeId.null], catalog.types.unionMembers? m = none := by
        simp [union]
      unfold TypeTable.UnionOf at typed
      rw [TypeTable.flatten_of_flat flat] at typed
      exact typed
  · rw [if_neg (mt List.contains_iff_mem.1 hasNull)] at typed
    have untouched : catalog.strip id = .single id :=
      strip_eq_single fun m mem =>
        (mem_kept_of_ne_null present mem fun same => hasNull (same ▸ mem)).1
    have whole : stripped = id := by simpa [StrippedTo, untouched] using strips
    exact typed.trans whole

end Catalog

end ModelForms
