import ModelForms.Types.Table

/-!
# How a type table grows

A table only ever grows at its end, so whatever was known of an id stays true of it.  `GrowsTo` is
this order of tables.  Deriving a form adds nothing but unions, which is the finer order
`AddsUnions`.

`WellFormed` is what holds of every table that is built up from the empty one by adding types whose
parts have ids already.  No entry occurs twice, the ids in an entry were given out before the entry
was, and the unions that are stored are in normal form.  `WellFormed.intern` says that adding an
entry keeps this, given that it holds of the entry.
-/

namespace ModelForms

/-- The ids that an entry is built from. -/
def TypeEntry.parts : TypeEntry → List TypeId
  | .object properties => properties.map Property.type
  | .array element => [element]
  | .union members => members
  | _ => []

/-- The properties of an object type. -/
def TypeEntry.properties : TypeEntry → List Property
  | .object properties => properties
  | _ => []

namespace TypeTable

/-! ## Known ids -/

/-- Whether an id was given out, or is that of an intrinsic type. -/
def Knows (table : TypeTable) (id : TypeId) : Prop := (table.lookup id).isSome

theorem knows_of_lookup {table : TypeTable} {id : TypeId} {entry : TypeEntry}
    (h : table.lookup id = some entry) : table.Knows id := by
  simp [Knows, h]

theorem lookup_ofIntrinsic (table : TypeTable) (k : Intrinsic) :
    table.lookup (TypeId.ofIntrinsic k) = some (.intrinsic k) := by
  cases k <;> rfl

theorem knows_intrinsic (table : TypeTable) (k : Intrinsic) :
    table.Knows (TypeId.ofIntrinsic k) :=
  knows_of_lookup (table.lookup_ofIntrinsic k)

/-- An id that was given out lies below the next one. -/
theorem Knows.lt {table : TypeTable} {id : TypeId} (known : table.Knows id) :
    id.index < TypeId.first + table.size := by
  unfold Knows lookup at known
  split at known
  next h =>
    simp only [TypeId.isIntrinsic, decide_eq_true_eq] at h
    omega
  next h =>
    rw [isSome_getElem?] at known
    unfold size
    omega

/-- The entry of an id that is not intrinsic stands in the table. -/
theorem mem_entries_of_lookup {table : TypeTable} {id : TypeId} {entry : TypeEntry}
    (h : table.lookup id = some entry) (proper : ∀ k, entry ≠ .intrinsic k) :
    entry ∈ table.entries := by
  unfold lookup at h
  split at h
  · cases hk : Intrinsic.ofIndex? id.index with
    | none => simp [hk] at h
    | some k =>
      rw [hk] at h
      exact absurd (Option.some.inj h).symm (proper k)
  · exact List.mem_of_getElem? h

/-! ## Growth -/

/-- A later table has every entry of an earlier one under the same id. -/
def GrowsTo (earlier later : TypeTable) : Prop := earlier.entries <+: later.entries

namespace GrowsTo

theorem refl (table : TypeTable) : table.GrowsTo table := List.prefix_rfl

theorem trans {first second third : TypeTable} (h₁ : first.GrowsTo second)
    (h₂ : second.GrowsTo third) : first.GrowsTo third :=
  List.IsPrefix.trans h₁ h₂

variable {earlier later : TypeTable}

theorem of_entries_eq (same : later.entries = earlier.entries) : earlier.GrowsTo later :=
  ⟨[], by rw [same, List.append_nil]⟩

/-- An id keeps its entry. -/
theorem lookup (grows : earlier.GrowsTo later) {id : TypeId} {entry : TypeEntry}
    (h : earlier.lookup id = some entry) : later.lookup id = some entry := by
  obtain ⟨added, hadded⟩ := grows
  unfold TypeTable.lookup at h ⊢
  split
  next hid => simpa [hid] using h
  next hid =>
    simp only [hid, Bool.false_eq_true, if_false] at h
    rw [← hadded, List.getElem?_append_left (List.getElem?_eq_some_iff.1 h).1]
    exact h

theorem lookup_eq (grows : earlier.GrowsTo later) {id : TypeId} (known : earlier.Knows id) :
    later.lookup id = earlier.lookup id := by
  obtain ⟨entry, h⟩ := Option.isSome_iff_exists.1 known
  rw [h, grows.lookup h]

theorem knows (grows : earlier.GrowsTo later) {id : TypeId} (known : earlier.Knows id) :
    later.Knows id := by
  unfold Knows
  rw [grows.lookup_eq known]
  exact known

theorem unionMembers?_eq (grows : earlier.GrowsTo later) {id : TypeId}
    (known : earlier.Knows id) : later.unionMembers? id = earlier.unionMembers? id := by
  simp only [unionMembers?, grows.lookup_eq known]

theorem referenced?_eq (grows : earlier.GrowsTo later) {id : TypeId}
    (known : earlier.Knows id) : later.referenced? id = earlier.referenced? id := by
  simp only [referenced?, grows.lookup_eq known]

end GrowsTo

/-- A later table has nothing that an earlier one lacks but unions. -/
def AddsUnions (earlier later : TypeTable) : Prop :=
  ∃ added, later.entries = earlier.entries ++ added ∧ ∀ entry ∈ added, ∃ ms, entry = .union ms

namespace AddsUnions

theorem refl (table : TypeTable) : table.AddsUnions table := ⟨[], by simp⟩

theorem trans {first second third : TypeTable} (h₁ : first.AddsUnions second)
    (h₂ : second.AddsUnions third) : first.AddsUnions third := by
  obtain ⟨added, hadded, unions⟩ := h₁
  obtain ⟨more, hmore, others⟩ := h₂
  refine ⟨added ++ more, by rw [hmore, hadded, List.append_assoc], fun entry h => ?_⟩
  rcases List.mem_append.1 h with h | h
  · exact unions entry h
  · exact others entry h

theorem growsTo {earlier later : TypeTable} (h : earlier.AddsUnions later) :
    earlier.GrowsTo later := by
  obtain ⟨added, hadded, _⟩ := h
  exact ⟨added, hadded.symm⟩

end AddsUnions

theorem growsTo_intern (entry : TypeEntry) (table : TypeTable) :
    table.GrowsTo (Interning.intern entry table).2 := by
  rcases entries_intern entry table with h | h
  · exact ⟨[], by rw [h, List.append_nil]⟩
  · exact ⟨[entry], h.symm⟩

theorem addsUnions_intern (members : List TypeId) (table : TypeTable) :
    table.AddsUnions (Interning.intern (.union members) table).2 := by
  rcases entries_intern (.union members) table with h | h
  · exact ⟨[], by rw [h, List.append_nil], by simp⟩
  · exact ⟨[.union members], h, by simp⟩

theorem knows_intern (entry : TypeEntry) (table : TypeTable) :
    (Interning.intern entry table).2.Knows (Interning.intern entry table).1 :=
  knows_of_lookup (lookup_intern entry table)

/-! ## Well-formed tables -/

/-- The members of a stored union are several, in ascending order, and none of them is one that the
normal form takes apart or leaves out. -/
structure NormalUnion (table : TypeTable) (members : List TypeId) : Prop where
  several : 2 ≤ members.length
  ascending : members.Pairwise (·.index < ·.index)
  known : ∀ m ∈ members, table.Knows m
  flat : ∀ m ∈ members, table.unionMembers? m = none
  proper : ∀ m ∈ members, m ≠ TypeId.never ∧ m ≠ TypeId.unknown

/-- A table that was built up from the empty one, each type after its parts. -/
structure WellFormed (table : TypeTable) : Prop where
  /-- No entry has two ids. -/
  distinct : table.entries.Nodup
  /-- The intrinsic types have their ids without an entry. -/
  foreign : ∀ k, .intrinsic k ∉ table.entries
  /-- The ids in an entry were given out before it. -/
  older : ∀ i entry, table.entries[i]? = some entry →
    ∀ id ∈ entry.parts, table.Knows id ∧ id.index < TypeId.first + i
  /-- A stored union is in normal form. -/
  unions : ∀ members, .union members ∈ table.entries → table.NormalUnion members

theorem NormalUnion.growsTo {earlier later : TypeTable} (grows : earlier.GrowsTo later)
    {members : List TypeId} (normal : earlier.NormalUnion members) :
    later.NormalUnion members where
  several := normal.several
  ascending := normal.ascending
  known := fun m hm => grows.knows (normal.known m hm)
  flat := fun m hm => by rw [grows.unionMembers?_eq (normal.known m hm)]; exact normal.flat m hm
  proper := normal.proper

/-- Leaving members out keeps a union normal while two are left. -/
theorem NormalUnion.sublist {table : TypeTable} {members kept : List TypeId}
    (normal : table.NormalUnion members) (sub : kept.Sublist members) (two : 2 ≤ kept.length) :
    table.NormalUnion kept where
  several := two
  ascending := normal.ascending.sublist sub
  known := fun m hm => normal.known m (sub.subset hm)
  flat := fun m hm => normal.flat m (sub.subset hm)
  proper := fun m hm => normal.proper m (sub.subset hm)

theorem WellFormed.empty : empty.WellFormed where
  distinct := List.nodup_nil
  foreign := fun _ => List.not_mem_nil
  older := fun _ _ h => by simp [TypeTable.empty] at h
  unions := fun _ h => absurd h List.not_mem_nil

/-- Adding an entry keeps a table well-formed. -/
theorem WellFormed.intern {table : TypeTable} (wf : table.WellFormed) {entry : TypeEntry}
    (parts : ∀ id ∈ entry.parts, table.Knows id)
    (normal : ∀ members, entry = .union members → table.NormalUnion members) :
    (Interning.intern entry table).2.WellFormed := by
  have grows := growsTo_intern entry table
  revert grows
  unfold Interning.intern
  split
  · exact fun _ => wf
  · rename_i proper
    split
    · exact fun _ => wf
    · rename_i hnew
      intro grows
      have new : entry ∉ table.entries := by
        simp only [List.idxOf?, List.findIdx?_eq_none_iff, beq_eq_false_iff_ne, ne_eq] at hnew
        exact fun h => hnew entry h rfl
      constructor
      case distinct => exact List.nodup_append.2 ⟨wf.distinct, by simp, by grind⟩
      case foreign =>
        intro k hk
        rcases List.mem_append.1 hk with h | h
        · exact wf.foreign k h
        · exact proper k (List.mem_singleton.1 h).symm
      case older =>
        intro i e he id hid
        by_cases hi : i < table.entries.length
        · rw [List.getElem?_append_left hi] at he
          obtain ⟨known, lt⟩ := wf.older i e he id hid
          exact ⟨grows.knows known, lt⟩
        · have heq : i = table.entries.length := by
            have := (List.getElem?_eq_some_iff.1 he).1
            simp only [List.length_append, List.length_singleton] at this
            omega
          subst heq
          simp only [List.getElem?_concat_length, Option.some.injEq] at he
          subst he
          exact ⟨grows.knows (parts id hid), (parts id hid).lt⟩
      case unions =>
        intro members hm
        rcases List.mem_append.1 hm with h | h
        · exact (wf.unions members h).growsTo grows
        · exact (normal members (List.mem_singleton.1 h).symm).growsTo grows

section

variable {table : TypeTable} {id : TypeId}

/-- The parts of an entry that an id has are known. -/
theorem WellFormed.knows_part (wf : table.WellFormed) {entry : TypeEntry}
    (h : table.lookup id = some entry) {part : TypeId} (hp : part ∈ entry.parts) :
    table.Knows part := by
  unfold lookup at h
  split at h
  · cases hk : Intrinsic.ofIndex? id.index with
    | none => simp [hk] at h
    | some k =>
      simp only [hk, Option.map_some, Option.some.injEq] at h
      subst h
      simp [TypeEntry.parts] at hp
  · exact (wf.older _ _ h part hp).1

theorem unionMembers?_eq_some_iff {members : List TypeId} :
    table.unionMembers? id = some members ↔ table.lookup id = some (.union members) := by
  unfold unionMembers?
  split <;> simp_all

theorem referenced?_eq_some_iff {definition : ModelId} :
    table.referenced? id = some definition ↔ table.lookup id = some (.reference definition) := by
  unfold referenced?
  split <;> simp_all

theorem referenced?_of_unionMembers? {members : List TypeId}
    (union : table.unionMembers? id = some members) : table.referenced? id = none := by
  simp [referenced?, unionMembers?_eq_some_iff.1 union]

theorem WellFormed.normalUnion (wf : table.WellFormed) {members : List TypeId}
    (h : table.unionMembers? id = some members) : table.NormalUnion members :=
  wf.unions members (mem_entries_of_lookup (unionMembers?_eq_some_iff.1 h) (by simp))

/-- Ids with the same entry are the same. -/
theorem WellFormed.lookup_injective (wf : table.WellFormed) {other : TypeId} {entry : TypeEntry}
    (h : table.lookup id = some entry) (h' : table.lookup other = some entry)
    (proper : ∀ k, entry ≠ .intrinsic k) : id = other := by
  have outside {i : TypeId} (hi : table.lookup i = some entry) :
      ¬ i.index < TypeId.first ∧ table.entries[i.index - TypeId.first]? = some entry := by
    unfold lookup TypeId.isIntrinsic at hi
    split at hi
    · cases hk : Intrinsic.ofIndex? i.index with
      | none => simp [hk] at hi
      | some k =>
        simp only [hk, Option.map_some, Option.some.injEq] at hi
        exact absurd hi.symm (proper k)
    · rename_i hlt
      exact ⟨by simpa using hlt, hi⟩
  obtain ⟨hid, he⟩ := outside h
  obtain ⟨hother, he'⟩ := outside h'
  have hlt := (List.getElem?_eq_some_iff.1 he).1
  have := (List.getElem?_inj hlt wf.distinct).1 (he.trans he'.symm)
  cases id
  cases other
  simp only [TypeId.mk.injEq]
  simp only at hid hother this
  omega

end

/-! ## Distinct property names -/

/-- The object types of a table have no two properties of one name. -/
def DistinctNames (table : TypeTable) : Prop :=
  ∀ properties, .object properties ∈ table.entries → (properties.map Property.name).Nodup

theorem DistinctNames.addsUnions {earlier later : TypeTable} (distinct : earlier.DistinctNames)
    (adds : earlier.AddsUnions later) : later.DistinctNames := by
  obtain ⟨added, hadded, unions⟩ := adds
  intro properties h
  rw [hadded] at h
  rcases List.mem_append.1 h with h | h
  · exact distinct properties h
  · obtain ⟨ms, hms⟩ := unions _ h
    cases hms

/-! ## Deciding -/

section

variable (table : TypeTable)

instance (id : TypeId) : Decidable (table.Knows id) :=
  inferInstanceAs (Decidable ((table.lookup id).isSome = true))

instance (members : List TypeId) : Decidable (table.NormalUnion members) :=
  decidable_of_iff (2 ≤ members.length ∧ members.Pairwise (·.index < ·.index)
      ∧ (∀ m ∈ members, table.Knows m) ∧ (∀ m ∈ members, table.unionMembers? m = none)
      ∧ ∀ m ∈ members, m ≠ TypeId.never ∧ m ≠ TypeId.unknown)
    ⟨fun ⟨several, ascending, known, flat, proper⟩ => ⟨several, ascending, known, flat, proper⟩,
      fun ⟨several, ascending, known, flat, proper⟩ => ⟨several, ascending, known, flat, proper⟩⟩

/-- What a well-formed table asks of one entry, apart from its place. -/
def Suits : TypeEntry → Prop
  | .intrinsic _ => False
  | .union members => table.NormalUnion members
  | _ => True

instance : DecidablePred table.Suits
  | .intrinsic _ => inferInstanceAs (Decidable False)
  | .union members => inferInstanceAs (Decidable (table.NormalUnion members))
  | .literal _ | .leaf _ | .object _ | .array _ | .reference _ => inferInstanceAs (Decidable True)

theorem wellFormed_iff :
    table.WellFormed ↔ table.entries.Nodup ∧ (∀ entry ∈ table.entries, table.Suits entry)
      ∧ ∀ i : Fin table.entries.length, ∀ id ∈ table.entries[i].parts,
        table.Knows id ∧ id.index < TypeId.first + i := by
  constructor
  · intro wf
    refine ⟨wf.distinct, fun entry h => ?_, fun i id hid => ?_⟩
    · cases entry with
      | intrinsic k => exact wf.foreign k h
      | union members => exact wf.unions members h
      | literal | leaf | object | array | reference => exact trivial
    · exact wf.older i table.entries[i] (List.getElem?_eq_getElem i.2) id hid
  · rintro ⟨distinct, suits, older⟩
    refine ⟨distinct, fun k h => suits _ h, fun i entry h id hid => ?_, fun members h => suits _ h⟩
    obtain ⟨hlt, rfl⟩ := List.getElem?_eq_some_iff.1 h
    exact older ⟨i, hlt⟩ id hid

instance : Decidable table.WellFormed := decidable_of_iff _ table.wellFormed_iff.symm

theorem distinctNames_iff :
    table.DistinctNames ↔ ∀ entry ∈ table.entries, (entry.properties.map Property.name).Nodup := by
  constructor
  · intro distinct entry h
    cases entry with
    | object properties => exact distinct properties h
    | intrinsic | literal | leaf | array | union | reference => exact List.nodup_nil
  · exact fun h properties hmem => h _ hmem

instance : Decidable table.DistinctNames := decidable_of_iff _ table.distinctNames_iff.symm

end

end TypeTable

end ModelForms
