import ModelForms.Proofs.Types.Stripping
import ModelForms.Types.Term

/-!
# Terms in a table that grows

The term of a type is unfolded over as many steps as the table has entries, so a table that grows
unfolds over more.  The parts of an entry have lower ids than the entry, hence the steps of the
smaller table were enough and a known type keeps its term (`GrowsTo.term_eq`).  For the same reason
the term of an id is made of the terms of the parts of its entry (`WellFormed.term_of_lookup`), and
two types of one term are the same (`WellFormed.term_injective`).

The type that is left when `null` and `undefined` are set aside may have one id in one table and
another in another.  It has one term in all of them (`Catalog.StrippedTo.term_eq`), and one text.
-/

namespace ModelForms

namespace TypeTable

variable {earlier later : TypeTable} {id : TypeId}

/-- The parts of an entry have lower ids, and only ids that are given out have parts. -/
theorem WellFormed.part_lt (wf : earlier.WellFormed) {entry : TypeEntry}
    (h : earlier.lookup id = some entry) {part : TypeId} (hp : part ∈ entry.parts) :
    TypeId.first ≤ id.index ∧ part.index < id.index := by
  unfold lookup TypeId.isIntrinsic at h
  split at h
  next =>
    obtain ⟨k, _, rfl⟩ := Option.map_eq_some_iff.1 h
    cases hp
  next given =>
    have given : ¬ id.index < TypeId.first := by simpa using given
    have := (wf.older _ _ h part hp).2
    omega

/-- An id with the same entry in two tables has the same term if the parts of the entry have. -/
theorem termWithin_succ_eq {depth deeper : Nat} (same : later.lookup id = earlier.lookup id)
    (parts : ∀ entry, earlier.lookup id = some entry → ∀ part ∈ entry.parts,
      later.termWithin deeper part = earlier.termWithin depth part) :
    later.termWithin (deeper + 1) id = earlier.termWithin (depth + 1) id := by
  unfold termWithin
  rw [same]
  cases found : earlier.lookup id with
  | none => rfl
  | some entry =>
    have parts := parts entry found
    cases entry with
    | intrinsic | literal | leaf | reference => rfl
    | object properties =>
      refine congrArg TypeTerm.object (List.map_congr_left fun p hp => ?_)
      rw [parts p.type (List.mem_map_of_mem hp)]
    | array element => exact congrArg TypeTerm.array (parts element (List.mem_singleton_self _))
    | union members => exact congrArg TypeTerm.union (List.map_congr_left parts)

/-- Unfolding a known type over any number of steps that is enough gives one term. -/
theorem GrowsTo.termWithin_eq (grows : earlier.GrowsTo later) (wf : earlier.WellFormed)
    (known : earlier.Knows id) {depth deeper : Nat} (enough : id.index < TypeId.first + depth)
    (more : id.index < TypeId.first + deeper) :
    later.termWithin (deeper + 1) id = earlier.termWithin (depth + 1) id := by
  induction depth generalizing deeper id with
  | zero =>
    refine termWithin_succ_eq (grows.lookup_eq known) fun entry found part hp => ?_
    have := (wf.part_lt found hp).1
    omega
  | succ depth ih =>
    refine termWithin_succ_eq (grows.lookup_eq known) fun entry found part hp => ?_
    obtain ⟨given, lower⟩ := wf.part_lt found hp
    obtain ⟨deeper, rfl⟩ : ∃ n, deeper = n + 1 := ⟨deeper - 1, by omega⟩
    exact ih (wf.knows_part found hp) (by omega) (by omega)

/-- A known type keeps its term. -/
theorem GrowsTo.term_eq (grows : earlier.GrowsTo later) (wf : earlier.WellFormed)
    (known : earlier.Knows id) : later.term id = earlier.term id :=
  grows.termWithin_eq wf known known.lt (grows.knows known).lt

/-- The parts of an entry are unfolded to their terms. -/
theorem WellFormed.termWithin_part (wf : earlier.WellFormed) {entry : TypeEntry}
    (found : earlier.lookup id = some entry) {part : TypeId} (mem : part ∈ entry.parts) :
    earlier.termWithin earlier.size part = earlier.term part := by
  have bound := (knows_of_lookup found).lt
  obtain ⟨given, lower⟩ := wf.part_lt found mem
  obtain ⟨size, hsize⟩ : ∃ n, earlier.size = n + 1 := ⟨earlier.size - 1, by omega⟩
  unfold term
  rw [hsize]
  exact ((GrowsTo.refl earlier).termWithin_eq wf (wf.knows_part found mem) (by omega)
    (by omega)).symm

/-- The term of an entry, given by the terms of its parts. -/
def entryTerm (table : TypeTable) : TypeEntry → TypeTerm
  | .intrinsic k => .intrinsic k
  | .literal value => .literal value
  | .leaf name => .leaf name
  | .object properties =>
      .object (properties.map fun p => ((p.name, p.optional), table.term p.type))
  | .array element => .array (table.term element)
  | .union members => .union (members.map table.term)
  | .reference definition => .reference definition

/-- The term of an id is that of its entry. -/
theorem WellFormed.term_of_lookup (wf : earlier.WellFormed) {entry : TypeEntry}
    (found : earlier.lookup id = some entry) : earlier.term id = earlier.entryTerm entry := by
  have part {part : TypeId} (mem : part ∈ entry.parts) := wf.termWithin_part found mem
  unfold term
  rw [termWithin, found]
  cases entry with
  | intrinsic | literal | leaf | reference => rfl
  | array element => exact congrArg TypeTerm.array (part (List.mem_singleton_self _))
  | object properties =>
    refine congrArg TypeTerm.object (List.map_congr_left fun p mem => ?_)
    rw [part (List.mem_map_of_mem mem)]
  | union members => exact congrArg TypeTerm.union (List.map_congr_left fun m mem => part mem)

/-- The term of a union has the terms of its members. -/
theorem WellFormed.term_union (wf : earlier.WellFormed) {members : List TypeId}
    (found : earlier.lookup id = some (.union members)) :
    earlier.term id = .union (members.map earlier.term) :=
  wf.term_of_lookup found

/-- An id with an intrinsic entry is that of the intrinsic type. -/
theorem WellFormed.eq_ofIntrinsic (wf : earlier.WellFormed) {k : Intrinsic}
    (found : earlier.lookup id = some (.intrinsic k)) : id = TypeId.ofIntrinsic k := by
  unfold lookup at found
  split at found
  next =>
    obtain ⟨other, index, same⟩ := Option.map_eq_some_iff.1 found
    cases same
    have distinct : Intrinsic.all.Nodup := by decide
    have bound := (List.getElem?_eq_some_iff.1 index).1
    exact congrArg TypeId.mk
      ((List.getElem?_inj bound distinct).1 (index.trans (Intrinsic.ofIndex?_index k).symm))
  next => exact absurd (List.mem_of_getElem? found) (wf.foreign k)

/-- Ids with one entry are the same, also where the entry is intrinsic. -/
theorem WellFormed.eq_of_lookup (wf : earlier.WellFormed) {other : TypeId} {entry : TypeEntry}
    (found : earlier.lookup id = some entry) (found' : earlier.lookup other = some entry) :
    id = other := by
  by_cases intrinsic : ∃ k, entry = .intrinsic k
  · obtain ⟨k, rfl⟩ := intrinsic
    exact (wf.eq_ofIntrinsic found).trans (wf.eq_ofIntrinsic found').symm
  · exact wf.lookup_injective found found' fun k same => intrinsic ⟨k, same⟩

/-- Lists with the same values of a function are the same if it tells their members apart. -/
theorem eq_of_map_eq {α β : Type} {f : α → β} :
    ∀ {l l' : List α}, (∀ a ∈ l, ∀ b ∈ l', f a = f b → a = b) → l.map f = l'.map f → l = l'
  | [], [], _, _ => rfl
  | [], _ :: _, _, same => by cases same
  | _ :: _, [], _, same => by cases same
  | a :: l, b :: l', apart, same => by
    obtain ⟨first, rest⟩ := List.cons.inj same
    rw [apart a List.mem_cons_self b List.mem_cons_self first, eq_of_map_eq (fun a mem b mem' =>
      apart a (List.mem_cons_of_mem _ mem) b (List.mem_cons_of_mem _ mem')) rest]

/-- Two entries with one term are the same if that holds of their parts. -/
theorem eq_of_entryTerm_eq {entry entry' : TypeEntry}
    (parts : ∀ part ∈ entry.parts, ∀ part' ∈ entry'.parts,
      earlier.term part = earlier.term part' → part = part')
    (same : earlier.entryTerm entry = earlier.entryTerm entry') : entry = entry' := by
  cases entry <;> cases entry' <;> simp only [entryTerm, TypeTerm.intrinsic.injEq,
    TypeTerm.literal.injEq, TypeTerm.leaf.injEq, TypeTerm.object.injEq, TypeTerm.array.injEq,
    TypeTerm.union.injEq, TypeTerm.reference.injEq, reduceCtorEq] at same
  case array.array e e' =>
    rw [parts e (List.mem_singleton_self e) e' (List.mem_singleton_self e') same]
  case object.object ps ps' =>
    refine congrArg TypeEntry.object (eq_of_map_eq (fun p mem p' mem' same => ?_) same)
    obtain ⟨label, type⟩ := Prod.mk.inj same
    obtain ⟨name, optional⟩ := Prod.mk.inj label
    have types := parts p.type (List.mem_map_of_mem mem) p'.type (List.mem_map_of_mem mem') type
    cases p
    cases p'
    cases name
    cases optional
    cases types
    rfl
  case union.union ms ms' => exact congrArg TypeEntry.union (eq_of_map_eq parts same)
  all_goals rw [same]

/-- Known types of one term have one id. -/
theorem WellFormed.term_injective (wf : earlier.WellFormed) {other : TypeId}
    (known : earlier.Knows id) (known' : earlier.Knows other)
    (same : earlier.term id = earlier.term other) : id = other := by
  -- The parts of an entry have lower ids than the entry.
  generalize bound : id.index = n
  induction n using Nat.strongRecOn generalizing id other with
  | ind n ih =>
    subst bound
    obtain ⟨entry, found⟩ := Option.isSome_iff_exists.1 known
    obtain ⟨entry', found'⟩ := Option.isSome_iff_exists.1 known'
    rw [wf.term_of_lookup found, wf.term_of_lookup found'] at same
    have entries := eq_of_entryTerm_eq (fun part mem part' mem' same =>
      ih part.index (wf.part_lt found mem).2 (wf.knows_part found mem)
        (wf.knows_part found' mem') same rfl) same
    exact wf.eq_of_lookup found (entries ▸ found')

end TypeTable

namespace Catalog

variable {earlier later : Catalog} {declared stripped : TypeId}

/-- The term of what is left of a type when `null` and `undefined` are set aside. -/
def strippedTerm (catalog : Catalog) (declared : TypeId) : TypeTerm :=
  match catalog.strip declared with
  | .single only => catalog.types.term only
  | .several ms => .union (ms.map catalog.types.term)

theorem GrowsTo.typeText_eq (grows : earlier.GrowsTo later) (wf : earlier.WellFormed)
    {id : TypeId} (known : earlier.types.Knows id) : later.typeText id = earlier.typeText id := by
  unfold typeText
  rw [grows.types.term_eq wf.types known, grows.models]

theorem StrippedTo.term_eq (grows : earlier.GrowsTo later) (wf : earlier.WellFormed)
    (wf' : later.WellFormed) (known : earlier.types.Knows declared)
    (h : later.StrippedTo declared stripped) :
    later.types.term stripped = earlier.strippedTerm declared := by
  unfold StrippedTo at h
  unfold strippedTerm
  rw [grows.strip_eq wf known] at h
  cases wf.stripCase declared with
  | whole strips kept =>
    rw [strips] at h ⊢
    rw [h]
    exact grows.types.term_eq wf.types known
  | only m strips kept =>
    rw [strips] at h ⊢
    rw [h]
    exact grows.types.term_eq wf.types (wf.knows_kept known (by simp [kept]))
  | several ms strips kept normal =>
    rw [strips] at h ⊢
    have found := (normal.growsTo grows.types).unionOf_iff.1 h
    rw [wf'.types.term_union found]
    exact congrArg TypeTerm.union (List.map_congr_left fun m hm =>
      grows.types.term_eq wf.types (normal.known m hm))

/-- What is left of a type is written the same way in all tables. -/
theorem StrippedTo.typeText_eq (grows : earlier.GrowsTo later) (wf : earlier.WellFormed)
    (wf' : later.WellFormed) (known : earlier.types.Knows declared)
    (h : later.StrippedTo declared stripped) :
    later.typeText stripped = (earlier.strippedTerm declared).text earlier.models.name? := by
  unfold typeText
  rw [h.term_eq grows wf wf' known, grows.models]

end Catalog

end ModelForms
