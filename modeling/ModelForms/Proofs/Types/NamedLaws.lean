import ModelForms.Proofs.Types.NamedProperties

/-!
# Laws of structures

A union of structures does not depend on how its members are grouped (`NamedTerm.unionOf_group`),
and neither does a list of properties that is merged from several (`NamedProperties.merge_assoc`).

For unions the members of a union must be no unions, since only one level of them is taken apart.
That is what unions are made of (`NamedTerm.Flat`), and what is no union at all has it trivially.
-/

namespace ModelForms

namespace NamedTerm

variable {term m : NamedTerm} {terms others before inner after : List NamedTerm}

/-- The members of a union are no unions. -/
def Flat (term : NamedTerm) : Prop :=
  ∀ m ∈ term.alternatives, ∀ members, m ≠ .union members

theorem flat_of_ne_union (proper : ∀ members, term ≠ .union members) : Flat term := by
  cases term with
  | union members => exact absurd rfl (proper members)
  | _ =>
    intro m mem
    rw [List.mem_singleton.1 mem]
    exact proper

/-- The members that a union of some types is made of. -/
def flattened (terms : List NamedTerm) : List NamedTerm := terms.flatMap alternatives

theorem mem_alternatives_ofSet_iff {members : Finset NamedTerm}
    (plain : ∀ m ∈ members, ∀ inner, m ≠ .union inner) (proper : m ≠ never) :
    m ∈ (ofSet members).alternatives ↔ m ∈ members := by
  rw [← Finset.mem_toList]
  have plain : ∀ m ∈ members.toList, ∀ inner, m ≠ .union inner :=
    fun m mem => plain m (Finset.mem_toList.1 mem)
  unfold ofSet
  match members.toList, plain with
  | [], _ => simp [alternatives, proper]
  | [only], plain =>
    cases only with
    | union inner => exact absurd rfl (plain _ (List.mem_singleton_self _) inner)
    | _ => rfl
  | _ :: _ :: _, _ => exact Iff.rfl

theorem flat_ofSet {members : Finset NamedTerm}
    (plain : ∀ m ∈ members, ∀ inner, m ≠ .union inner) : Flat (ofSet members) := by
  intro m mem inner is
  subst is
  exact plain _ ((mem_alternatives_ofSet_iff plain (by simp)).1 mem) inner rfl

theorem unionOf_eq (terms : List NamedTerm) :
    unionOf terms
      = if unknown ∈ flattened terms then unknown
        else ofSet ((flattened terms).toFinset.erase never) := by
  simp [unionOf, flattened]

theorem plain_of_flat (flat : ∀ term ∈ terms, Flat term) :
    ∀ m ∈ (flattened terms).toFinset.erase never, ∀ inner, m ≠ .union inner := by
  intro m mem
  obtain ⟨term, among, mem⟩ :=
    List.mem_flatMap.1 (List.mem_toFinset.1 (Finset.mem_of_mem_erase mem))
  exact flat term among m mem

/-- A union of flat types is flat. -/
theorem flat_unionOf (flat : ∀ term ∈ terms, Flat term) : Flat (unionOf terms) := by
  rw [unionOf_eq]
  split
  · exact flat_of_ne_union (by simp)
  · exact flat_ofSet (plain_of_flat flat)

/-- A union takes the place of its members, but for `never`, or else it is `unknown`. -/
theorem mem_alternatives_unionOf_iff (flat : ∀ term ∈ terms, Flat term)
    (known : unknown ∉ flattened terms) (proper : m ≠ never) :
    m ∈ (unionOf terms).alternatives ↔ m ∈ flattened terms := by
  rw [unionOf_eq, if_neg known, mem_alternatives_ofSet_iff (plain_of_flat flat) proper,
    Finset.mem_erase, List.mem_toFinset, and_iff_right proper]

/-- Unions of the same members are the same, where `never` does not count, nor anything beside
`unknown`. -/
theorem unionOf_congr (absorbs : unknown ∈ flattened terms ↔ unknown ∈ flattened others)
    (same : unknown ∉ flattened terms → ∀ m, m ≠ never →
      (m ∈ flattened terms ↔ m ∈ flattened others)) : unionOf terms = unionOf others := by
  rw [unionOf_eq, unionOf_eq]
  by_cases known : unknown ∈ flattened terms
  · rw [if_pos known, if_pos (absorbs.1 known)]
  · rw [if_neg known, if_neg (mt absorbs.2 known)]
    congr 1
    ext m
    simp only [Finset.mem_erase, List.mem_toFinset]
    exact and_congr_right (same known m)

/-- A union among the members of a union may be taken apart. -/
theorem unionOf_group (flat : ∀ term ∈ inner, Flat term) :
    unionOf (before ++ unionOf inner :: after) = unionOf (before ++ (inner ++ after)) := by
  have split (m : NamedTerm) : m ∈ flattened (before ++ unionOf inner :: after)
      ↔ m ∈ flattened before ∨ m ∈ (unionOf inner).alternatives ∨ m ∈ flattened after := by
    simp [flattened]
  have joined (m : NamedTerm) : m ∈ flattened (before ++ (inner ++ after))
      ↔ m ∈ flattened before ∨ m ∈ flattened inner ∨ m ∈ flattened after := by
    simp [flattened]
  have absorbed : unknown ∈ (unionOf inner).alternatives ↔ unknown ∈ flattened inner := by
    by_cases known : unknown ∈ flattened inner
    · rw [unionOf_eq, if_pos known]
      simp [alternatives, known]
    · exact mem_alternatives_unionOf_iff flat known (by simp)
  refine unionOf_congr ?_ fun known m proper => ?_
  · rw [split, joined, absorbed]
  · have known : unknown ∉ flattened inner := by
      rw [split, absorbed] at known
      exact fun mem => known (.inr (.inl mem))
    rw [split, joined, mem_alternatives_unionOf_iff flat known proper]

/-- A term that a union of it alone leaves as it is, with members that are no unions. -/
structure Regular (term : NamedTerm) : Prop where
  flat : Flat term
  whole : unionOf [term] = term

/-- A union of flat types is regular. -/
theorem regular_unionOf (flat : ∀ term ∈ terms, Flat term) : Regular (unionOf terms) where
  flat := flat_unionOf flat
  whole := by simpa using @unionOf_group [] terms [] flat

theorem regular_of_ne_union (proper : ∀ members, term ≠ .union members) : Regular term where
  flat := flat_of_ne_union proper
  whole := by
    have alone : flattened [term] = [term] := by
      cases term with
      | union members => exact absurd rfl (proper members)
      | _ => rfl
    rw [unionOf_eq, alone]
    split
    next mem => exact List.mem_singleton.1 mem
    next known =>
      by_cases empty : term = never
      · subst empty
        simp [ofSet]
      · rw [Finset.erase_eq_of_notMem (by simpa using Ne.symm empty)]
        simp [ofSet]

end NamedTerm

namespace NamedProperties

variable {base extra more : NamedProperties}

/-- A property, or the one that has its name in a list. -/
def replaced (extra : NamedProperties) (p : (String × Bool) × NamedTerm) :
    (String × Bool) × NamedTerm :=
  (extra.find? fun q => q.1.1 = p.1.1).getD p

theorem merge_eq : merge base extra
    = base.map (replaced extra) ++ extra.filter fun q => q.1.1 ∉ base.map (·.1.1) :=
  rfl

theorem name_replaced (p : (String × Bool) × NamedTerm) : (replaced extra p).1.1 = p.1.1 := by
  unfold replaced
  cases found : extra.find? fun q => q.1.1 = p.1.1 with
  | none => rfl
  | some q => simpa using List.find?_some found

theorem names_map_replaced : (base.map (replaced extra)).map (·.1.1) = base.map (·.1.1) := by
  rw [List.map_map]
  exact List.map_congr_left fun p _ => name_replaced p

/-- What is declared under a name is what the second list declares, or else the first. -/
theorem find?_merge (name : String) : (merge base extra).find? (fun q => q.1.1 = name)
    = (extra.find? fun q => q.1.1 = name).or (base.find? fun q => q.1.1 = name) := by
  have inBase : (base.map (replaced extra)).find? (fun q => q.1.1 = name)
      = (base.find? fun q => q.1.1 = name).map (replaced extra) := by
    rw [List.find?_map, Function.comp_def]
    simp only [name_replaced]
  rw [merge_eq, List.find?_append, inBase]
  cases found : base.find? fun q => q.1.1 = name with
  | some p =>
    have same : p.1.1 = name := by simpa using List.find?_some found
    rw [Option.map_some, Option.some_or, replaced, ← same]
    cases extra.find? fun q => q.1.1 = p.1.1 <;> rfl
  | none =>
    have absent : name ∉ base.map (·.1.1) := by
      intro mem
      obtain ⟨p, among, same⟩ := List.mem_map.1 mem
      exact absurd same (by simpa using List.find?_eq_none.1 found p among)
    rw [Option.map_none, Option.none_or, Option.or_none, List.find?_filter]
    congr 1
    funext q
    by_cases same : q.1.1 = name
    · simp [same, absent]
    · simp [same]

theorem replaced_replaced (p : (String × Bool) × NamedTerm) :
    replaced more (replaced extra p) = replaced (merge extra more) p := by
  rw [replaced, name_replaced, replaced, replaced, find?_merge]
  cases more.find? fun q => q.1.1 = p.1.1 <;> rfl

/-- Merging three lists in either order gives one list. -/
theorem merge_assoc (base extra more : NamedProperties) :
    (base.merge extra).merge more = base.merge (extra.merge more) := by
  have names : (base.merge extra).map (·.1.1)
      = base.map (·.1.1) ++ (extra.filter fun q => q.1.1 ∉ base.map (·.1.1)).map (·.1.1) := by
    rw [merge_eq, List.map_append, names_map_replaced]
  have once : (base.map (replaced extra)).map (replaced more)
      = base.map (replaced (extra.merge more)) := by
    rw [List.map_map]
    exact List.map_congr_left fun p _ => replaced_replaced p
  have middle : (extra.filter fun q => q.1.1 ∉ base.map (·.1.1)).map (replaced more)
      = (extra.map (replaced more)).filter fun q => q.1.1 ∉ base.map (·.1.1) := by
    rw [List.filter_map, Function.comp_def]
    simp only [name_replaced]
  have last : (more.filter fun q => q.1.1 ∉ (base.merge extra).map (·.1.1))
      = (more.filter fun q => q.1.1 ∉ extra.map (·.1.1)).filter
        fun q => q.1.1 ∉ base.map (·.1.1) := by
    rw [List.filter_filter]
    refine List.filter_congr fun q _ => ?_
    by_cases mem : q.1.1 ∈ base.map (·.1.1)
    · simp only [names, List.mem_append, mem, true_or, not_true, decide_false, Bool.false_and]
    · have among : q.1.1 ∈ (extra.filter fun r => r.1.1 ∉ base.map (·.1.1)).map (·.1.1)
          ↔ q.1.1 ∈ extra.map (·.1.1) := by
        simp only [List.mem_map, List.mem_filter]
        refine exists_congr fun r => and_congr_left fun same => and_iff_left ?_
        simpa [same] using mem
      simp only [names, List.mem_append, mem, false_or, among, not_false_eq_true, decide_true,
        Bool.true_and]
  rw [merge_eq, last, merge_eq, List.map_append, once, middle, List.append_assoc,
    ← List.filter_append]
  rfl

end NamedProperties

end ModelForms
