import ModelForms.Proofs.Types.Closed
import ModelForms.Proofs.Types.NamedProperties

/-!
# Laws of lists of properties

The properties of an object are a map in order.  Two views of such a list say all of it where no
name is repeated: the names in their order, and what is declared under a name (`ext_of_named?`).
Merging and making optional are easy to see in the two views, since a merged property has its place
from the first list and its declaration from the second.  So their laws come from those of lists of
names and of `Option.or`.

Leaving properties out is filtering, and the laws of filters say the rest.
-/

namespace ModelForms

namespace Property

/-- What is declared under a name. -/
def named? (name : String) (properties : List Property) : Option Property :=
  properties.find? fun p => p.name = name

variable {base extra more properties others : List Property} {names keys : List String} {n : String}

/-! ## The two views -/

theorem named?_eq_none (absent : n ∉ properties.map name) : named? n properties = none := by
  refine List.find?_eq_none.2 fun p mem same => absent ?_
  exact List.mem_map.2 ⟨p, mem, by simpa using same⟩

/-- Lists that look alike in both views are the same. -/
theorem ext_of_named? (distinct : (properties.map name).Nodup)
    (order : properties.map name = others.map name)
    (declared : ∀ n, named? n properties = named? n others) : properties = others := by
  induction properties generalizing others with
  | nil => exact (List.map_eq_nil_iff.1 order.symm).symm
  | cons p rest ih =>
    cases others with
    | nil => cases order
    | cons q rest' =>
      rw [List.map_cons, List.map_cons, List.cons.injEq] at order
      obtain ⟨same, order⟩ := order
      rw [List.map_cons, List.nodup_cons] at distinct
      have first : p = q := by
        have := declared p.name
        simpa [named?, same] using this
      subst first
      refine congrArg (p :: ·) (ih distinct.2 order fun n => ?_)
      by_cases here : p.name = n
      · subst here
        rw [named?_eq_none distinct.1, named?_eq_none (order ▸ distinct.1)]
      · have := declared n
        rwa [named?, named?, List.find?_cons_of_neg (by simpa using here),
          List.find?_cons_of_neg (by simpa using here)] at this

theorem names_merge (distinct : (base.map name).Nodup) (distinct' : (extra.map name).Nodup) :
    (merge base extra).map name
      = base.map name ++ (extra.map name).filter (· ∉ base.map name) := by
  rw [merge_eq distinct distinct', List.map_append, map_name_replaced, List.filter_map]
  rfl

theorem named?_merge (distinct : (base.map name).Nodup) (distinct' : (extra.map name).Nodup)
    (n : String) : named? n (merge base extra) = (named? n extra).or (named? n base) := by
  have replacing : named? n (base.map (replaced extra)) = (named? n base).map (replaced extra) := by
    rw [named?, List.find?_map, Function.comp_def]
    simp only [name_replaced]
    rfl
  rw [merge_eq distinct distinct', named?, List.find?_append]
  show (named? n (base.map (replaced extra))).or _ = _
  rw [replacing]
  cases found : named? n base with
  | some p =>
    have same : p.name = n := by simpa using List.find?_some found
    rw [Option.map_some, Option.some_or, replaced, ← same]
    show some ((named? p.name extra).getD p) = _
    cases named? p.name extra <;> rfl
  | none =>
    have absent : n ∉ base.map name := by
      intro named
      obtain ⟨p, mem, same⟩ := List.mem_map.1 named
      exact List.find?_eq_none.1 found p mem (by simpa using same)
    rw [Option.map_none, Option.none_or, Option.or_none, List.find?_filter]
    refine congrArg (fun test => extra.find? test) (funext fun p => ?_)
    by_cases same : p.name = n
    · simp [same, absent]
    · simp [same]

@[simp] theorem names_allOptional : (allOptional properties).map name = properties.map name := by
  rw [allOptional, List.map_map]
  rfl

theorem named?_allOptional (n : String) : named? n (allOptional properties)
    = (named? n properties).map fun p => { p with optional := true } := by
  rw [named?, allOptional, List.find?_map]
  rfl

/-! ## Merging -/

theorem merge_assoc (distinct : (base.map name).Nodup) (distinct' : (extra.map name).Nodup)
    (distinct'' : (more.map name).Nodup) :
    merge (merge base extra) more = merge base (merge extra more) := by
  have merged := Catalog.Closed.nodup_names_merge base extra
  have merged' := Catalog.Closed.nodup_names_merge extra more
  refine ext_of_named? (Catalog.Closed.nodup_names_merge _ _) ?_ fun n => ?_
  · rw [names_merge merged distinct'', names_merge distinct merged', names_merge distinct distinct',
      names_merge distinct' distinct'', List.filter_append, List.append_assoc, List.filter_filter]
    congr 2
    refine List.filter_congr fun n _ => ?_
    rw [decide_eq_decide.2 (show n ∉ _ ↔ n ∉ base.map name ∧ n ∉ extra.map name from ?_),
      Bool.decide_and]
    rw [List.mem_append, List.mem_filter, decide_eq_true_iff, not_or]
    exact and_congr_right fun absent => not_congr (and_iff_left absent)
  · rw [named?_merge merged distinct'', named?_merge distinct merged',
      named?_merge distinct distinct', named?_merge distinct' distinct'', Option.or_assoc]

theorem merge_self (distinct : (base.map name).Nodup) : merge base base = base := by
  refine ext_of_named? (Catalog.Closed.nodup_names_merge _ _) ?_ fun n => ?_
  · rw [names_merge distinct distinct, List.filter_eq_nil_iff.2 (by simp), List.append_nil]
  · rw [named?_merge distinct distinct, Option.or_self]

theorem nodup_names_nil : (([] : List Property).map name).Nodup := List.nodup_nil

theorem merge_nil (distinct : (base.map name).Nodup) : merge base [] = base := by
  rw [merge_eq distinct nodup_names_nil, List.filter_nil, List.append_nil]
  exact List.map_id base

theorem nil_merge (distinct : (extra.map name).Nodup) : merge [] extra = extra := by
  rw [merge_eq nodup_names_nil distinct]
  exact List.filter_eq_self.2 (by simp)

theorem allOptional_merge (distinct : (base.map name).Nodup) (distinct' : (extra.map name).Nodup) :
    allOptional (merge base extra) = merge (allOptional base) (allOptional extra) := by
  refine ext_of_named? ?_ ?_ fun n => ?_
  · rw [names_allOptional]
    exact Catalog.Closed.nodup_names_merge base extra
  · rw [names_allOptional, names_merge distinct distinct', names_merge (by simpa) (by simpa),
      names_allOptional, names_allOptional]
  · rw [named?_allOptional, named?_merge distinct distinct', named?_merge (by simpa) (by simpa),
      named?_allOptional, named?_allOptional, Option.map_or]

theorem nodup_names_without (distinct : (properties.map name).Nodup) (keys : List String) :
    ((without keys properties).map name).Nodup :=
  distinct.sublist (List.filter_sublist.map name)

theorem nodup_names_only (distinct : (properties.map name).Nodup) (keys : List String) :
    ((only keys properties).map name).Nodup :=
  distinct.sublist (List.filter_sublist.map name)

/-- Objects without a common name are merged one after the other. -/
theorem merge_eq_append (distinct : (base.map name).Nodup) (distinct' : (extra.map name).Nodup)
    (disjoint : ∀ n ∈ base.map name, n ∉ extra.map name) : merge base extra = base ++ extra := by
  have kept : base.map (replaced extra) = base := by
    refine (List.map_congr_left fun p mem => ?_).trans (List.map_id base)
    exact replaced_of_not_mem (disjoint p.name (List.mem_map_of_mem mem))
  have added : extra.filter (fun p => p.name ∉ base.map name) = extra := by
    refine List.filter_eq_self.2 fun p mem => decide_eq_true fun among => ?_
    exact disjoint p.name among (List.mem_map_of_mem mem)
  rw [merge_eq distinct distinct', kept, added]

/-- What is picked, together with what is left out, is all of the properties. -/
theorem merge_only_without_perm (distinct : (base.map name).Nodup) (keys : List String) :
    (merge (only keys base) (without keys base)).Perm base := by
  have disjoint : ∀ n ∈ (only keys base).map name, n ∉ (without keys base).map name := by
    intro n among among'
    obtain ⟨p, mem, rfl⟩ := List.mem_map.1 among
    obtain ⟨q, mem', same⟩ := List.mem_map.1 among'
    have picked := (List.mem_filter.1 mem).2
    have left := (List.mem_filter.1 mem').2
    rw [same, picked] at left
    cases left
  rw [merge_eq_append (nodup_names_only distinct keys) (nodup_names_without distinct keys) disjoint]
  exact List.filter_append_perm _ base

/-! ## Leaving properties out -/

theorem without_without : without keys (without names properties)
    = without (names ++ keys) properties := by
  rw [without, without, without, List.filter_filter]
  refine List.filter_congr fun p _ => ?_
  simp [Bool.and_comm]

theorem only_only : only keys (only names properties)
    = only (names.filter (keys.contains ·)) properties := by
  rw [only, only, only, List.filter_filter]
  refine List.filter_congr fun p _ => ?_
  simp [Bool.and_comm, List.mem_filter]

theorem only_only_eq_filter : only keys (only names properties)
    = properties.filter fun p => p.name ∈ names ∧ p.name ∈ keys := by
  rw [only, only, List.filter_filter]
  refine List.filter_congr fun p _ => ?_
  simp [Bool.and_comm]

theorem allOptional_allOptional :
    allOptional (allOptional properties) = allOptional properties := by
  simp [allOptional]

theorem allOptional_without :
    allOptional (without names properties) = without names (allOptional properties) := by
  rw [without, without, allOptional, allOptional, List.filter_map]
  rfl

theorem allOptional_only :
    allOptional (only names properties) = only names (allOptional properties) := by
  rw [only, only, allOptional, allOptional, List.filter_map]
  rfl

end Property

end ModelForms
