import ModelForms.Proofs.Types.NamedTerms

/-!
# Properties by structure

Composing objects is composing their lists of properties, and the ids of the property types have no
part in that.  So the structures of composed properties are the composed structures
(`Catalog.map_namedProperty_merge` and its siblings).  For `&` this rests on what merging does to
lists without repeated names: `Property.merge` puts the properties of the second object one by one
into a map that starts with those of the first.
-/

namespace ModelForms

/-- Properties in order: the name, whether it may be absent, and the structure of the type. -/
abbrev NamedProperties := List ((String × Bool) × NamedTerm)

namespace NamedProperties

/-- The properties, each of them optional. -/
def allOptional (properties : NamedProperties) : NamedProperties :=
  properties.map fun p => ((p.1.1, true), p.2)

/-- The properties whose names are not in a list. -/
def without (names : List String) (properties : NamedProperties) : NamedProperties :=
  properties.filter fun p => p.1.1 ∉ names

/-- The properties whose names are in a list. -/
def only (names : List String) (properties : NamedProperties) : NamedProperties :=
  properties.filter fun p => p.1.1 ∈ names

/-- The properties of two objects.  One that both have keeps its place in the first and is declared
as in the second. -/
def merge (base extra : NamedProperties) : NamedProperties :=
  base.map (fun p => (extra.find? fun q => q.1.1 = p.1.1).getD p)
    ++ extra.filter fun q => q.1.1 ∉ base.map (·.1.1)

end NamedProperties

namespace Entries

variable {α : Type} {key : String}

/-- Setting a key that is there replaces its one entry. -/
theorem put_of_mem {entries : Entries α} (distinct : entries.keys.Nodup) (mem : key ∈ entries.keys)
    (value : α) :
    put key value entries = entries.map fun e => if e.1 = key then (key, value) else e := by
  induction entries with
  | nil => cases mem
  | cons e rest ih =>
    obtain ⟨k, v⟩ := e
    obtain ⟨absent, distinct⟩ := List.nodup_cons.1 distinct
    unfold put
    rw [List.map_cons]
    split
    next same =>
      subst same
      have unchanged : (rest.map fun e => if e.1 = k then (k, value) else e) = rest := by
        refine (List.map_congr_left fun e among => if_neg ?_).trans (List.map_id rest)
        intro same
        exact absent (List.mem_map.2 ⟨e, among, same⟩)
      rw [unchanged]
    next other => rw [ih distinct ((List.mem_cons.1 mem).resolve_left (Ne.symm other))]

end Entries

namespace Property

/-- A property, or the one that has its name in a list. -/
def replaced (extra : List Property) (p : Property) : Property :=
  (extra.find? fun q => q.name = p.name).getD p

variable {base extra rest : List Property} {p q : Property}

theorem replaced_of_not_mem (absent : q.name ∉ extra.map name) : replaced extra q = q := by
  have none : (extra.find? fun r => r.name = q.name) = none := by
    rw [List.find?_eq_none]
    intro r mem same
    exact absent (List.mem_map.2 ⟨r, mem, by simpa using same⟩)
  rw [replaced, none, Option.getD_none]

theorem replaced_cons_of_ne (other : p.name ≠ q.name) :
    replaced (p :: rest) q = replaced rest q := by
  simp [replaced, other]

theorem replaced_cons_of_eq (same : p.name = q.name) : replaced (p :: rest) q = p := by
  simp [replaced, same]

theorem name_replaced : (replaced extra q).name = q.name := by
  unfold replaced
  cases found : extra.find? fun r => r.name = q.name with
  | none => rfl
  | some r => simpa using List.find?_some found

theorem map_name_replaced : (base.map (replaced extra)).map name = base.map name := by
  rw [List.map_map]
  exact List.map_congr_left fun q _ => name_replaced

/-- One property more in a map of properties by their names. -/
theorem put_map (distinct : (base.map name).Nodup) (p : Property) :
    Entries.put p.name p (base.map fun q => (q.name, q))
      = (if p.name ∈ base.map name then base.map (replaced [p]) else base ++ [p]).map
        fun q => (q.name, q) := by
  have keys : Entries.keys (base.map fun q => (q.name, q)) = base.map name := by
    simp [Entries.keys, Function.comp_def]
  split
  next mem =>
    rw [Entries.put_of_mem (keys ▸ distinct) (keys ▸ mem), List.map_map, List.map_map]
    refine List.map_congr_left fun q _ => ?_
    by_cases same : p.name = q.name
    · simp [replaced_cons_of_eq same, same]
    · simp [replaced_cons_of_ne same, replaced_of_not_mem, Ne.symm same]
  next absent =>
    rw [Entries.put_of_not_mem (keys ▸ absent), List.map_append]
    rfl

/-- Putting properties one by one into a map replaces those that are there and adds the others. -/
theorem foldl_put_map (distinct : (base.map name).Nodup) (distinct' : (extra.map name).Nodup) :
    (extra.map fun p => (p.name, p)).foldl (fun entries e => Entries.put e.1 e.2 entries)
        (base.map fun p => (p.name, p))
      = (base.map (replaced extra) ++ extra.filter fun p => p.name ∉ base.map name).map
        fun p => (p.name, p) := by
  induction extra generalizing base with
  | nil =>
    have unchanged : base.map (replaced []) = base := List.map_id base
    simp [unchanged]
  | cons p rest ih =>
    obtain ⟨new, distinct'⟩ := List.nodup_cons.1 distinct'
    rw [List.map_cons, List.foldl_cons, put_map distinct p]
    split
    next mem =>
      have once : base.map (replaced rest ∘ replaced [p]) = base.map (replaced (p :: rest)) := by
        refine List.map_congr_left fun q _ => ?_
        by_cases same : p.name = q.name
        · rw [Function.comp, replaced_cons_of_eq same, replaced_cons_of_eq same,
            replaced_of_not_mem new]
        · rw [Function.comp, replaced_cons_of_ne same, replaced_cons_of_ne same]
          rfl
      have names : (base.map (replaced [p])).map name = base.map name := map_name_replaced
      rw [ih (names ▸ distinct) distinct', names, List.map_map, once,
        List.filter_cons_of_neg (by simpa using mem)]
    next absent =>
      have names : (base ++ [p]).map name = base.map name ++ [p.name] := List.map_append
      have once : (base ++ [p]).map (replaced rest) = base.map (replaced (p :: rest)) ++ [p] := by
        rw [List.map_append, List.map_singleton, replaced_of_not_mem new]
        refine congrArg (· ++ [p]) (List.map_congr_left fun q mem =>
          (replaced_cons_of_ne fun same => ?_).symm)
        exact absent (same ▸ List.mem_map_of_mem mem)
      have others : rest.filter (fun q => q.name ∉ (base ++ [p]).map name)
          = rest.filter fun q => q.name ∉ base.map name := by
        refine List.filter_congr fun q mem => ?_
        have other : q.name ≠ p.name := fun same => new (same ▸ List.mem_map_of_mem mem)
        simp [other]
      rw [ih (names ▸ List.nodup_append.2 ⟨distinct, by simp, by
          rintro a mem b mem' rfl
          exact absent (List.mem_singleton.1 mem' ▸ mem)⟩) distinct', others,
        List.filter_cons_of_pos (by simpa using absent), once, List.append_assoc]
      rfl

theorem merge_eq (distinct : (base.map name).Nodup) (distinct' : (extra.map name).Nodup) :
    merge base extra
      = base.map (replaced extra) ++ extra.filter fun p => p.name ∉ base.map name := by
  have start : Entries.collect (base.map fun p => (p.name, p)) = base.map fun p => (p.name, p) :=
    Entries.collect_eq_self (by simpa [Entries.keys, Function.comp_def] using distinct)
  unfold Entries.collect at start
  unfold merge Entries.collect
  rw [List.map_append, List.foldl_append, start, foldl_put_map distinct distinct', List.map_map]
  exact List.map_id _

end Property

namespace Catalog

variable {catalog : Catalog} {base extra properties : List Property}

theorem map_namedProperty_allOptional :
    (Property.allOptional properties).map catalog.namedProperty
      = NamedProperties.allOptional (properties.map catalog.namedProperty) := by
  simp [Property.allOptional, NamedProperties.allOptional, namedProperty]

theorem map_namedProperty_without (names : List String) :
    (Property.without names properties).map catalog.namedProperty
      = NamedProperties.without names (properties.map catalog.namedProperty) := by
  rw [Property.without, NamedProperties.without, List.filter_map]
  refine congrArg _ (List.filter_congr fun p _ => ?_)
  by_cases mem : p.name ∈ names <;> simp [namedProperty, mem]

theorem map_namedProperty_only (names : List String) :
    (Property.only names properties).map catalog.namedProperty
      = NamedProperties.only names (properties.map catalog.namedProperty) := by
  rw [Property.only, NamedProperties.only, List.filter_map]
  refine congrArg _ (List.filter_congr fun p _ => ?_)
  by_cases mem : p.name ∈ names <;> simp [namedProperty, mem]

theorem map_namedProperty_merge (distinct : (base.map Property.name).Nodup)
    (distinct' : (extra.map Property.name).Nodup) :
    (Property.merge base extra).map catalog.namedProperty
      = NamedProperties.merge (base.map catalog.namedProperty)
        (extra.map catalog.namedProperty) := by
  have replaced (p : Property) : catalog.namedProperty (Property.replaced extra p)
      = ((extra.map catalog.namedProperty).find? fun q =>
          q.1.1 = (catalog.namedProperty p).1.1).getD (catalog.namedProperty p) := by
    rw [Property.replaced, List.find?_map, Option.getD_map]
    rfl
  have names : (base.map catalog.namedProperty).map (·.1.1) = base.map Property.name :=
    List.map_map
  rw [Property.merge_eq distinct distinct', NamedProperties.merge, names, List.map_append,
    List.map_map, List.map_map, List.filter_map]
  exact congrArg₂ _ (List.map_congr_left fun p _ => replaced p) rfl

end Catalog

end ModelForms
