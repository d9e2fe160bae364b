import Mathlib.Data.List.Nodup
import Mathlib.Data.List.Perm.Subperm
import ModelForms.Proofs.Types.Closed

/-!
# Names and handles

A handle is the place of a name among the reserved names, so all that is said of handles follows
from the list of names (`Definitions.name?_eq_getElem?`).  Where no name is reserved twice, names
and handles lead to each other.  Defining a model changes no name, and it changes no other body
(`Definitions.body?_define`).
-/

namespace ModelForms

namespace Definitions

variable {defs later : Definitions} {definition other : ModelId} {name : String} {body : TypeId}

/-! ## From handles to names -/

theorem name?_eq_getElem? (i : Nat) : defs.name? ⟨i + 1⟩ = defs.names[i]? := by
  unfold name? get? names
  rw [List.getElem?_map]

theorem name?_eq_of_names_eq (same : later.names = defs.names) (definition : ModelId) :
    later.name? definition = defs.name? definition := by
  obtain ⟨i⟩ := definition
  cases i with
  | zero => rfl
  | succ i => rw [name?_eq_getElem?, name?_eq_getElem?, same]

theorem mem_names_of_name? (h : defs.name? definition = some name) : name ∈ defs.names := by
  obtain ⟨i⟩ := definition
  cases i with
  | zero => cases h
  | succ i =>
    rw [name?_eq_getElem?] at h
    exact List.mem_of_getElem? h

theorem exists_name?_of_contains (reserved : defs.contains definition = true) :
    ∃ name, defs.name? definition = some name := by
  obtain ⟨entry, found⟩ := Option.isSome_iff_exists.1 reserved
  exact ⟨entry.name, by simp [name?, found]⟩

theorem contains_of_name? (h : defs.name? definition = some name) :
    defs.contains definition = true := by
  obtain ⟨entry, found, _⟩ := Option.map_eq_some_iff.1 h
  rw [contains, found, Option.isSome_some]

theorem describe_eq_of_name? (h : defs.name? definition = some name) :
    defs.describe definition = name := by
  unfold describe
  rw [h, Option.getD_some]

/-- Handles that were given out have different names if all names are different. -/
theorem eq_of_name?_eq (distinct : defs.names.Nodup) (h : defs.name? definition = some name)
    (h' : defs.name? other = some name) : definition = other := by
  obtain ⟨i⟩ := definition
  obtain ⟨j⟩ := other
  cases i with
  | zero => cases h
  | succ i =>
    cases j with
    | zero => cases h'
    | succ j =>
      rw [name?_eq_getElem?] at h h'
      have bound := (List.getElem?_eq_some_iff.1 h).1
      rw [(List.getElem?_inj bound distinct).1 (h.trans h'.symm)]

theorem eq_of_describe_eq (distinct : defs.names.Nodup)
    (reserved : defs.contains definition = true) (reserved' : defs.contains other = true)
    (same : defs.describe definition = defs.describe other) : definition = other := by
  obtain ⟨name, named⟩ := exists_name?_of_contains reserved
  obtain ⟨name', named'⟩ := exists_name?_of_contains reserved'
  rw [describe_eq_of_name? named, describe_eq_of_name? named'] at same
  exact eq_of_name?_eq distinct named (same ▸ named')

/-- No more different handles than models were given out. -/
theorem length_le_size {definitions : List ModelId} (distinct : definitions.Nodup)
    (reserved : ∀ definition ∈ definitions, defs.contains definition = true) :
    definitions.length ≤ defs.size := by
  have indices : (definitions.map ModelId.index).Nodup :=
    distinct.map fun a b same => by cases a; cases b; cases same; rfl
  have subset : definitions.map ModelId.index ⊆ List.range' 1 defs.size := by
    intro i mem
    obtain ⟨definition, among, rfl⟩ := List.mem_map.1 mem
    have bounds := contains_iff.1 (reserved definition among)
    rw [List.mem_range'_1]
    omega
  simpa using (indices.subperm subset).length_le

/-! ## From names to handles -/

theorem find?_eq_none_iff : defs.find? name = none ↔ name ∉ defs.names := by
  unfold find? names
  rw [Option.map_eq_none_iff, List.findIdx?_eq_none_iff]
  simp

theorem exists_find?_of_mem (mem : name ∈ defs.names) :
    ∃ definition, defs.find? name = some definition := by
  cases found : defs.find? name with
  | none => exact absurd mem (find?_eq_none_iff.1 found)
  | some definition => exact ⟨definition, rfl⟩

/-! ## Reserving and defining -/

theorem mem_names_reserve_iff {known : String} :
    known ∈ (defs.reserve name).2.names ↔ known ∈ defs.names ∨ known = name := by
  unfold reserve
  split
  next found =>
    refine ⟨.inl, fun h => h.elim id fun same => same ▸ ?_⟩
    exact mem_names_of_name? (name?_eq_some_of_find? found)
  next => simp [names]

theorem nodup_names_reserve (distinct : defs.names.Nodup) :
    (defs.reserve name).2.names.Nodup := by
  unfold reserve
  split
  next => exact distinct
  next absent =>
    have new := find?_eq_none_iff.1 absent
    show (defs.entries ++ [_]).map Definition.name |>.Nodup
    rw [List.map_append, List.map_singleton, ← List.concat_eq_append]
    exact distinct.concat new

theorem contains_of_body? (h : defs.body? definition = some body) :
    defs.contains definition = true := by
  obtain ⟨entry, found, _⟩ := Option.bind_eq_some_iff.1 h
  simp [contains, found]

theorem isDefined_iff :
    defs.isDefined definition = true ↔ ∃ body, defs.body? definition = some body :=
  Option.isSome_iff_exists

/-- A model that is defined has the body that is set, and the others keep theirs. -/
theorem body?_define (reserved : defs.contains definition = true) :
    (defs.define definition body).2.body? other
      = if other = definition then some body else defs.body? other := by
  obtain ⟨i⟩ := definition
  obtain ⟨j⟩ := other
  obtain ⟨proper, le⟩ := contains_iff.1 reserved
  simp only at proper le
  unfold define
  rw [if_pos reserved]
  unfold body? get?
  cases j with
  | zero => rw [if_neg (by simpa using Ne.symm proper)]
  | succ j =>
    simp only [List.getElem?_modify, ModelId.mk.injEq]
    by_cases same : j + 1 = i
    · subst same
      have lt : j < defs.entries.length := le
      simp [List.getElem?_eq_getElem lt]
    · have elsewhere : i - 1 ≠ j := by omega
      simp [same, elsewhere]

end Definitions

end ModelForms
