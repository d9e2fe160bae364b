import ModelForms.Entries
import ModelForms.Proofs.FirstOccurrences

/-!
# Collecting and looking up

`Entries.collect` makes a map of a list of pairs.  What it has under a key is what the last pair of
that key has (`lookup_collect`), and a list without a repeated key is left as it is
(`collect_eq_self`).

What is looked up is one of the entries (`mem_of_lookup`), and where no key is repeated each entry
is what is looked up under its key (`lookup_of_mem`).
-/

namespace ModelForms

namespace Entries

variable {α β : Type}

theorem lookup_collect (pairs : List (String × α)) (key : String) :
    (collect pairs).lookup key = pairs.reverse.lookup key := by
  have aux (start : Entries α) :
      (pairs.foldl (fun entries p => put p.1 p.2 entries) start).lookup key
        = (pairs.reverse ++ start).lookup key := by
    induction pairs generalizing start with
    | nil => rfl
    | cons p rest ih =>
      rw [List.foldl_cons, ih, List.reverse_cons, List.append_assoc, List.lookup_append,
        List.lookup_append, lookup_put, List.singleton_append, lookup_cons]
  have := aux []
  rwa [List.append_nil] at this

theorem lookup_collect_eq_none_iff {pairs : List (String × α)} {key : String} :
    (collect pairs).lookup key = none ↔ key ∉ keys pairs := by
  rw [lookup_collect, lookup_eq_none_iff, keys, List.map_reverse, List.mem_reverse]
  exact Iff.rfl

/-- A pair whose key comes once is what is looked up under the key. -/
theorem lookup_reverse_of_mem {pairs : List (String × α)} {key : String} {value : α}
    (mem : (key, value) ∈ pairs) (once : (keys pairs).count key ≤ 1) :
    pairs.reverse.lookup key = some value := by
  obtain ⟨before, after, rfl⟩ := List.append_of_mem mem
  have absent : key ∉ keys after := by
    rw [← List.count_eq_zero]
    rw [keys, List.map_append, List.map_cons, List.count_append, List.count_cons_self] at once
    unfold keys
    omega
  have none : after.reverse.lookup key = none := by
    rw [lookup_eq_none_iff, keys, List.map_reverse, List.mem_reverse]
    exact absent
  rw [List.reverse_append, List.reverse_cons, List.append_assoc, List.lookup_append, none,
    Option.none_or, List.singleton_append, lookup_cons, if_pos rfl]

theorem put_of_not_mem {key : String} {entries : Entries α} (h : key ∉ entries.keys) (value : α) :
    put key value entries = entries ++ [(key, value)] := by
  induction entries with
  | nil => rfl
  | cons e rest ih =>
    obtain ⟨k, v⟩ := e
    simp only [keys, List.map_cons, List.mem_cons, not_or] at h
    unfold put
    rw [if_neg (Ne.symm h.1), ih h.2, List.cons_append]

/-- Pairs with new and distinct keys all go to the end. -/
theorem foldl_put_of_nodup {pairs : List (String × α)} {start : Entries α}
    (h : (keys (start ++ pairs)).Nodup) :
    pairs.foldl (fun entries p => put p.1 p.2 entries) start = start ++ pairs := by
  induction pairs generalizing start with
  | nil => rw [List.foldl_nil, List.append_nil]
  | cons p rest ih =>
    have new : p.1 ∉ keys start := by
      intro hmem
      rw [keys, List.map_append, List.map_cons] at h
      exact (List.nodup_append.1 h).2.2 _ hmem _ List.mem_cons_self rfl
    rw [List.append_cons] at h ⊢
    rw [List.foldl_cons, put_of_not_mem new]
    exact ih h

theorem collect_eq_self {pairs : List (String × α)} (h : (keys pairs).Nodup) :
    collect pairs = pairs :=
  foldl_put_of_nodup h

theorem mem_of_mem_put {key : String} {value : α} {entries : Entries α} {entry : String × α}
    (h : entry ∈ put key value entries) : entry = (key, value) ∨ entry ∈ entries := by
  induction entries with
  | nil => exact Or.inl (List.mem_singleton.1 h)
  | cons e rest ih =>
    unfold put at h
    split at h
    · exact (List.mem_cons.1 h).imp_right (List.mem_cons_of_mem e)
    · rcases List.mem_cons.1 h with rfl | h
      · exact Or.inr List.mem_cons_self
      · exact (ih h).imp_right (List.mem_cons_of_mem e)

theorem mem_of_mem_foldl_put {pairs : List (String × α)} {start : Entries α}
    {entry : String × α} (h : entry ∈ pairs.foldl (fun entries p => put p.1 p.2 entries) start) :
    entry ∈ pairs ∨ entry ∈ start := by
  induction pairs generalizing start with
  | nil => exact Or.inr h
  | cons p rest ih =>
    rcases ih h with h | h
    · exact Or.inl (List.mem_cons_of_mem p h)
    · rcases mem_of_mem_put h with rfl | h
      · exact Or.inl List.mem_cons_self
      · exact Or.inr h

/-- Collecting invents no entries. -/
theorem mem_of_mem_collect {pairs : List (String × α)} {entry : String × α}
    (h : entry ∈ collect pairs) : entry ∈ pairs :=
  (mem_of_mem_foldl_put h).resolve_right List.not_mem_nil

/-! ## Looking up -/

theorem lookup_map (f : String → α → β) (entries : Entries α) (key : String) :
    List.lookup key (entries.map fun e => (e.1, f e.1 e.2)) = (entries.lookup key).map (f key) := by
  induction entries with
  | nil => rfl
  | cons e rest ih =>
    obtain ⟨k, value⟩ := e
    rw [List.map_cons, lookup_cons, lookup_cons, ih]
    split
    next same => rw [same, Option.map_some]
    next => rfl

theorem mem_of_lookup {entries : Entries α} {key : String} {value : α}
    (h : entries.lookup key = some value) : (key, value) ∈ entries := by
  induction entries with
  | nil => cases h
  | cons e rest ih =>
    obtain ⟨k, v⟩ := e
    rw [lookup_cons] at h
    split at h
    next same =>
      cases h
      rw [same]
      exact List.mem_cons_self
    next => exact List.mem_cons_of_mem _ (ih h)

theorem mem_keys_of_lookup {entries : Entries α} {key : String} {value : α}
    (h : entries.lookup key = some value) : key ∈ entries.keys :=
  List.mem_map_of_mem (mem_of_lookup h)

theorem lookup_of_mem {entries : Entries α} (distinct : entries.keys.Nodup) {entry : String × α}
    (mem : entry ∈ entries) : entries.lookup entry.1 = some entry.2 :=
  (lookup_eq_some_iff_mem distinct).2 mem

/-- An entry with a new key is found under its key, and the others as they were. -/
theorem lookup_insert {front back : Entries α} {key : String} {value : α} (new : key ∉ front.keys)
    (other : String) : (front ++ (key, value) :: back).lookup other
      = if key = other then some value else (front ++ back).lookup other := by
  rw [List.lookup_append, List.lookup_append, lookup_cons]
  split
  next same =>
    rw [← same, lookup_eq_none_iff.2 new]
    rfl
  next => rfl

end Entries

end ModelForms
