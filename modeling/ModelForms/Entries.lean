/-!
# Entries in order

Members of a JSON object, hints for the fields of a group, models of a document and controls of a
form are all maps whose order counts: a new key goes last, and a key that comes again keeps its
place and takes the new value.  Such a map is a list of entries without a repeated key.

The main statements say what the operations do to the two views of a map, its keys and its look-up:
`lookup_put`, `keys_put`, `lookup_erase` and `keys_erase`.
-/

namespace ModelForms

/-- Entries of a map in their order. -/
abbrev Entries (α : Type) := List (String × α)

namespace Entries

variable {α β : Type}

/-- The keys in order. -/
def keys (entries : Entries α) : List String := entries.map Prod.fst

/-- Whether a key occurs. -/
def hasKey (key : String) (entries : Entries α) : Bool := (entries.lookup key).isSome

/-- The entries with a key set to a value: in its place if the key is there, else at the end. -/
def put (key : String) (value : α) : Entries α → Entries α
  | [] => [(key, value)]
  | (k, v) :: rest => if k = key then (key, value) :: rest else (k, v) :: put key value rest
termination_by structural entries => entries

/-- The entries with the first entry of a key taken out. -/
def erase (key : String) : Entries α → Entries α
  | [] => []
  | (k, v) :: rest => if k = key then rest else (k, v) :: erase key rest
termination_by structural entries => entries

/-- The map that a list of pairs describes, when the pairs are read in order. -/
def collect (pairs : List (String × α)) : Entries α :=
  pairs.foldl (fun entries p => put p.1 p.2 entries) []

/-- The entries with a function applied to the value of a key. -/
def modify (key : String) (f : α → α) : Entries α → Entries α
  | [] => []
  | (k, v) :: rest => if k = key then (k, f v) :: rest else (k, v) :: modify key f rest
termination_by structural entries => entries

/-! ## The two views -/

theorem lookup_cons (key k : String) (v : α) (rest : Entries α) :
    List.lookup key ((k, v) :: rest) = if k = key then some v else List.lookup key rest := by
  by_cases h : k = key
  · subst h
    rw [List.lookup_cons_self, if_pos rfl]
  · have other : (key == k) = false := by simp [Ne.symm h]
    rw [List.lookup_cons, other, if_neg h]

theorem lookup_eq_none_iff {key : String} {entries : Entries α} :
    entries.lookup key = none ↔ key ∉ entries.keys := by
  induction entries with
  | nil => simp [keys]
  | cons e rest ih =>
    obtain ⟨k, v⟩ := e
    by_cases h : k = key
    · simp [keys, h]
    · simp only [lookup_cons, h, if_false]
      rw [ih]
      simp [keys, Ne.symm h]

theorem hasKey_iff {key : String} {entries : Entries α} :
    hasKey key entries = true ↔ key ∈ entries.keys := by
  unfold hasKey
  cases h : entries.lookup key with
  | none => simpa using lookup_eq_none_iff.1 h
  | some v =>
    simp only [Option.isSome_some, true_iff]
    exact Decidable.byContradiction fun hk => by simp [lookup_eq_none_iff.2 hk] at h

/-- After a key is set, it has that value, and every other key has the value it had. -/
theorem lookup_put (key other : String) (value : α) (entries : Entries α) :
    (put key value entries).lookup other
      = if key = other then some value else entries.lookup other := by
  induction entries with
  | nil => simp [put, lookup_cons]
  | cons e rest ih =>
    obtain ⟨k, v⟩ := e
    unfold put
    by_cases h : k = key
    · subst h
      by_cases h' : k = other <;> simp [lookup_cons, h']
    · simp only [h, if_false, lookup_cons, ih]
      by_cases h' : k = other
      · subst h'; simp [Ne.symm h]
      · simp [h']

/-- Setting a key keeps the order of the keys and adds a new one last. -/
theorem keys_put (key : String) (value : α) (entries : Entries α) :
    (put key value entries).keys
      = if key ∈ entries.keys then entries.keys else entries.keys ++ [key] := by
  induction entries with
  | nil => simp [put, keys]
  | cons e rest ih =>
    obtain ⟨k, v⟩ := e
    unfold put
    by_cases h : k = key
    · simp [h, keys]
    · have hcons : keys ((k, v) :: put key value rest) = k :: (put key value rest).keys := rfl
      simp only [h, if_false]
      rw [hcons, ih]
      by_cases hk : key ∈ keys rest
      · have : key ∈ keys ((k, v) :: rest) := List.mem_cons_of_mem _ hk
        simp only [hk, this, if_true]
        rfl
      · have : key ∉ keys ((k, v) :: rest) := by
          simp only [keys, List.map_cons, List.mem_cons, not_or]
          exact ⟨Ne.symm h, hk⟩
        simp only [hk, this, if_false]
        rfl

/-- Setting a key never makes a key occur twice. -/
theorem nodup_keys_put {entries : Entries α} (h : entries.keys.Nodup) (key : String) (value : α) :
    (put key value entries).keys.Nodup := by
  rw [keys_put]
  split
  · exact h
  · rename_i hk
    exact List.nodup_append.2 ⟨h, by simp, by
      intro a ha b hb
      simp only [List.mem_singleton] at hb
      subst hb
      exact fun heq => hk (heq ▸ ha)⟩

/-- The entries that a list of pairs describes have distinct keys. -/
theorem nodup_keys_collect (pairs : List (String × α)) : (collect pairs).keys.Nodup := by
  have aux (start : Entries α) (h : start.keys.Nodup) :
      (pairs.foldl (fun entries p => put p.1 p.2 entries) start).keys.Nodup := by
    induction pairs generalizing start with
    | nil => exact h
    | cons p rest ih => exact ih _ (nodup_keys_put h _ _)
  exact aux [] (by simp [keys])

/-- Taking a key out leaves the other keys in their order. -/
theorem keys_erase (key : String) (entries : Entries α) :
    (entries.erase key).keys = List.erase entries.keys key := by
  induction entries with
  | nil => rfl
  | cons e rest ih =>
    obtain ⟨k, v⟩ := e
    unfold erase
    by_cases h : k = key
    · subst h; simp [keys]
    · have : (k == key) = false := by simp [h]
      simp only [h, if_false]
      have hcons : keys ((k, v) :: erase key rest) = k :: (erase key rest).keys := rfl
      rw [hcons, ih]
      simp [keys, this]

/-- After a key is taken out of a map with distinct keys it is gone, and the others are untouched.
-/
theorem lookup_erase {entries : Entries α} (h : entries.keys.Nodup) (key other : String) :
    (entries.erase key).lookup other = if key = other then none else entries.lookup other := by
  induction entries with
  | nil => simp [erase]
  | cons e rest ih =>
    obtain ⟨k, v⟩ := e
    have hk : k ∉ keys rest ∧ (keys rest).Nodup := by
      simpa [keys, List.nodup_cons] using h
    unfold erase
    by_cases hkk : k = key
    · subst hkk
      by_cases ho : k = other
      · subst ho; simpa using lookup_eq_none_iff.2 hk.1
      · simp [ho, lookup_cons]
    · simp only [hkk, if_false, lookup_cons, ih hk.2]
      by_cases ho : k = other
      · subst ho; simp [Ne.symm hkk]
      · simp [ho]

example : collect [("a", 1), ("b", 2), ("a", 3)] = [("a", 3), ("b", 2)] := by decide

end Entries

end ModelForms
