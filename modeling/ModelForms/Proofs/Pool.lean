import ModelForms.Pool
import ModelForms.Proofs.FirstOccurrences

/-!
# Sound pools

In a pool that is built up by adding values the index is the inverse of the list of values
(`Pool.Sound`).  So a value has one number, and adding values changes no number.
-/

namespace ModelForms

namespace Pool

variable {α : Type} {pool : Pool α} {value : α} {number : Nat}

/-- A value keeps its number when values are added at the end. -/
theorem get?_of_prefix {later : Pool α} (grows : pool.items <+: later.items)
    (h : pool.get? number = some value) : later.get? number = some value := by
  obtain ⟨added, same⟩ := grows
  unfold get? at h ⊢
  rw [← same, List.getElem?_append_left (List.getElem?_eq_some_iff.1 h).1, h]

theorem get?_insert_eq_some_iff {other : α} : (pool.insert value).2.get? number = some other
    ↔ pool.get? number = some other ∨ number = pool.items.length ∧ value = other := by
  unfold insert get?
  rcases Nat.lt_trichotomy number pool.items.length with inside | rfl | beyond
  · rw [List.getElem?_append_left inside]
    simp [Nat.ne_of_lt inside]
  · simp
  · have outside : (pool.items ++ [value]).length ≤ number := by
      rwa [List.length_append, List.length_singleton]
    rw [List.getElem?_eq_none outside, List.getElem?_eq_none (Nat.le_of_lt beyond)]
    simp [Nat.ne_of_gt beyond]

variable [DecidableEq α]

/-- The index is the inverse of the values. -/
def Sound (pool : Pool α) : Prop :=
  ∀ value number, pool.find? value = some number ↔ pool.get? number = some value

theorem sound_empty : (empty : Pool α).Sound := by
  intro value number
  simp [empty, find?, get?]

theorem find?_insert (pool : Pool α) (value other : α) :
    (pool.insert value).2.find? other
      = if other = value then some pool.items.length else pool.find? other :=
  lookup_cons_eq_ite value other pool.items.length pool.index

/-- Adding a value that is not there keeps a pool sound. -/
theorem Sound.insert (sound : pool.Sound) (new : pool.find? value = none) :
    (pool.insert value).2.Sound := by
  have absent (number : Nat) : pool.get? number ≠ some value := fun h => by
    rw [(sound value number).2 h] at new
    cases new
  intro other number
  rw [find?_insert, get?_insert_eq_some_iff]
  by_cases same : other = value
  · subst same
    rw [if_pos rfl, Option.some.injEq]
    constructor
    · rintro rfl
      exact .inr ⟨rfl, rfl⟩
    · rintro (h | ⟨last, _⟩)
      · exact absurd h (absent number)
      · exact last.symm
  · rw [if_neg same, sound other number]
    exact ⟨.inl, fun h => h.resolve_right fun last => same last.2.symm⟩

theorem sound_seeded (value : α) : (seeded value).Sound := sound_empty.insert rfl

theorem Sound.intern (sound : pool.Sound) (value : α) : (pool.intern value).2.Sound := by
  unfold Pool.intern
  split
  next => exact sound
  next new => exact sound.insert new

/-- A value is found at the number that it is given. -/
theorem Sound.get?_intern (sound : pool.Sound) (value : α) :
    (pool.intern value).2.get? (pool.intern value).1 = some value := by
  unfold Pool.intern
  split
  next found => exact (sound value _).1 found
  next => exact List.getElem?_concat_length

theorem prefix_intern (value : α) (pool : Pool α) :
    pool.items <+: (pool.intern value).2.items := by
  unfold Pool.intern
  split
  next => exact List.prefix_rfl
  next => exact List.prefix_append _ _

/-- A value has one number. -/
theorem Sound.unique (sound : pool.Sound) {again : Nat} (h : pool.get? number = some value)
    (h' : pool.get? again = some value) : number = again :=
  Option.some.inj (((sound value number).2 h).symm.trans ((sound value again).2 h'))

end Pool

end ModelForms
