import Mathlib.Data.List.Induction
import Mathlib.Data.List.Nodup

/-!
# First occurrences

A list without its repetitions has each element where it occurs first, and what is looked up in a
list of pairs is what the first pair has that the key occurs in.  Adding an element at the end of
the one (`eraseDups_concat_of_mem`, `eraseDups_concat_of_notMem`) or a pair at the front of the
other (`lookup_cons_eq_ite`) shows at once.

A function that tells all elements apart finds the same first occurrences (`eraseDups_map`), and
where no key comes twice, what is looked up is what is there (`lookup_eq_some_iff_mem`).
-/

namespace ModelForms

/-! ## Lists without repetitions -/

section

variable {α β : Type} [BEq α] [LawfulBEq α] {l : List α} {a : α}

theorem eraseDups_concat_of_mem (mem : a ∈ l) : (l ++ [a]).eraseDups = l.eraseDups := by
  rw [List.eraseDups_append, List.cons_removeAll, if_neg (by simpa using mem)]
  exact List.append_nil _

theorem eraseDups_concat_of_notMem (absent : a ∉ l) :
    (l ++ [a]).eraseDups = l.eraseDups ++ [a] := by
  rw [List.eraseDups_append, List.cons_removeAll, if_pos (by simpa using absent)]
  rfl

theorem eraseDups_map [BEq β] [LawfulBEq β] {f : α → β}
    (apart : ∀ a ∈ l, ∀ b ∈ l, f a = f b → a = b) : (l.map f).eraseDups = l.eraseDups.map f := by
  induction l using List.reverseRecOn with
  | nil => rfl
  | append_singleton l a ih =>
    have in_l {b : α} (mem : b ∈ l) : b ∈ l ++ [a] := List.mem_append_left _ mem
    have earlier := ih fun b hb c hc => apart b (in_l hb) c (in_l hc)
    rw [List.map_append, List.map_singleton]
    by_cases mem : a ∈ l
    · rw [eraseDups_concat_of_mem mem, eraseDups_concat_of_mem (List.mem_map_of_mem mem), earlier]
    · have new : f a ∉ l.map f := by
        intro again
        obtain ⟨b, hb, same⟩ := List.mem_map.1 again
        exact mem (apart b (in_l hb) a List.mem_concat_self same ▸ hb)
      rw [eraseDups_concat_of_notMem mem, eraseDups_concat_of_notMem new, earlier, List.map_append,
        List.map_singleton]

end

/-! ## Lists of pairs -/

section

variable {α β : Type} [BEq α] [LawfulBEq α] {pairs : List (α × β)} {key : α} {value : β}

theorem isSome_lookup_iff : (pairs.lookup key).isSome = true ↔ key ∈ pairs.map Prod.fst := by
  induction pairs with
  | nil => exact iff_of_false Bool.false_ne_true List.not_mem_nil
  | cons pair rest ih =>
    obtain ⟨k, v⟩ := pair
    rw [List.map_cons, List.mem_cons, ← ih]
    by_cases same : key = k
    · simp [same]
    · simp [List.lookup_cons, beq_eq_false_iff_ne.2 same, same]

theorem lookup_eq_none_iff_notMem : pairs.lookup key = none ↔ key ∉ pairs.map Prod.fst := by
  rw [← isSome_lookup_iff, Option.not_isSome_iff_eq_none]

theorem lookup_eq_some_iff_mem (distinct : (pairs.map Prod.fst).Nodup) :
    pairs.lookup key = some value ↔ (key, value) ∈ pairs := by
  induction pairs with
  | nil => exact iff_of_false nofun List.not_mem_nil
  | cons pair rest ih =>
    obtain ⟨k, v⟩ := pair
    obtain ⟨absent, distinct⟩ := List.nodup_cons.1 distinct
    rw [List.mem_cons, Prod.mk.injEq]
    by_cases same : key = k
    · subst same
      have elsewhere : (key, value) ∉ rest := fun mem => absent (List.mem_map.2 ⟨_, mem, rfl⟩)
      simp [elsewhere, eq_comm]
    · rw [List.lookup_cons, beq_eq_false_iff_ne.2 same, ih distinct]
      simp [same]

end

section

variable {α β : Type} [DecidableEq α]

theorem lookup_cons_eq_ite (key other : α) (value : β) (rest : List (α × β)) :
    List.lookup other ((key, value) :: rest)
      = if other = key then some value else rest.lookup other := by
  rw [List.lookup_cons]
  by_cases same : other = key
  · rw [beq_iff_eq.2 same, if_pos same]
  · rw [beq_eq_false_iff_ne.2 same, if_neg same]

/-- What is looked up when the values of one key are changed. -/
theorem lookup_map_ite (key other : α) (f : β → β) (pairs : List (α × β)) :
    (pairs.map fun pair => if pair.1 = key then (pair.1, f pair.2) else pair).lookup other
      = (pairs.lookup other).map fun value => if other = key then f value else value := by
  induction pairs with
  | nil => rfl
  | cons pair rest ih =>
    obtain ⟨k, v⟩ := pair
    have changed : (if k = key then (k, f v) else (k, v)) = (k, if k = key then f v else v) := by
      split <;> rfl
    rw [List.map_cons, changed, lookup_cons_eq_ite, lookup_cons_eq_ite, ih]
    by_cases same : other = k
    · rw [if_pos same, if_pos same, same]
      rfl
    · rw [if_neg same, if_neg same]

end

end ModelForms
