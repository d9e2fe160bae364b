import ModelForms.Intrinsic
import ModelForms.Text.CharClass
import ModelForms.Text.Quoted

/-!
# Texts that show where they end

Where a text stands before another one, the two can be told apart if the characters of the first are
of a kind that the second does not start with (`Text.eq_of_append_eq`), or if the first is quoted
(`Quoted.eq_of_encode_append_eq`).
-/

namespace ModelForms

namespace CharClass

/-- No name starts with a digit. -/
theorem startsName_of_isDigit {c : Char} (digit : c.isDigit = true) : startsName c = false := by
  have bounds : 48 ≤ c.toNat ∧ c.toNat ≤ 57 := by
    simpa [Char.isDigit, UInt32.le_iff_toNat_le] using digit
  have apart : ∀ n ≤ 57, 48 ≤ n → startsName (Char.ofNat n) = false := by decide +kernel
  rw [← Char.ofNat_toNat c]
  exact apart c.toNat bounds.2 bounds.1

/-- A name has a first character that starts one, and all of its characters may stand in one. -/
theorem exists_of_isName {name : String} (h : isName name = true) :
    ∃ c rest, name.toList = c :: rest ∧ startsName c = true
      ∧ ∀ d ∈ c :: rest, continuesName d = true := by
  unfold isName at h
  split at h
  next => cases h
  next c rest same =>
    rw [Bool.and_eq_true, List.all_eq_true] at h
    exact ⟨c, rest, same, h.1,
      List.forall_mem_cons.2 ⟨continuesName_of_startsName h.1, h.2⟩⟩

end CharClass

/-- The name of an intrinsic type is a name. -/
theorem Intrinsic.isName_name (k : Intrinsic) : CharClass.isName k.name = true := by
  cases k <;> decide +kernel

namespace Text

variable {front front' rest rest' : List Char}

/-- A text of characters of one kind ends where a character of another kind comes. -/
theorem eq_of_append_eq {p : Char → Bool} (kind : ∀ c ∈ front, p c = true)
    (kind' : ∀ c ∈ front', p c = true) (other : ∀ c ∈ rest.head?, p c = false)
    (other' : ∀ c ∈ rest'.head?, p c = false) (same : front ++ rest = front' ++ rest') :
    front = front' ∧ rest = rest' := by
  have taken {front rest : List Char} (kind : ∀ c ∈ front, p c = true)
      (other : ∀ c ∈ rest.head?, p c = false) : (front ++ rest).takeWhile p = front := by
    rw [List.takeWhile_append_of_pos kind]
    cases rest with
    | nil => rw [List.takeWhile_nil, List.append_nil]
    | cons c rest => rw [List.takeWhile_cons_of_neg (by simp [other c rfl]), List.append_nil]
  have fronts : front = front' := by rw [← taken kind other, same, taken kind' other']
  exact ⟨fronts, List.append_cancel_left (fronts ▸ same)⟩

end Text

namespace Quoted

/-- A number is known by its hexadecimal digits. -/
theorem eq_of_toDigits_eq {n m : Nat} (same : Nat.toDigits 16 n = Nat.toDigits 16 m) : n = m := by
  have last {n m : Nat} (small : n < 16) (small' : m < 16) (same : n.digitChar = m.digitChar) :
      n = m := by
    have apart : ∀ i < 16, ∀ j < 16, Nat.digitChar i = Nat.digitChar j → i = j := by decide
    exact apart n small m small' same
  induction n using Nat.strongRecOn generalizing m with
  | ind n ih =>
    have several {n : Nat} (large : ¬ n < 16) : 1 < (Nat.toDigits 16 n).length := by
      rw [Nat.toDigits_of_base_le (by omega) (by omega), List.length_append, List.length_singleton]
      have := @Nat.length_toDigits_pos 16 (n / 16)
      omega
    by_cases small : n < 16 <;> by_cases small' : m < 16
    · rw [Nat.toDigits_of_lt_base small, Nat.toDigits_of_lt_base small'] at same
      exact last small small' (List.cons.inj same).1
    · have := several small'
      rw [← same, Nat.toDigits_of_lt_base small] at this
      simp at this
    · have := several small
      rw [same, Nat.toDigits_of_lt_base small'] at this
      simp at this
    · rw [Nat.toDigits_of_base_le (by omega) (by omega),
        Nat.toDigits_of_base_le (n := m) (by omega) (by omega)] at same
      obtain ⟨above, below⟩ := List.append_inj' same rfl
      have quotients := ih (n / 16) (by omega) above
      have rests := last (Nat.mod_lt n (by omega)) (Nat.mod_lt m (by omega)) (List.cons.inj below).1
      omega

theorem exists_of_mem_toDigits {n : Nat} {c : Char} (mem : c ∈ Nat.toDigits 16 n) :
    ∃ i < 16, c = i.digitChar := by
  induction n using Nat.strongRecOn with
  | ind n ih =>
    by_cases small : n < 16
    · rw [Nat.toDigits_of_lt_base small] at mem
      exact ⟨n, small, List.mem_singleton.1 mem⟩
    · rw [Nat.toDigits_of_base_le (by omega) (by omega)] at mem
      rcases List.mem_append.1 mem with mem | mem
      · exact ih (n / 16) (by omega) mem
      · exact ⟨n % 16, Nat.mod_lt n (by omega), List.mem_singleton.1 mem⟩

/-- A hexadecimal digit is no brace. -/
theorem ne_brace_of_mem_toDigits {n : Nat} : ∀ c ∈ Nat.toDigits 16 n, (c != '\x7d') = true := by
  intro c mem
  obtain ⟨i, small, rfl⟩ := exists_of_mem_toDigits mem
  have all : ∀ i < 16, (Nat.digitChar i != '\x7d') = true := by decide
  exact all i small

/-- What a letter after a backslash stands for. -/
def meant (c : Char) : Char :=
  if c = 't' then '\t' else if c = 'r' then '\r' else if c = 'n' then '\n' else c

/-- The three ways in which a character is written. -/
inductive Written (c : Char) : List Char → Prop
  | plain (proper : c ≠ '\\' ∧ c ≠ '"') : Written c [c]
  | short {letter : Char} (means : meant letter = c) (proper : letter ≠ 'u') :
      Written c ['\\', letter]
  | code : Written c ('\\' :: 'u' :: '\x7b' :: (Nat.toDigits 16 c.toNat ++ ['\x7d']))

theorem written_escapedChar (c : Char) : Written c (escapedChar c) := by
  unfold escapedChar
  split
  next is => exact is ▸ .short rfl (by decide)
  split
  next is => exact is ▸ .short rfl (by decide)
  split
  next is => exact is ▸ .short rfl (by decide)
  split
  next is =>
    simp only [Bool.or_eq_true, decide_eq_true_eq] at is
    rcases is with (rfl | rfl) | rfl <;> exact .short rfl (by decide)
  next other =>
    simp only [Bool.or_eq_true, decide_eq_true_eq, not_or] at other
    split
    next => exact .plain ⟨other.2, other.1.2⟩
    next => exact .code

/-- A character is known by how it is written, whatever follows. -/
theorem eq_of_escapedChar_append_eq {c d : Char} {rest rest' : List Char}
    (same : escapedChar c ++ rest = escapedChar d ++ rest') : c = d ∧ rest = rest' := by
  have written := written_escapedChar c
  have written' := written_escapedChar d
  generalize escapedChar c = code at same written
  generalize escapedChar d = code' at same written'
  cases written with
  | plain proper =>
    cases written' with
    | plain => simpa using same
    | short | code => exact absurd (List.cons.inj same).1 proper.1
  | short means proper =>
    cases written' with
    | plain proper => exact absurd (List.cons.inj same).1.symm proper.1
    | short means' _ =>
      simp only [List.cons_append, List.nil_append, List.cons.injEq, true_and] at same
      obtain ⟨rfl, rests⟩ := same
      exact ⟨means.symm.trans means', rests⟩
    | code =>
      simp only [List.cons_append, List.nil_append, List.cons.injEq, true_and] at same
      exact absurd same.1 proper
  | code =>
    cases written' with
    | plain proper => exact absurd (List.cons.inj same).1.symm proper.1
    | short _ proper =>
      simp only [List.cons_append, List.nil_append, List.cons.injEq, true_and] at same
      exact absurd same.1.symm proper
    | code =>
      simp only [List.cons_append, List.append_assoc, List.cons.injEq, true_and] at same
      obtain ⟨digits, more⟩ := Text.eq_of_append_eq ne_brace_of_mem_toDigits
        ne_brace_of_mem_toDigits (by simp) (by simp) same
      refine ⟨?_, (List.cons.inj more).2⟩
      exact Char.toNat_inj.1 (eq_of_toDigits_eq digits)

/-- No character inside a quoted text starts like the quote at its end. -/
theorem escapedChar_append_ne {c : Char} {rest rest' : List Char} :
    escapedChar c ++ rest ≠ '"' :: rest' := by
  intro same
  have written := written_escapedChar c
  generalize escapedChar c = code at same written
  cases written with
  | plain proper => exact proper.2 (List.cons.inj same).1
  | short | code => exact absurd (List.cons.inj same).1 (by decide)

/-- A quoted text is known by how it is written, whatever follows. -/
theorem eq_of_encode_append_eq {text text' rest rest' : List Char}
    (same : encode text ++ rest = encode text' ++ rest') : text = text' ∧ rest = rest' := by
  simp only [encode, List.cons_append, List.append_assoc, List.cons.injEq, true_and,
    List.nil_append] at same
  induction text generalizing text' with
  | nil =>
    cases text' with
    | nil => simpa using same
    | cons d text' =>
      rw [List.flatMap_cons, List.append_assoc] at same
      exact absurd same.symm escapedChar_append_ne
  | cons c text ih =>
    rw [List.flatMap_cons, List.append_assoc] at same
    cases text' with
    | nil => exact absurd same escapedChar_append_ne
    | cons d text' =>
      rw [List.flatMap_cons, List.append_assoc] at same
      obtain ⟨rfl, tails⟩ := eq_of_escapedChar_append_eq same
      obtain ⟨rfl, rests⟩ := ih tails
      exact ⟨rfl, rests⟩

end Quoted

end ModelForms
