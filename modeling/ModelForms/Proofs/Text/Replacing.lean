import ModelForms.Text.Pieces

/-!
# Replacing in parts of a text

A text can be cut in two, and a pattern replaced in each part, unless an occurrence of the pattern
lies across the cut.  Two texts together never have fewer occurrences than they have one by one
(`Text.occurrences_add_le`), and they have as many exactly if none lies across.  So the number of
occurrences alone decides whether a pattern may be replaced part by part (`Text.replaceAll_append`).
-/

namespace ModelForms.Text

/-- The number of places at which a nonempty pattern occurs in a text. -/
def occurrences (pattern : List Char) : List Char → Nat
  | [] => 0
  | c :: rest => (if pattern.isPrefixOf (c :: rest) then 1 else 0) + occurrences pattern rest
termination_by structural text => text

variable {pattern replacement text front rest : List Char} {c mark : Char}

/-- What a text starts with, a longer text starts with. -/
theorem prefix_cons_append (occurs : pattern <+: c :: front) : pattern <+: c :: (front ++ rest) :=
  occurs.trans (List.prefix_append (c :: front) rest)

theorem occurrences_cons_of_starts (occurs : pattern <+: c :: rest) :
    occurrences pattern (c :: rest) = 1 + occurrences pattern rest := by
  rw [occurrences, if_pos (List.isPrefixOf_iff_prefix.2 occurs)]

theorem occurrences_cons_of_absent (absent : ¬ pattern <+: c :: rest) :
    occurrences pattern (c :: rest) = occurrences pattern rest := by
  rw [occurrences, if_neg (mt List.isPrefixOf_iff_prefix.1 absent), Nat.zero_add]

theorem replaceAll_cons_of_absent (absent : ¬ pattern <+: c :: rest) :
    replaceAll pattern replacement (c :: rest) = c :: replaceAll pattern replacement rest := by
  rw [replaceAll, replaceFrom, if_neg (mt List.isPrefixOf_iff_prefix.1 absent)]
  rfl

/-! ## Cuts -/

/-- What occurs in the parts of a text occurs in the text. -/
theorem occurrences_add_le (pattern front rest : List Char) :
    occurrences pattern front + occurrences pattern rest ≤ occurrences pattern (front ++ rest) := by
  induction front with
  | nil => exact Nat.le_of_eq (Nat.zero_add _)
  | cons c front ih =>
    by_cases occurs : pattern <+: c :: front
    · rw [List.cons_append, occurrences_cons_of_starts occurs,
        occurrences_cons_of_starts (prefix_cons_append occurs)]
      omega
    · rw [List.cons_append, occurrences_cons_of_absent occurs, occurrences]
      omega

/-- If no occurrence lies across a cut, none does so further on, and what occurs at the start of the
text occurs at the start of its first part. -/
theorem prefix_of_occurrences_append
    (apart : occurrences pattern (c :: front ++ rest)
      = occurrences pattern (c :: front) + occurrences pattern rest) :
    (pattern <+: c :: (front ++ rest) → pattern <+: c :: front)
      ∧ occurrences pattern (front ++ rest)
        = occurrences pattern front + occurrences pattern rest := by
  have least := occurrences_add_le pattern front rest
  rw [List.cons_append] at apart
  by_cases occurs : pattern <+: c :: front
  · rw [occurrences_cons_of_starts occurs,
      occurrences_cons_of_starts (prefix_cons_append occurs)] at apart
    exact ⟨fun _ => occurs, by omega⟩
  · by_cases across : pattern <+: c :: (front ++ rest)
    · rw [occurrences_cons_of_absent occurs, occurrences_cons_of_starts across] at apart
      omega
    · rw [occurrences_cons_of_absent occurs, occurrences_cons_of_absent across] at apart
      exact ⟨fun across' => absurd across' across, apart⟩

/-- A replacement that begins in the first part ends there, so the second part is begun afresh. -/
theorem replaceFrom_append {skip : Nat} (within : skip ≤ front.length)
    (apart : occurrences pattern (front ++ rest)
      = occurrences pattern front + occurrences pattern rest) :
    replaceFrom pattern replacement skip (front ++ rest)
      = replaceFrom pattern replacement skip front ++ replaceAll pattern replacement rest := by
  induction front generalizing skip with
  | nil =>
    cases Nat.le_zero.1 within
    rfl
  | cons c front ih =>
    obtain ⟨starts, apart⟩ := prefix_of_occurrences_append apart
    cases skip with
    | succ skip => exact ih (Nat.le_of_succ_le_succ within) apart
    | zero =>
      rw [List.cons_append, replaceFrom, replaceFrom]
      by_cases occurs : pattern <+: c :: front
      · have fits : pattern.length - 1 ≤ front.length :=
          Nat.sub_le_of_le_add occurs.length_le
        rw [if_pos (List.isPrefixOf_iff_prefix.2 occurs), if_pos (List.isPrefixOf_iff_prefix.2
          (prefix_cons_append occurs)), ih fits apart, List.append_assoc]
      · rw [if_neg (mt List.isPrefixOf_iff_prefix.1 occurs),
          if_neg (mt List.isPrefixOf_iff_prefix.1 (mt starts occurs)), ih (Nat.zero_le _) apart,
          List.cons_append]

/-- If no occurrence lies across a cut, a pattern is replaced in both parts. -/
theorem replaceAll_append
    (apart : occurrences pattern (front ++ rest)
      = occurrences pattern front + occurrences pattern rest) :
    replaceAll pattern replacement (front ++ rest)
      = replaceAll pattern replacement front ++ replaceAll pattern replacement rest :=
  replaceFrom_append (Nat.zero_le _) apart

/-- A text without the pattern stays as it is. -/
theorem replaceAll_of_occurrences_eq_zero (absent : occurrences pattern text = 0) :
    replaceAll pattern replacement text = text := by
  induction text with
  | nil => rfl
  | cons c rest ih =>
    have notHere : ¬ pattern <+: c :: rest := fun occurs => by
      rw [occurrences_cons_of_starts occurs] at absent
      omega
    rw [occurrences_cons_of_absent notHere] at absent
    rw [replaceAll_cons_of_absent notHere, ih absent]

/-! ## Patterns behind a mark -/

/-- Nothing that starts with a mark occurs in a text without the mark, or across its end. -/
theorem occurrences_append_of_notMem (absent : mark ∉ front) :
    occurrences (mark :: pattern) (front ++ rest) = occurrences (mark :: pattern) rest := by
  induction front with
  | nil => rfl
  | cons c front ih =>
    obtain ⟨other, absent⟩ := List.ne_and_not_mem_of_not_mem_cons absent
    have notHere : ¬ mark :: pattern <+: c :: (front ++ rest) :=
      fun occurs => other (List.cons_prefix_cons.1 occurs).1
    rw [List.cons_append, occurrences_cons_of_absent notHere, ih absent]

/-- A pattern whose first character does not come again in it occurs in itself once. -/
theorem occurrences_self_append (once : mark ∉ pattern) :
    occurrences (mark :: pattern) (mark :: pattern ++ rest)
      = 1 + occurrences (mark :: pattern) rest := by
  have occurs : mark :: pattern <+: mark :: (pattern ++ rest) :=
    prefix_cons_append (List.prefix_refl _)
  rw [List.cons_append, occurrences_cons_of_starts occurs, occurrences_append_of_notMem once]

theorem replaceFrom_drop {skip : Nat} :
    replaceFrom pattern replacement skip text
      = replaceAll pattern replacement (text.drop skip) := by
  induction text generalizing skip with
  | nil => cases skip <;> rfl
  | cons c rest ih =>
    cases skip with
    | zero => rfl
    | succ skip => exact ih

/-- A pattern at the start of a text is replaced, and then what follows it. -/
theorem replaceAll_self_append (inhabited : pattern ≠ []) :
    replaceAll pattern replacement (pattern ++ rest)
      = replacement ++ replaceAll pattern replacement rest := by
  cases pattern with
  | nil => exact absurd rfl inhabited
  | cons mark pattern =>
    have occurs : mark :: pattern <+: mark :: (pattern ++ rest) :=
      prefix_cons_append (List.prefix_refl _)
    rw [replaceAll, List.cons_append, replaceFrom, if_pos (List.isPrefixOf_iff_prefix.2 occurs),
      replaceFrom_drop, List.length_cons, Nat.add_sub_cancel, List.drop_left]

/-! ## Characters that cut -/

/-- What occurs before a character that is not in the pattern ends before it. -/
theorem prefix_append_cons_iff (absent : c ∉ pattern) :
    pattern <+: front ++ c :: rest ↔ pattern <+: front := by
  refine ⟨fun occurs => ?_, fun occurs => occurs.trans (List.prefix_append _ _)⟩
  rcases List.prefix_or_prefix_of_prefix occurs (List.prefix_append front _) with ends | passes
  · exact ends
  · obtain ⟨more, rfl⟩ := passes
    have after := (List.prefix_append_right_inj front).1 occurs
    cases more with
    | nil => exact (List.append_nil front).symm ▸ List.prefix_refl front
    | cons d more =>
      cases (List.cons_prefix_cons.1 after).1
      exact absurd (List.mem_append_right front List.mem_cons_self) absent

theorem not_prefix_cons (absent : c ∉ pattern) (inhabited : pattern ≠ []) :
    ¬ pattern <+: c :: rest := by
  intro occurs
  have nothing : pattern <+: [] :=
    (prefix_append_cons_iff absent).1 ((List.nil_append (c :: rest)).symm ▸ occurs)
  exact inhabited (List.prefix_nil.1 nothing)

theorem occurrences_append_cons (absent : c ∉ pattern) (inhabited : pattern ≠ []) :
    occurrences pattern (front ++ c :: rest)
      = occurrences pattern front + occurrences pattern rest := by
  induction front with
  | nil =>
    rw [List.nil_append, occurrences_cons_of_absent (not_prefix_cons absent inhabited),
      occurrences, Nat.zero_add]
  | cons d front ih =>
    by_cases occurs : pattern <+: d :: front
    · rw [List.cons_append, occurrences_cons_of_starts occurs,
        occurrences_cons_of_starts (prefix_cons_append occurs), ih, Nat.add_assoc]
    · have notHere : ¬ pattern <+: d :: (front ++ c :: rest) :=
        mt (@prefix_append_cons_iff pattern (d :: front) rest c absent).1 occurs
      rw [List.cons_append, occurrences_cons_of_absent occurs,
        occurrences_cons_of_absent notHere, ih]

/-- A character that is not in the pattern stays where it is, between what is replaced before it and
what is replaced after it. -/
theorem replaceAll_append_cons (absent : c ∉ pattern) (inhabited : pattern ≠ []) :
    replaceAll pattern replacement (front ++ c :: rest)
      = replaceAll pattern replacement front ++ c :: replaceAll pattern replacement rest := by
  have notHere : ¬ pattern <+: c :: rest := not_prefix_cons absent inhabited
  rw [replaceAll_append, replaceAll_cons_of_absent notHere]
  rw [occurrences_append_cons absent inhabited, occurrences_cons_of_absent notHere]

end ModelForms.Text
