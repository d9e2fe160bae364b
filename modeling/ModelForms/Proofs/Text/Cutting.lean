import ModelForms.Text.Pieces

/-!
# Where texts are cut

A text is cut at its first separator into the piece in front of it and the pieces of what follows
(`Text.pieces_append_cons`), which is how it is gone through (`Text.pieces_induction`).  Where empty
pieces are skipped, a separator with nothing in front of it might as well not be there
(`Text.nonemptyPieces_cons`).  So a text of words with any separators between them is cut into the
words (`Text.nonemptyPieces_of_joined`).
-/

namespace ModelForms.Text

variable {sep : Char → Bool} {front rest text : List Char} {c : Char}

/-- No character of a text is the separator if the separator is not in the text. -/
theorem plain_of_notMem (absent : c ∉ text) : ∀ d ∈ text, (d == c) = false :=
  fun _ mem => beq_eq_false_iff_ne.2 fun same => absent (same ▸ mem)

/-- A front without separators becomes part of the first piece. -/
theorem pieces_append {more : List (List Char)} (plain : ∀ c ∈ front, sep c = false)
    (cut : pieces sep rest = [] :: more) : pieces sep (front ++ rest) = front :: more := by
  induction front with
  | nil => exact cut
  | cons c front ih =>
    obtain ⟨first, plain⟩ := List.forall_mem_cons.1 plain
    rw [List.cons_append, pieces, first, ih plain]
    rfl

/-- A text without separators is a single piece. -/
theorem pieces_of_plain (plain : ∀ c ∈ text, sep c = false) : pieces sep text = [text] := by
  have whole : pieces sep (text ++ []) = [text] := pieces_append plain rfl
  rwa [List.append_nil] at whole

/-- In front of a separator at the start there is an empty piece. -/
theorem pieces_cons (cuts : sep c = true) : pieces sep (c :: rest) = [] :: pieces sep rest := by
  rw [pieces, if_pos cuts]

/-- A text with a separator is cut at the first one. -/
theorem pieces_append_cons (plain : ∀ c ∈ front, sep c = false) (cuts : sep c = true) :
    pieces sep (front ++ c :: rest) = front :: pieces sep rest :=
  pieces_append plain (pieces_cons cuts)

/-- A text has no separators, or there are some before a rest, and none before those. -/
@[elab_as_elim]
theorem pieces_induction {motive : List Char → Prop} (sep : Char → Bool)
    (plain : ∀ text, (∀ c ∈ text, sep c = false) → motive text)
    (cut : ∀ front c rest, (∀ d ∈ front, sep d = false) → sep c = true → motive rest →
      motive (front ++ c :: rest))
    (text : List Char) : motive text := by
  suffices behind : ∀ front, (∀ d ∈ front, sep d = false) → motive (front ++ text) from
    behind [] (List.forall_mem_nil _)
  induction text with
  | nil => exact fun front plainFront => plain _ ((List.append_nil front).symm ▸ plainFront)
  | cons c rest ih =>
    intro front plainFront
    cases cuts : sep c with
    | true => exact cut front c rest plainFront cuts (ih [] (List.forall_mem_nil _))
    | false =>
      rw [← List.singleton_append, ← List.append_assoc]
      exact ih _ (List.forall_mem_append.2 ⟨plainFront, List.forall_mem_singleton.2 cuts⟩)

/-- A separator at the start leaves an empty piece, which is skipped. -/
theorem nonemptyPieces_cons (cuts : sep c = true) :
    nonemptyPieces sep (c :: rest) = nonemptyPieces sep rest := by
  rw [nonemptyPieces, pieces_cons cuts, List.filter_cons_of_neg (by simp)]
  rfl

/-- What stands before the first separator is the first piece unless it is empty. -/
theorem nonemptyPieces_append_cons (plain : ∀ c ∈ front, sep c = false) (cuts : sep c = true)
    (inhabited : front ≠ []) :
    nonemptyPieces sep (front ++ c :: rest) = front :: nonemptyPieces sep rest := by
  rw [nonemptyPieces, pieces_append_cons plain cuts, List.filter_cons_of_pos (by simpa)]
  rfl

theorem nonemptyPieces_of_plain (plain : ∀ c ∈ text, sep c = false) (inhabited : text ≠ []) :
    nonemptyPieces sep text = [text] := by
  rw [nonemptyPieces, pieces_of_plain plain, List.filter_cons_of_pos (by simpa)]
  rfl

/-- Separators at the start leave empty pieces only. -/
theorem nonemptyPieces_append (cuts : ∀ c ∈ front, sep c = true) :
    nonemptyPieces sep (front ++ rest) = nonemptyPieces sep rest := by
  induction front with
  | nil => rfl
  | cons c front ih =>
    obtain ⟨first, cuts⟩ := List.forall_mem_cons.1 cuts
    rw [List.cons_append, nonemptyPieces_cons first, ih cuts]

/-- Empty pieces may be kept where they contribute nothing. -/
theorem flatMap_nonemptyPieces {α : Type} {f : List Char → List α} (nothing : f [] = []) :
    (nonemptyPieces sep text).flatMap f = (pieces sep text).flatMap f := by
  unfold nonemptyPieces
  induction pieces sep text with
  | nil => rfl
  | cons piece more ih =>
    cases piece with
    | nil => rw [List.filter_cons_of_neg (by simp), List.flatMap_cons, nothing, ih, List.nil_append]
    | cons c piece =>
      rw [List.filter_cons_of_pos (by simp), List.flatMap_cons, List.flatMap_cons, ih]

/-! ## Words with separators between them -/

/-- A word that can be told from what stands around it. -/
def IsPlain (sep : Char → Bool) (word : List Char) : Prop := word ≠ [] ∧ ∀ c ∈ word, sep c = false

-- A search may find the instance that tries every character there is.
instance (sep : Char → Bool) (word : List Char) : Decidable (IsPlain sep word) :=
  @instDecidableAnd _ _ inferInstance (List.decidableBAll _ _)

/-- A text consists of words, with one separator or more between each two. -/
inductive Joined (sep : Char → Bool) : List (List Char) → List Char → Prop
  | none : Joined sep [] []
  | one (word : List Char) : Joined sep [word] word
  | more {word next between rest : List Char} {words : List (List Char)} (apart : between ≠ [])
      (cuts : ∀ c ∈ between, sep c = true) (joined : Joined sep (next :: words) rest) :
      Joined sep (word :: next :: words) (word ++ (between ++ rest))

/-- A text that words were joined to is cut into the words. -/
theorem nonemptyPieces_of_joined {words : List (List Char)} (joined : Joined sep words text)
    (plain : ∀ word ∈ words, IsPlain sep word) : nonemptyPieces sep text = words := by
  induction joined with
  | none => rfl
  | one word =>
    obtain ⟨inhabited, plain⟩ := List.forall_mem_singleton.1 plain
    exact nonemptyPieces_of_plain plain inhabited
  | more apart cuts _ ih =>
    obtain ⟨⟨inhabited, plainWord⟩, plain⟩ := List.forall_mem_cons.1 plain
    obtain ⟨c, between, rfl⟩ := List.exists_cons_of_ne_nil apart
    obtain ⟨first, cuts⟩ := List.forall_mem_cons.1 cuts
    rw [List.cons_append, nonemptyPieces_append_cons plainWord first inhabited,
      nonemptyPieces_append cuts, ih plain]

end ModelForms.Text
