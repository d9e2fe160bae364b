import ModelForms.FieldPath
import ModelForms.Proofs.Text.Cutting

/-!
# Paths that are read back

A path is written with a dot before each field but a first one and a pair of brackets for each
element position, and it is read by cutting the text at dots and peeling the brackets off the pieces.
What is read from a text is written to a text that is read as the same path, although the texts may
differ, and a path of fields and element positions is read back exactly if each of its names can be
the name of a field in a text (`FieldPath.parse_text`).

The written steps are read from the left (`FieldPath.steps_of_written`): a field starts a piece, and
an element position belongs to the piece that is open.
-/

namespace ModelForms.FieldPath

/-- A name that a field has in a path read from a text: not empty, without dots, and not ending in
brackets. -/
structure IsFieldName (name : String) : Prop where
  nonempty : name ≠ ""
  noDot : '.' ∉ name.toList
  noBrackets : ¬ ['[', ']'] <:+ name.toList

/-! ## Pieces -/

/-- The brackets that are peeled off are all there are at the end of a piece. -/
theorem peelBrackets_spec (backwards : List Char) :
    (peelBrackets backwards).1 <:+ backwards
      ∧ ¬ [']', '['] <+: (peelBrackets backwards).1 := by
  fun_induction peelBrackets backwards with
  | case1 rest name count same ih =>
    rw [same] at ih
    exact ⟨ih.1.trans ((List.suffix_cons _ _).trans (List.suffix_cons _ _)), ih.2⟩
  | case2 name other =>
    refine ⟨List.suffix_rfl, fun ⟨rest, same⟩ => ?_⟩
    exact other rest same.symm

theorem peelBrackets_of_not_prefix {backwards : List Char} (other : ¬ [']', '['] <+: backwards) :
    peelBrackets backwards = (backwards, 0) := by
  unfold peelBrackets
  split
  next rest => exact absurd (List.prefix_append [']', '['] rest) other
  next => rfl

/-- Brackets at the end of a piece are an element position at the end of its steps. -/
theorem pieceSteps_append_brackets (piece : List Char) :
    pieceSteps (piece ++ ['[', ']']) = pieceSteps piece ++ [.element] := by
  have peeled : peelBrackets (piece ++ ['[', ']']).reverse
      = ((peelBrackets piece.reverse).1, (peelBrackets piece.reverse).2 + 1) := by
    rw [List.reverse_append]
    rfl
  unfold pieceSteps
  rw [peeled, List.append_assoc, ← List.replicate_succ']

/-- The name of a field is a piece of that field alone. -/
theorem pieceSteps_of_isFieldName {name : String} (isFieldName : IsFieldName name) :
    pieceSteps name.toList = [.field name] := by
  have whole : peelBrackets name.toList.reverse = (name.toList.reverse, 0) := by
    refine peelBrackets_of_not_prefix fun starts => isFieldName.noBrackets ?_
    rwa [← List.reverse_prefix]
  have inhabited : name.toList.reverse.isEmpty = false := by
    simpa using isFieldName.nonempty
  unfold pieceSteps
  simp only [whole, inhabited, List.reverse_reverse, String.ofList_toList]
  rfl

/-- The steps of a piece are element positions and at most one field. -/
theorem isFieldName_of_mem_pieceSteps {piece : List Char} {name : String} (noDot : '.' ∉ piece)
    (mem : .field name ∈ pieceSteps piece) : IsFieldName name := by
  obtain ⟨within, peeled⟩ := peelBrackets_spec piece.reverse
  unfold pieceSteps at mem
  rcases List.mem_append.1 mem with mem | mem
  · split at mem
    next => cases mem
    next inhabited =>
      cases List.mem_singleton.1 mem
      refine ⟨?_, ?_, ?_⟩
      · simpa [← String.toList_inj] using inhabited
      · rw [String.toList_ofList, List.mem_reverse]
        exact fun dot => noDot (List.mem_reverse.1 (within.subset dot))
      · rwa [String.toList_ofList, ← List.reverse_prefix, List.reverse_reverse]
  · cases List.eq_of_mem_replicate mem

theorem index_notMem_pieceSteps {piece : List Char} {i : Nat} : .index i ∉ pieceSteps piece := by
  intro mem
  unfold pieceSteps at mem
  rcases List.mem_append.1 mem with mem | mem
  · split at mem
    next => cases mem
    next => cases List.mem_singleton.1 mem
  · cases List.eq_of_mem_replicate mem

/-! ## Paths -/

/-- A path that is read from a text has fields and element positions only. -/
theorem steps_of_parse (text : String) :
    (∀ name, .field name ∈ (parse text).steps → IsFieldName name)
      ∧ ∀ i, .index i ∉ (parse text).steps := by
  refine ⟨fun name mem => ?_, fun i mem => ?_⟩
  · obtain ⟨piece, among, mem⟩ := List.mem_flatMap.1 mem
    refine isFieldName_of_mem_pieceSteps (fun dot => ?_) mem
    have notSep := Text.not_sep_of_mem_pieces (List.mem_filter.1 among).1 dot
    cases notSep
  · obtain ⟨piece, _, mem⟩ := List.mem_flatMap.1 mem
    exact index_notMem_pieceSteps mem

/-- The steps that a text denotes. -/
def stepsOf (text : List Char) : List PathStep := (Text.pieces (· == '.') text).flatMap pieceSteps

theorem steps_parse (text : String) : (parse text).steps = stepsOf text.toList :=
  Text.flatMap_nonemptyPieces rfl

/-- The written steps are read after those of the piece that is open where they start. -/
theorem steps_of_written {steps : List PathStep}
    (names : ∀ name, .field name ∈ steps → IsFieldName name) (noIndex : ∀ i, .index i ∉ steps)
    {front : List Char} (noDot : '.' ∉ front) :
    stepsOf (front ++ stepsChars false steps) = pieceSteps front ++ steps := by
  induction steps generalizing front with
  | nil =>
    rw [stepsChars, List.append_nil, List.append_nil, stepsOf,
      Text.pieces_of_plain (Text.plain_of_notMem noDot), List.flatMap_singleton]
  | cons step rest ih =>
    have ih {front : List Char} (noDot : '.' ∉ front) :
        stepsOf (front ++ stepsChars false rest) = pieceSteps front ++ rest :=
      ih (fun name mem => names name (List.mem_cons_of_mem step mem))
        (fun i mem => noIndex i (List.mem_cons_of_mem step mem)) noDot
    cases step with
    | field name =>
      have isFieldName := names name List.mem_cons_self
      have cut : stepsOf (front ++ '.' :: (name.toList ++ stepsChars false rest))
          = pieceSteps front ++ stepsOf (name.toList ++ stepsChars false rest) := by
        unfold stepsOf
        rw [Text.pieces_append_cons (Text.plain_of_notMem noDot) rfl, List.flatMap_cons]
      exact cut.trans (by rw [ih isFieldName.noDot, pieceSteps_of_isFieldName isFieldName]; rfl)
    | element =>
      have open' : '.' ∉ front ++ ['[', ']'] := by simpa using noDot
      show stepsOf (front ++ (['[', ']'] ++ stepsChars false rest)) = _
      rw [← List.append_assoc, ih open', pieceSteps_append_brackets, List.append_assoc]
      rfl
    | index i => exact absurd List.mem_cons_self (noIndex i)

/-- A path of fields with names of fields and of element positions is read from its text. -/
theorem parse_text_of_names {path : FieldPath} (inner : path ≠ root)
    (names : ∀ name, .field name ∈ path.steps → IsFieldName name)
    (noIndex : ∀ i, .index i ∉ path.steps) : parse path.text = path := by
  obtain ⟨steps⟩ := path
  cases steps with
  | nil => exact absurd rfl inner
  | cons step rest =>
    have read {front : List Char} (noDot : '.' ∉ front) :
        stepsOf (front ++ stepsChars false rest) = pieceSteps front ++ rest :=
      steps_of_written (fun name mem => names name (List.mem_cons_of_mem step mem))
        (fun i mem => noIndex i (List.mem_cons_of_mem step mem)) noDot
    have steps : (parse (text ⟨step :: rest⟩)).steps
        = stepsOf (stepChars true step ++ stepsChars false rest) := by
      rw [steps_parse, text, if_neg (by simp [isRoot]), String.toList_ofList]
      rfl
    refine congrArg FieldPath.mk (steps.trans ?_)
    cases step with
    | field name =>
      have isFieldName := names name List.mem_cons_self
      exact (read isFieldName.noDot).trans (by rw [pieceSteps_of_isFieldName isFieldName]; rfl)
    | element => exact read (by decide)
    | index i => exact absurd List.mem_cons_self (noIndex i)

/-- What is read from a text is read from its own text.  A path of fields and element positions is
read from its text exactly if its fields have names of fields. -/
theorem parse_text :
    (∀ text, parse text ≠ root → parse (parse text).text = parse text)
      ∧ ∀ path : FieldPath, path ≠ root → (∀ i, .index i ∉ path.steps) →
        (parse path.text = path ↔ ∀ name, .field name ∈ path.steps → IsFieldName name) := by
  refine ⟨fun text inner => ?_, fun path inner noIndex => ⟨fun same name mem => ?_, fun names => ?_⟩⟩
  · exact parse_text_of_names inner (steps_of_parse text).1 (steps_of_parse text).2
  · rw [← same] at mem
    exact (steps_of_parse path.text).1 name mem
  · exact parse_text_of_names inner names noIndex

/-- Brackets in front of a name, a name that ends in half of a pair, and a name that is lost. -/
theorem parse_text_brackets :
    let rows : FieldPath := ⟨[.element, .field "rows[", .element, .element]⟩
    let lost : FieldPath := ⟨[.field "a", .field "b[]"]⟩
    parse "[]..rows[[].[]" = rows ∧ rows ≠ root ∧ parse rows.text = rows
      ∧ lost ≠ root ∧ parse lost.text ≠ lost := by
  intro rows lost
  have read : parse "[]..rows[[].[]" = rows := by decide +kernel
  have rowsInner : rows ≠ root := by decide
  have lostInner : lost ≠ root := by decide
  have noIndex : ∀ i, .index i ∉ lost.steps := by simp [lost]
  refine ⟨read, rowsInner, ?_, lostInner, fun same => ?_⟩
  · have again := parse_text.1 "[]..rows[[].[]"
    rw [read] at again
    exact again rowsInner
  · have names := (parse_text.2 lost lostInner noIndex).1 same
    exact (names "b[]" (by simp [lost])).noBrackets (by decide)

end ModelForms.FieldPath
