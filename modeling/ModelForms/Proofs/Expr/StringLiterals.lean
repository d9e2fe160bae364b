import ModelForms.Proofs.Expr.Scanning
import ModelForms.Proofs.Types.UnionForm
import ModelForms.Types.Term

/-!
# String literals that are read back

The literal type of a string is written between double quotes, and that text is read as a string
literal again.  Every character is read on its own (`Cursor.quoted_escapedChar`): line ends, tabs
and printable ASCII are read as they were, and of every other escape only the backslash is taken
off.  So what is read is the string that was written exactly if all its characters are of the first
kind (`TypeTable.parse_text_literal`).
-/

namespace ModelForms

namespace Quoted

/-- Whatever was written, what is read is readable. -/
theorem isReadable_of_mem_reread {c d : Char} (mem : d ∈ reread c) : IsReadable d := by
  unfold reread at mem
  split at mem
  next readable => exact List.mem_singleton.1 mem ▸ readable
  next unreadable =>
    obtain ⟨first, rest, escaped, _, plain⟩ := exists_of_not_isReadable unreadable
    rw [escaped, List.tail_cons] at mem
    exact (plain d mem).1

theorem flatMap_reread_eq_iff {value : List Char} :
    value.flatMap reread = value ↔ ∀ c ∈ value, IsReadable c := by
  refine ⟨fun same c mem => ?_, flatMap_reread⟩
  rw [← same] at mem
  obtain ⟨_, _, mem⟩ := List.mem_flatMap.1 mem
  exact isReadable_of_mem_reread mem

end Quoted

/-- What a quoted text is parsed to. -/
theorem TypeExpr.parse_encode (value : List Char) :
    parse (String.ofList (Quoted.encode value))
      = .ok (.string (String.ofList (value.flatMap Quoted.reread))) := by
  refine (ReadsOperand.quoted value).type.parse_eq ?_
  obtain ⟨sentence, nests⟩ := sentence_eq_of_spells (.string value)
  rw [sentence, nests]
  decide

namespace TypeTable

/-- The type of a string is written as the string between quotes. -/
theorem text_literal (types : TypeTable) (value : String) (nameOf : ModelId → Option String) :
    ((Interning.literal (.string value) types).2.term
      (Interning.literal (.string value) types).1).text nameOf
        = String.ofList (Quoted.encode value.toList) := by
  obtain ⟨noted, _, made⟩ := literal_eq (.string value) types
  rw [made, term, termWithin, lookup_intern]
  rfl

/-- The text of the type of a string is read as a string literal.  It is the same string exactly if
all characters of the string are readable. -/
theorem parse_text_literal (types : TypeTable) (value : String)
    (nameOf : ModelId → Option String) :
    let made := Interning.literal (.string value) types
    let read := TypeExpr.parse ((made.2.term made.1).text nameOf)
    read = .ok (.string (String.ofList (value.toList.flatMap Quoted.reread)))
      ∧ (read = .ok (.string value) ↔ ∀ c ∈ value.toList, Quoted.IsReadable c) := by
  intro made read
  have found : read = .ok (.string (String.ofList (value.toList.flatMap Quoted.reread))) := by
    rw [← TypeExpr.parse_encode, ← text_literal types value nameOf]
  refine ⟨found, ?_⟩
  rw [found, ← Quoted.flatMap_reread_eq_iff, Except.ok.injEq, TypeExpr.string.injEq,
    ← String.toList_inj, String.toList_ofList]

/-- Not every string is read back: a carriage return is read as the letter of its escape. -/
theorem not_forall_parse_text_literal :
    ¬ ∀ (types : TypeTable) (value : String) (nameOf : ModelId → Option String),
      TypeExpr.parse (((Interning.literal (.string value) types).2.term
        (Interning.literal (.string value) types).1).text nameOf) = .ok (.string value) := by
  intro always
  have read := always .empty "\r" fun _ => none
  rw [text_literal, TypeExpr.parse_encode, Except.ok.injEq, TypeExpr.string.injEq] at read
  exact absurd read (by decide)

example : String.ofList ("é\r\n".toList.flatMap Quoted.reread) = "u\x7be9\x7dr\n" := by
  decide +kernel

end TypeTable

end ModelForms
