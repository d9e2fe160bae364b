/-!
# Cutting and filling texts

Dotted paths, mode expressions and option lists are all texts cut at separators, and every message
is a text with some of its parts filled in.  The functions work on lists of characters, where each
is a plain recursion.  `joinWith_pieces` says that cutting at a single character loses nothing.
-/

namespace ModelForms.Text

/-- The pieces of a text between the characters that satisfy `sep`.  Empty pieces are kept, so there
is one piece more than there are separators. -/
def pieces (sep : Char → Bool) : List Char → List (List Char)
  | [] => [[]]
  | c :: rest =>
      if sep c then [] :: pieces sep rest
      else match pieces sep rest with
        | [] => [[c]]
        | piece :: more => (c :: piece) :: more
termination_by structural text => text

/-- The pieces that are not empty. -/
def nonemptyPieces (sep : Char → Bool) (text : List Char) : List (List Char) :=
  (pieces sep text).filter (!·.isEmpty)

/-- A text without the characters at its start that satisfy `p`. -/
def dropStart (p : Char → Bool) (text : List Char) : List Char := text.dropWhile p

/-- A text without the characters at its end that satisfy `p`. -/
def dropEnd (p : Char → Bool) (text : List Char) : List Char :=
  (text.reverse.dropWhile p).reverse

/-- A text without the characters at both its ends that satisfy `p`. -/
def trim (p : Char → Bool) (text : List Char) : List Char := dropEnd p (dropStart p text)

/-- The text before a given ending, if the text has that ending. -/
def beforeSuffix? (ending text : List Char) : Option (List Char) :=
  if ending.isSuffixOf text then some (text.take (text.length - ending.length)) else none

/-- The text after a given beginning, if the text has that beginning. -/
def afterStart? : (beginning text : List Char) → Option (List Char)
  | [], text => some text
  | _ :: _, [] => none
  | b :: bs, c :: cs => if b = c then afterStart? bs cs else none
termination_by structural beginning => beginning

/-- Scans a text from the left and replaces each occurrence of `pattern` that starts after the
previous one has ended.  `skip` counts the characters of the current occurrence still to drop. -/
def replaceFrom (pattern replacement : List Char) : (skip : Nat) → List Char → List Char
  | _, [] => []
  | skip + 1, _ :: rest => replaceFrom pattern replacement skip rest
  | 0, c :: rest =>
      if pattern.isPrefixOf (c :: rest) then
        replacement ++ replaceFrom pattern replacement (pattern.length - 1) rest
      else c :: replaceFrom pattern replacement 0 rest
termination_by structural _ text => text

/-- A text with every occurrence of a nonempty pattern replaced, from the left and without overlap.
-/
def replaceAll (pattern replacement text : List Char) : List Char :=
  replaceFrom pattern replacement 0 text

/-- Lower case for the letters of ASCII and no others. -/
def lowerAscii (text : List Char) : List Char := text.map Char.toLower

/-- The value of a nonempty text of decimal digits, and nothing else. -/
def natOfDigits? (text : List Char) : Option Nat :=
  if text.isEmpty || !text.all Char.isDigit then none
  else some (text.foldl (fun n c => 10 * n + (c.toNat - '0'.toNat)) 0)

/-! ## Pieces put together again -/

/-- Texts joined with one separator between each two. -/
def joinWith (sep : Char) : List (List Char) → List Char
  | [] => []
  | [piece] => piece
  | piece :: more => piece ++ sep :: joinWith sep more

/-- Cutting never answers with no piece at all. -/
theorem pieces_ne_nil (sep : Char → Bool) (text : List Char) : pieces sep text ≠ [] := by
  cases text with
  | nil => simp [pieces]
  | cons c rest =>
    unfold pieces
    split
    · simp
    · split <;> simp

/-- Joining the pieces of a text gives the text back. -/
theorem joinWith_pieces (sep : Char) (text : List Char) :
    joinWith sep (pieces (· == sep) text) = text := by
  induction text with
  | nil => rfl
  | cons c rest ih =>
    unfold pieces
    by_cases h : c = sep
    · subst h
      cases hp : pieces (· == c) rest with
      | nil => exact absurd hp (pieces_ne_nil _ _)
      | cons p ps => rw [hp] at ih; simp [joinWith, ih]
    · cases hp : pieces (· == sep) rest with
      | nil => exact absurd hp (pieces_ne_nil _ _)
      | cons p ps =>
        rw [hp] at ih
        cases ps <;> simp_all [joinWith]

/-- No piece holds a separator. -/
theorem not_sep_of_mem_pieces {sep : Char → Bool} {text piece : List Char}
    (hp : piece ∈ pieces sep text) {c : Char} (hc : c ∈ piece) : sep c = false := by
  induction text generalizing piece with
  | nil => simp_all [pieces]
  | cons d rest ih =>
    unfold pieces at hp
    split at hp
    · rcases List.mem_cons.1 hp with h | h
      · simp_all
      · exact ih h hc
    · split at hp
      · simp_all
      · rename_i q qs hq
        rcases List.mem_cons.1 hp with h | h
        · subst h
          rcases List.mem_cons.1 hc with h' | h'
          · subst h'; simp_all
          · exact ih (hq ▸ List.mem_cons_self) h'
        · exact ih (hq ▸ List.mem_cons_of_mem _ h) hc

example : pieces (· == '.') "a..b".toList = [['a'], [], ['b']] := by decide
example : replaceAll "aa".toList "b".toList "aaa".toList = "ba".toList := by decide

end ModelForms.Text
