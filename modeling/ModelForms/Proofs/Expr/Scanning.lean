import ModelForms.Proofs.Expr.Parsing
import ModelForms.Proofs.Text.Codes

/-!
# Scanning texts that are put together

Scanning a text skips blanks and takes tokens off the front of it (`Cursor.Scans`), and the tokens
that are found this way are those of the text (`TypeExpr.sentence_eq_of_scans`).

What is taken for a name depends on what comes after it, and nothing else that types are written
with does.  So a text `Spells` tokens if it is scanned to them in front of every text that does not
go on with a name, and where two texts spell tokens, so do the texts that are put together from them
with brackets, parentheses and bars.

A text is scanned to a single name exactly if it is a name (`TypeExpr.sentence_eq_name_iff`).
-/

namespace ModelForms

namespace CharClass

/-- Ranges that have no overlap with others. -/
theorem inRanges_eq_false {ranges others : List (Nat × Nat)} {n : Nat}
    (apart : ∀ r ∈ ranges, ∀ s ∈ others, r.2 < s.1 ∨ s.2 < r.1) (h : inRanges ranges n = true) :
    inRanges others n = false := by
  obtain ⟨r, mem, inside⟩ := List.any_eq_true.1 h
  rw [inRanges, List.any_eq_false]
  intro s mem'
  simp only [Bool.and_eq_true, decide_eq_true_eq] at inside ⊢
  have := apart r mem s mem'
  omega

/-- No name starts with a blank. -/
theorem isBlank_of_startsName {c : Char} (starts : startsName c = true) : isBlank c = false := by
  simp only [startsName, Bool.or_eq_true, beq_iff_eq] at starts
  rcases starts with (letter | rfl) | rfl
  · unfold isLetter at letter
    split at letter
    next below =>
      have apart : ∀ n < 128, (Char.ofNat n).isAlpha = true → inRanges blankRanges n = false := by
        decide +kernel
      exact apart _ below (by rwa [Char.ofNat_toNat])
    next => exact inRanges_eq_false (by decide +kernel) letter
  · decide
  · decide

end CharClass

namespace Quoted

/-- A character that is written so that it can be read again: printable ASCII, a line end or a tab.
-/
def IsReadable (c : Char) : Prop := c = '\n' ∨ c = '\t' ∨ 0x20 ≤ c.toNat ∧ c.toNat ≤ 0x7E

instance : DecidablePred IsReadable := fun c =>
  inferInstanceAs (Decidable (c = '\n' ∨ c = '\t' ∨ 0x20 ≤ c.toNat ∧ c.toNat ≤ 0x7E))

/-- A readable character stands for itself, or a backslash and a character stand for it. -/
theorem IsReadable.escapedChar {c : Char} (readable : IsReadable c) :
    Quoted.escapedChar c = [c] ∧ c ≠ '"' ∧ c ≠ '\\'
      ∨ ∃ d, Quoted.escapedChar c = ['\\', d] ∧ Cursor.unescaped d = c := by
  rcases readable with rfl | rfl | ⟨low, high⟩
  · exact .inr ⟨'n', rfl, rfl⟩
  · exact .inr ⟨'t', rfl, rfl⟩
  · by_cases mark : c = '\'' ∨ c = '"' ∨ c = '\\'
    · refine .inr ⟨c, ?_⟩
      rcases mark with rfl | rfl | rfl <;> exact ⟨rfl, rfl⟩
    · simp only [not_or] at mark
      exact .inl ⟨escapedChar_of_plain low high mark.1 mark.2.1 mark.2.2, mark.2⟩

/-- A readable character that stands for itself between double quotes. -/
def IsPlain (c : Char) : Prop := IsReadable c ∧ c ≠ '"' ∧ c ≠ '\\'

instance : DecidablePred IsPlain := fun c =>
  inferInstanceAs (Decidable (IsReadable c ∧ c ≠ '"' ∧ c ≠ '\\'))

theorem isPlain_of_mem_toDigits {n : Nat} {c : Char} (mem : c ∈ Nat.toDigits 16 n) :
    IsPlain c := by
  obtain ⟨digit, small, rfl⟩ := exists_of_mem_toDigits mem
  have all : ∀ i < 16, IsPlain i.digitChar := by decide
  exact all digit small

/-- For every other character a backslash and plain characters are written, of which the first
stands for itself after the backslash. -/
theorem exists_of_not_isReadable {c : Char} (unreadable : ¬ IsReadable c) :
    ∃ d rest, escapedChar c = '\\' :: d :: rest ∧ Cursor.unescaped d = d
      ∧ ∀ e ∈ d :: rest, IsPlain e := by
  simp only [IsReadable, not_or] at unreadable
  obtain ⟨noLine, noTab, outside⟩ := unreadable
  by_cases ret : c = '\r'
  · subst ret
    exact ⟨'r', [], rfl, rfl, List.forall_mem_singleton.2 (by decide)⟩
  · have noMark : ¬ (c = '\'' ∨ c = '"' ∨ c = '\\') := by
      rintro (rfl | rfl | rfl) <;> exact outside (by decide)
    refine ⟨'u', '\x7b' :: (Nat.toDigits 16 c.toNat ++ ['\x7d']), ?_, rfl, ?_⟩
    · simp only [not_or] at noMark
      simp [escapedChar, *]
    · exact List.forall_mem_cons.2 ⟨by decide, List.forall_mem_cons.2 ⟨by decide,
        List.forall_mem_append.2 ⟨fun _ => isPlain_of_mem_toDigits,
          List.forall_mem_singleton.2 (by decide)⟩⟩⟩

/-- What is read for a character that was written between quotes: of an escape that is not known the
backslash is lost. -/
def reread (c : Char) : List Char := if IsReadable c then [c] else (escapedChar c).tail

theorem reread_of_isReadable {c : Char} (readable : IsReadable c) : reread c = [c] :=
  if_pos readable

theorem flatMap_reread {value : List Char} (readable : ∀ c ∈ value, IsReadable c) :
    value.flatMap reread = value := by
  induction value with
  | nil => rfl
  | cons c value ih =>
    obtain ⟨first, readable⟩ := List.forall_mem_cons.1 readable
    rw [List.flatMap_cons, reread_of_isReadable first, ih readable, List.singleton_append]

end Quoted

namespace Cursor

/-! ## Tokens -/

theorem lexeme_char (sign : Punctuation) (text : List Char) :
    lexeme sign.char text = ⟨.punctuation sign, 0⟩ := by
  have is : Punctuation.ofChar? sign.char = some sign := by cases sign <;> decide
  rw [lexeme, is]

/-- No sign starts a name. -/
theorem ofChar?_eq_none {c : Char} (starts : CharClass.startsName c = true) :
    Punctuation.ofChar? c = none := by
  rw [Punctuation.ofChar?, List.find?_eq_none]
  intro sign _ is
  rw [← beq_iff_eq.1 is] at starts
  cases sign <;> exact absurd starts (by decide)

theorem lexeme_of_startsName {c : Char} (starts : CharClass.startsName c = true)
    (text : List Char) : lexeme c text = nameLexeme c text := by
  have other (d : Char) (no : CharClass.startsName d = false) : c ≠ d := by
    rintro rfl
    cases no.symm.trans starts
  have noDigit : c.isDigit = false := by
    rw [← Bool.not_eq_true]
    intro digit
    cases (CharClass.startsName_of_isDigit digit).symm.trans starts
  unfold lexeme
  rw [ofChar?_eq_none starts]
  simp [other '\'' (by decide), other '"' (by decide), other '-' (by decide), noDigit, starts]

/-- A token is a name only if its characters are those of a name. -/
theorem isName_of_lexeme {c : Char} {text : List Char} {name : String}
    (is : (lexeme c text).token = .name name) : CharClass.isName name = true := by
  unfold lexeme at is
  split at is
  next => cases is
  next =>
    split at is
    next =>
      simp only [stringLexeme] at is
      split at is <;> cases is
    next =>
      split at is
      next =>
        unfold numberLexeme at is
        simp only at is
        split at is <;> cases is
      next =>
        split at is
        next starts =>
          cases is
          rw [CharClass.isName, String.toList_ofList]
          simp [starts, List.all_takeWhile]
        next => cases is

theorem isName_of_scan {cursor : Cursor} {name : String}
    (is : cursor.scan.1.token = .name name) : CharClass.isName name = true := by
  unfold scan at is
  dsimp only at is
  split at is
  next => cases is
  next => exact isName_of_lexeme is

/-- A token is found wherever the text goes on. -/
theorem lexeme_ne_endOfText (c : Char) (text : List Char) :
    (lexeme c text).token ≠ .endOfText := by
  unfold lexeme
  split
  next => nofun
  next =>
    split
    next =>
      unfold stringLexeme
      simp only
      split <;> nofun
    next =>
      split
      next =>
        unfold numberLexeme
        simp only
        split <;> nofun
      next => split <;> nofun

/-- The same text with some characters before it that take `count` characters. -/
def QuotedText.following (front : List Char) (count : Nat) (text : QuotedText) : QuotedText :=
  ⟨front ++ text.value, text.taken + count, text.closed⟩

theorem quoted_close (quote : Char) (text : List Char) :
    quoted quote (quote :: text) = ⟨[], 1, true⟩ :=
  (quoted.eq_def _ _).trans (if_pos rfl)

theorem quoted_escape {quote : Char} (other : '\\' ≠ quote) (d : Char) (text : List Char) :
    quoted quote ('\\' :: d :: text) = (quoted quote text).preceded (unescaped d) 2 :=
  (quoted.eq_def _ _).trans ((if_neg other).trans (if_pos rfl))

theorem quoted_plain {quote c : Char} (other : c ≠ quote) (plain : c ≠ '\\') (text : List Char) :
    quoted quote (c :: text) = (quoted quote text).preceded c 1 :=
  (quoted.eq_def _ _).trans ((if_neg other).trans (if_neg plain))

theorem quoted_of_isPlain {front : List Char} (plain : ∀ c ∈ front, Quoted.IsPlain c)
    (text : List Char) :
    quoted '"' (front ++ text) = (quoted '"' text).following front front.length := by
  induction front with
  | nil => rfl
  | cons c front ih =>
    obtain ⟨first, plain⟩ := List.forall_mem_cons.1 plain
    rw [List.cons_append, quoted_plain first.2.1 first.2.2, ih plain]
    simp [QuotedText.preceded, QuotedText.following, Nat.add_assoc]

/-- A character that was written between quotes is read on its own. -/
theorem quoted_escapedChar (c : Char) (text : List Char) :
    quoted '"' (Quoted.escapedChar c ++ text)
      = (quoted '"' text).following (Quoted.reread c) (Quoted.escapedChar c).length := by
  by_cases readable : Quoted.IsReadable c
  · rw [Quoted.reread_of_isReadable readable]
    rcases readable.escapedChar with ⟨plain, noQuote, noEscape⟩ | ⟨d, escaped, means⟩
    · rw [plain]
      exact quoted_of_isPlain (List.forall_mem_singleton.2 ⟨readable, noQuote, noEscape⟩) text
    · rw [escaped, List.cons_append, List.singleton_append,
        quoted_escape (by decide), means]
      rfl
  · obtain ⟨d, rest, escaped, means, plain⟩ := Quoted.exists_of_not_isReadable readable
    rw [Quoted.reread, if_neg readable, escaped, List.cons_append, List.cons_append,
      quoted_escape (by decide), quoted_of_isPlain (List.forall_mem_cons.1 plain).2, means]
    simp [QuotedText.preceded, QuotedText.following, Nat.add_assoc]

/-- A text that was written between quotes is read up to its closing quote. -/
theorem quoted_encode (value rest : List Char) :
    quoted '"' (value.flatMap Quoted.escapedChar ++ '"' :: rest)
      = ⟨value.flatMap Quoted.reread, (value.flatMap Quoted.escapedChar).length + 1, true⟩ := by
  induction value with
  | nil =>
    rw [List.flatMap_nil, List.nil_append, quoted_close]
    rfl
  | cons c value ih =>
    rw [List.flatMap_cons, List.append_assoc, quoted_escapedChar, ih]
    simp only [QuotedText.following, List.flatMap_cons, List.length_append, QuotedText.mk.injEq,
      true_and, and_true]
    omega

/-! ## Scanning -/

/-- A text is scanned to some tokens. -/
inductive Scans : List Char → List Token → Prop
  | nothing : Scans [] []
  | blank {c : Char} {text : List Char} {tokens : List Token} (is : CharClass.isBlank c = true)
      (onwards : Scans text tokens) : Scans (c :: text) tokens
  | token {c : Char} {text : List Char} {tokens : List Token}
      (proper : CharClass.isBlank c = false)
      (onwards : Scans (text.drop (lexeme c text).more) tokens) :
      Scans (c :: text) ((lexeme c text).token :: tokens)

theorem skipBlanks_of_blank {offset : Nat} {c : Char} {text : List Char}
    (is : CharClass.isBlank c = true) :
    skipBlanks ⟨offset, c :: text⟩ = skipBlanks ⟨offset + c.utf8Size, text⟩ := by
  simp [skipBlanks, advance, List.takeWhile_cons_of_pos is, bytes, Nat.add_assoc]

theorem skipBlanks_of_proper {offset : Nat} {c : Char} {text : List Char}
    (proper : CharClass.isBlank c = false) :
    skipBlanks ⟨offset, c :: text⟩ = ⟨offset, c :: text⟩ := by
  simp [skipBlanks, advance, proper, bytes]

/-- Where a text is scanned to some tokens, those come before the end of the text. -/
theorem Scans.bare_scanMany {text : List Char} {tokens : List Token} (scans : Scans text tokens) :
    ∀ {fuel offset : Nat}, text.length < fuel →
      TokenParser.bare (scanMany fuel ⟨offset, text⟩) = tokens ++ [.endOfText] := by
  induction scans with
  | nothing =>
    intro fuel offset enough
    obtain ⟨fuel, rfl⟩ : ∃ n, fuel = n + 1 := ⟨fuel - 1, by omega⟩
    rfl
  | @blank c text tokens is _ ih =>
    intro fuel offset enough
    obtain ⟨fuel, rfl⟩ : ∃ n, fuel = n + 1 := ⟨fuel - 1, by omega⟩
    rw [← @ih (fuel + 1) (offset + c.utf8Size) (by simp at enough; omega), scanMany, scanMany, scan,
      scan, skipBlanks_of_blank is]
  | @token c text tokens proper _ ih =>
    intro fuel offset enough
    obtain ⟨fuel, rfl⟩ : ∃ n, fuel = n + 1 := ⟨fuel - 1, by omega⟩
    have found : scan ⟨offset, c :: text⟩ = (⟨(lexeme c text).token, offset⟩,
        advance ((lexeme c text).more + 1) ⟨offset, c :: text⟩) := by
      rw [scan, skipBlanks_of_proper proper]
    rw [scanMany, found]
    simp only
    rw [if_neg (lexeme_ne_endOfText c text)]
    exact congrArg ((lexeme c text).token :: ·)
      (ih (by simp only [List.length_cons, List.length_drop] at enough ⊢; omega))

end Cursor

/-! ## Parentheses -/

namespace Grammar

/-- How many parentheses are open after a token. -/
def openAfter (opened : Nat) : Token → Nat
  | .punctuation .openParen => opened + 1
  | .punctuation .closeParen => opened - 1
  | _ => opened

/-- How many parentheses are open at the same time in some tokens, with those before them. -/
def nesting (opened : Nat) : List Token → Nat
  | [] => opened
  | token :: rest => max opened (nesting (openAfter opened token) rest)

theorem le_nesting (opened : Nat) (tokens : List Token) : opened ≤ nesting opened tokens := by
  cases tokens with
  | nil => exact Nat.le_refl opened
  | cons => exact Nat.le_max_left _ _

end Grammar

/-! ## Texts that spell tokens -/

open Grammar Cursor

/-- What may follow a name. -/
def EndsName (rest : List Char) : Prop := ∀ c ∈ rest.head?, CharClass.continuesName c = false

/-- A text that is scanned to some tokens, in which parentheses nest `depth` deep. -/
structure Spells (text : List Char) (tokens : List Token) (depth : Nat) : Prop where
  scans : ∀ {rest : List Char} {more : List Token}, EndsName rest → Scans rest more →
    Scans (text ++ rest) (tokens ++ more)
  nests : ∀ (opened : Nat) (more : List Token),
    nesting opened (tokens ++ more) = max (opened + depth) (nesting opened more)

namespace Spells

variable {text other : List Char} {tokens others : List Token} {depth deeper : Nat}

/-- A token that opens and closes no parenthesis. -/
theorem nests_single {token : Token} (flat : ∀ opened, openAfter opened token = opened)
    (opened : Nat) (more : List Token) :
    nesting opened ([token] ++ more) = max (opened + 0) (nesting opened more) := by
  rw [List.singleton_append, nesting, flat]
  rfl

theorem name {name : String} (is : CharClass.isName name = true) :
    Spells name.toList [.name name] 0 where
  nests := nests_single fun _ => rfl
  scans {rest more} ends scans := by
    obtain ⟨c, text, same, starts, continues⟩ := CharClass.exists_of_isName is
    have taken : (text ++ rest).takeWhile CharClass.continuesName = text := by
      rw [List.takeWhile_append_of_pos (List.forall_mem_cons.1 continues).2]
      cases rest with
      | nil => rw [List.takeWhile_nil, List.append_nil]
      | cons d rest => rw [List.takeWhile_cons_of_neg (by simp [ends d rfl]), List.append_nil]
    have found : lexeme c (text ++ rest) = ⟨.name name, text.length⟩ := by
      rw [lexeme_of_startsName starts, nameLexeme, taken, ← same, String.ofList_toList]
    rw [same]
    have scans := @Scans.token c (text ++ rest) more (CharClass.isBlank_of_startsName starts) (by
      rw [found]
      simpa using scans)
    rwa [found] at scans

/-- A text that was written between quotes spells what is read for its characters. -/
theorem string (value : List Char) :
    Spells (Quoted.encode value) [.string (String.ofList (value.flatMap Quoted.reread))] 0 where
  nests := nests_single fun _ => rfl
  scans {rest more} _ scans := by
    have found : lexeme '"' (value.flatMap Quoted.escapedChar ++ '"' :: rest)
        = ⟨.string (String.ofList (value.flatMap Quoted.reread)),
          (value.flatMap Quoted.escapedChar).length + 1⟩ := by
      show stringLexeme '"' _ = _
      rw [stringLexeme, quoted_encode]
      simp
    have onwards : (value.flatMap Quoted.escapedChar ++ '"' :: rest).drop
        ((value.flatMap Quoted.escapedChar).length + 1) = rest := by
      rw [← List.drop_drop, List.drop_left, List.drop_one, List.tail_cons]
    have scans := @Scans.token '"' (value.flatMap Quoted.escapedChar ++ '"' :: rest) more
      (by decide) (by rwa [found, onwards])
    rw [found] at scans
    simpa [Quoted.encode] using scans

theorem sign (sign : Punctuation) {rest : List Char} {more : List Token} (scans : Scans rest more) :
    Scans (sign.char :: rest) (.punctuation sign :: more) := by
  have scans := @Scans.token sign.char rest more (by cases sign <;> decide) (by
    rw [lexeme_char]
    exact scans)
  rwa [lexeme_char] at scans

theorem space {rest : List Char} {more : List Token} (scans : Scans rest more) :
    Scans (' ' :: rest) more :=
  .blank (by decide) scans

theorem endsName_cons {c : Char} (no : CharClass.continuesName c = false) (rest : List Char) :
    EndsName (c :: rest) := by
  rintro _ ⟨⟩
  exact no

theorem brackets (spells : Spells text tokens depth) :
    Spells (text ++ ['[', ']'])
      (tokens ++ [.punctuation .openBracket, .punctuation .closeBracket]) depth where
  scans {rest more} _ scans := by
    rw [List.append_assoc, List.append_assoc]
    exact spells.scans (endsName_cons (by decide) _) (sign .openBracket (sign .closeBracket scans))
  nests opened more := by
    have := le_nesting opened more
    rw [List.append_assoc, spells.nests]
    simp only [List.cons_append, List.nil_append, nesting, openAfter]
    omega

theorem parentheses (spells : Spells text tokens depth) :
    Spells ('(' :: (text ++ [')']))
      (.punctuation .openParen :: tokens ++ [.punctuation .closeParen]) (depth + 1) where
  scans {rest more} _ scans := by
    rw [List.cons_append, List.append_assoc, List.append_assoc]
    exact sign .openParen (spells.scans (endsName_cons (by decide) _) (sign .closeParen scans))
  nests opened more := by
    have := le_nesting opened more
    rw [List.cons_append, List.cons_append, nesting, List.append_assoc, spells.nests]
    simp only [List.cons_append, List.nil_append, nesting, openAfter, Nat.add_sub_cancel]
    omega

theorem bar (spells : Spells text tokens depth) (spells' : Spells other others deeper) :
    Spells (text ++ [' ', '|', ' '] ++ other) (tokens ++ .punctuation .bar :: others)
      (max depth deeper) where
  scans {rest more} ends scans := by
    rw [List.append_assoc, List.append_assoc, List.append_assoc]
    exact spells.scans (endsName_cons (by decide) _)
      (space (sign .bar (space (spells'.scans ends scans))))
  nests opened more := by
    have := le_nesting opened more
    rw [List.append_assoc, spells.nests, List.cons_append, nesting, openAfter, spells'.nests]
    · omega
    all_goals simp

end Spells

/-! ## Sentences -/

namespace TypeExpr

theorem sentence_eq_of_scans {text : String} {tokens : List Token}
    (scans : Scans text.toList tokens) : sentence text = tokens := by
  rw [sentence, Cursor.tokens, Cursor.start, scans.bare_scanMany (Nat.lt_succ_self _),
    List.dropLast_concat]

/-- The tokens of a text are those that it spells. -/
theorem sentence_eq_of_spells {text : List Char} {tokens : List Token} {depth : Nat}
    (spells : Spells text tokens depth) :
    sentence (String.ofList text) = tokens ∧ nesting 0 tokens = depth := by
  have scans := @spells.scans [] [] nofun .nothing
  have nests := spells.nests 0 []
  rw [List.append_nil, List.append_nil] at scans
  rw [List.append_nil, nesting, Nat.zero_add, Nat.max_zero] at nests
  exact ⟨sentence_eq_of_scans (by rwa [String.toList_ofList]), nests⟩

/-- A text is scanned to itself as a single name exactly if it is a name. -/
theorem sentence_eq_name_iff {name : String} :
    sentence name = [.name name] ↔ CharClass.isName name = true := by
  constructor
  · intro single
    unfold sentence Cursor.tokens at single
    rw [scanMany] at single
    simp only at single
    split at single
    next => cases single
    next =>
      generalize scanMany _ _ = later at single
      cases later with
      | nil => cases single
      | cons => exact isName_of_scan (List.cons.inj single).1
  · intro is
    have spells := Spells.name is
    rw [← String.ofList_toList (s := name)]
    simpa using (sentence_eq_of_spells spells).1

end TypeExpr

/-! ## Texts of expressions -/

/-- A text is read as an expression that brackets may follow, and its parentheses nest `depth` deep.
-/
def ReadsOperand (text : List Char) (depth : Nat) (expr : TypeExpr) : Prop :=
  ∃ tokens, Spells text tokens depth
    ∧ ∀ levels, depth ≤ levels → Bracketed (Derives levels) tokens expr

/-- A text is read as expressions between bars. -/
def ReadsMembers (text : List Char) (depth : Nat) (exprs : List TypeExpr) : Prop :=
  ∃ tokens, Spells text tokens depth
    ∧ ∀ levels, depth ≤ levels → Separated .bar (IntersectionChain (Derives levels)) tokens exprs

/-- A text is read as an expression. -/
def ReadsType (text : List Char) (depth : Nat) (expr : TypeExpr) : Prop :=
  ∃ tokens, Spells text tokens depth
    ∧ ∀ levels, depth ≤ levels → UnionChain (Derives levels) tokens expr

section

variable {text other : List Char} {depth deeper : Nat} {expr : TypeExpr} {exprs : List TypeExpr}

namespace ReadsOperand

theorem keyword (k : Intrinsic) : ReadsOperand k.name.toList 0 (.keyword k) :=
  ⟨_, .name k.isName_name, fun _ _ => .primary (.keyword (Intrinsic.ofName?_name k))⟩

theorem boolean (b : Bool) :
    ReadsOperand (if b then "true".toList else "false".toList) 0 (.boolean b) := by
  cases b with
  | true => exact ⟨_, .name (by decide), fun _ _ => .primary .trueWord⟩
  | false => exact ⟨_, .name (by decide), fun _ _ => .primary .falseWord⟩

theorem reference {name : String} (is : CharClass.isName name = true) (free : IsFree name) :
    ReadsOperand name.toList 0 (.reference name []) :=
  ⟨_, .name is, fun _ _ => .primary (.bare free)⟩

theorem quoted (value : List Char) :
    ReadsOperand (Quoted.encode value) 0
      (.string (String.ofList (value.flatMap Quoted.reread))) :=
  ⟨_, .string value, fun _ _ => .primary (.string _)⟩

theorem string {value : String} (readable : ∀ c ∈ value.toList, Quoted.IsReadable c) :
    ReadsOperand (Quoted.encode value.toList) 0 (.string value) := by
  have reads := quoted value.toList
  rwa [Quoted.flatMap_reread readable, String.ofList_toList] at reads

theorem array (reads : ReadsOperand text depth expr) :
    ReadsOperand (text ++ ['[', ']']) depth (.array expr) := by
  obtain ⟨_, spells, derives⟩ := reads
  exact ⟨_, spells.brackets, fun levels enough => .array (derives levels enough)⟩

theorem member (reads : ReadsOperand text depth expr) : ReadsMembers text depth [expr] := by
  obtain ⟨_, spells, derives⟩ := reads
  exact ⟨_, spells, fun levels enough => .one (.intro (.one (derives levels enough)))⟩

theorem cons (reads : ReadsOperand text depth expr) (others : ReadsMembers other deeper exprs) :
    ReadsMembers (text ++ [' ', '|', ' '] ++ other) (max depth deeper) (expr :: exprs) := by
  obtain ⟨_, spells, derives⟩ := reads
  obtain ⟨_, spells', derives'⟩ := others
  refine ⟨_, spells.bar spells', fun levels enough => ?_⟩
  exact .more (.intro (.one (derives levels (by omega)))) (derives' levels (by omega))

end ReadsOperand

theorem ReadsMembers.type (reads : ReadsMembers text depth exprs) :
    ReadsType text depth (chainTree .union exprs) := by
  obtain ⟨_, spells, derives⟩ := reads
  exact ⟨_, spells, fun levels enough => .intro (derives levels enough)⟩

theorem ReadsOperand.type (reads : ReadsOperand text depth expr) : ReadsType text depth expr :=
  reads.member.type

/-- In parentheses a type is one that brackets may follow. -/
theorem ReadsType.parentheses (reads : ReadsType text depth expr) :
    ReadsOperand ('(' :: (text ++ [')'])) (depth + 1) expr := by
  obtain ⟨_, spells, derives⟩ := reads
  refine ⟨_, spells.parentheses, fun levels enough => ?_⟩
  obtain ⟨levels, rfl⟩ : ∃ n, levels = n + 1 := ⟨levels - 1, by omega⟩
  exact .primary (.parentheses (derives levels (by omega)))

/-- A text that is read as an expression is parsed to it if its parentheses do not nest too deeply.
-/
theorem ReadsType.parse_eq (reads : ReadsType text depth expr)
    (shallow : nesting 0 (TypeExpr.sentence (String.ofList text)) < Limits.expressionDepth) :
    TypeExpr.parse (String.ofList text) = .ok expr := by
  obtain ⟨tokens, spells, derives⟩ := reads
  obtain ⟨sentence, nests⟩ := TypeExpr.sentence_eq_of_spells spells
  rw [sentence, nests] at shallow
  have derives : Derives Limits.expressionDepth (TypeExpr.sentence (String.ofList text)) expr := by
    rw [sentence]
    exact derives _ (Nat.le_sub_one_of_lt shallow)
  obtain ⟨_, takes⟩ := TypeExpr.takes_of_derives derives
  exact TypeExpr.parse_eq_ok_iff_takes.2 ⟨_, TypeExpr.takes_whole_iff.2 ⟨takes, rfl⟩⟩

end

end ModelForms
