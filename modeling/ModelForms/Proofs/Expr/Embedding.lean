import Mathlib.Data.List.Forall2
import ModelForms.Proofs.Expr.Scanning

/-!
# Texts inside other texts

A text that is accepted as a type expression can stand between parentheses or angle brackets, and
the tree of the whole is then made of its tree.  The parser needs no more for that than a level of
nesting (`TypeExpr.HasRoom`).  The scanner has to find the same tokens in the text when something
follows it.  It does unless its last token could go on: what follows must not continue a name or a
number, and the text must end outside a string.  Every token of an accepted text is a word of the
grammar, so no string is left open in it (`Cursor.Scans.append`).
-/

namespace ModelForms

open Grammar

/-- What may follow a token, whichever it is. -/
def EndsToken (rest : List Char) : Prop :=
  ∀ c ∈ rest.head?, CharClass.continuesName c = false ∧ c.isDigit = false ∧ c ≠ '.'

theorem endsToken_cons {c : Char} {rest : List Char}
    (ends : CharClass.continuesName c = false ∧ c.isDigit = false ∧ c ≠ '.') :
    EndsToken (c :: rest) := by
  rintro _ ⟨⟩
  exact ends

namespace Cursor

variable {text rest : List Char} {c : Char}

/-! ## Tokens -/

/-- A string that is closed ends before what follows it. -/
theorem quoted_append {quote : Char} (closed : (quoted quote text).closed = true)
    (rest : List Char) :
    quoted quote (text ++ rest) = quoted quote text
      ∧ (quoted quote text).taken ≤ text.length := by
  fun_induction quoted quote text with
  | case1 => cases closed
  | case2 text => exact ⟨quoted_close quote (text ++ rest), Nat.succ_le_succ (Nat.zero_le _)⟩
  | case3 => cases closed
  | case4 d text other ih =>
    obtain ⟨same, le⟩ := ih closed
    rw [List.cons_append, List.cons_append, quoted_escape other, same]
    exact ⟨rfl, Nat.add_le_add_right le 2⟩
  | case5 d text other plain ih =>
    obtain ⟨same, le⟩ := ih closed
    rw [List.cons_append, quoted_plain other plain, same]
    exact ⟨rfl, Nat.add_le_add_right le 1⟩

theorem digits_append (ends : EndsToken rest) (pointAllowed : Bool) :
    digits pointAllowed (text ++ rest) = digits pointAllowed text := by
  induction text generalizing pointAllowed with
  | nil =>
    cases rest with
    | nil => rfl
    | cons c rest =>
      obtain ⟨_, noDigit, noPoint⟩ := ends c rfl
      rw [List.nil_append]
      unfold digits
      simp [noDigit, noPoint]
  | cons c text ih =>
    rw [List.cons_append]
    unfold digits
    rw [ih]

theorem length_digits_le (pointAllowed : Bool) (text : List Char) :
    (digits pointAllowed text).length ≤ text.length := by
  induction text generalizing pointAllowed with
  | nil => exact Nat.le_refl _
  | cons c text ih =>
    unfold digits
    split
    · exact Nat.succ_le_succ (ih _)
    · exact Nat.zero_le _

theorem takeWhile_append (ends : EndsToken rest) :
    (text ++ rest).takeWhile CharClass.continuesName = text.takeWhile CharClass.continuesName := by
  induction text with
  | nil =>
    cases rest with
    | nil => rfl
    | cons c rest => simp [(ends c rfl).1]
  | cons c text ih => rw [List.cons_append, List.takeWhile_cons, List.takeWhile_cons, ih]

/-- A word is the same token in front of what ends tokens, and lies before it. -/
theorem lexeme_append (word : IsWord (lexeme c text).token) (ends : EndsToken rest) :
    lexeme c (text ++ rest) = lexeme c text ∧ (lexeme c text).more ≤ text.length := by
  unfold lexeme at word ⊢
  split
  next => exact ⟨rfl, Nat.zero_le _⟩
  next none =>
    rw [none] at word
    simp only at word
    split
    next isQuote =>
      rw [if_pos isQuote, stringLexeme] at word
      have closed : (quoted c text).closed = true := by
        cases closed : (quoted c text).closed with
        | true => rfl
        | false =>
          rw [closed] at word
          exact word.elim
      obtain ⟨same, le⟩ := quoted_append closed rest
      exact ⟨by rw [stringLexeme, stringLexeme, same], le⟩
    next =>
      split
      next =>
        simp only [numberLexeme, digits_append ends, true_and]
        split
        · exact Nat.zero_le _
        · exact length_digits_le true text
      next =>
        split
        next =>
          rw [nameLexeme, nameLexeme, takeWhile_append ends]
          exact ⟨rfl, (List.takeWhile_sublist _).length_le⟩
        next => exact ⟨rfl, Nat.zero_le _⟩

/-! ## Texts -/

theorem exists_scans : ∀ text : List Char, ∃ tokens, Scans text tokens
  | [] => ⟨[], .nothing⟩
  | c :: text => by
    cases blank : CharClass.isBlank c with
    | true =>
      obtain ⟨tokens, scans⟩ := exists_scans text
      exact ⟨tokens, .blank blank scans⟩
    | false =>
      obtain ⟨tokens, scans⟩ := exists_scans (text.drop (lexeme c text).more)
      exact ⟨_, .token blank scans⟩
termination_by text => text.length
decreasing_by all_goals simp; try omega

/-- A text that is scanned to words is scanned to them in front of what ends tokens. -/
theorem Scans.append {tokens : List Token} (scans : Scans text tokens)
    (words : ∀ token ∈ tokens, IsWord token) (ends : EndsToken rest) {more : List Token}
    (scans' : Scans rest more) : Scans (text ++ rest) (tokens ++ more) := by
  induction scans with
  | nothing => exact scans'
  | blank is _ ih => exact .blank is (ih words)
  | @token c text tokens proper _ ih =>
    obtain ⟨word, words⟩ := List.forall_mem_cons.1 words
    obtain ⟨same, le⟩ := lexeme_append word ends
    rw [← same, List.cons_append, List.cons_append]
    refine .token proper ?_
    rw [same, List.drop_append_of_le_length le]
    exact ih words

end Cursor

namespace TypeExpr

open Cursor

variable {text : String} {rest : List Char} {more : List Token} {expr : TypeExpr}

theorem scans_sentence (text : String) : Scans text.toList (sentence text) := by
  obtain ⟨tokens, scans⟩ := exists_scans text.toList
  rwa [sentence_eq_of_scans scans]

/-- A text is a type expression with a level of nesting to spare, and this is its tree. -/
def HasRoom (text : String) (expr : TypeExpr) : Prop :=
  Derives (Limits.expressionDepth - 1) (sentence text) expr

theorem parse_eq_of_derives
    (derives : UnionChain (Derives (Limits.expressionDepth - 1)) (sentence text) expr) :
    parse text = .ok expr := by
  have derives : Derives Limits.expressionDepth (sentence text) expr := derives
  obtain ⟨_, takes⟩ := takes_of_derives derives
  exact parse_eq_ok_iff_takes.2 ⟨_, takes_whole_iff.2 ⟨takes, rfl⟩⟩

namespace HasRoom

theorem parse_eq (room : HasRoom text expr) : parse text = .ok expr :=
  parse_eq_of_derives (room.mono (Nat.sub_le Limits.expressionDepth 1))

/-- In front of what ends tokens the text has its own tokens. -/
theorem scans (room : HasRoom text expr) (ends : EndsToken rest) (scans : Scans rest more) :
    Scans (text.toList ++ rest) (sentence text ++ more) :=
  (scans_sentence text).append room.isWord ends scans

/-! ## Between parentheses -/

/-- The text between parentheses, in front of anything. -/
theorem scans_parentheses (room : HasRoom text expr) (scans : Scans rest more) :
    Scans ('(' :: (text.toList ++ ')' :: rest))
      (.punctuation .openParen :: sentence text ++ [.punctuation .closeParen] ++ more) := by
  rw [List.append_assoc, List.cons_append]
  refine Spells.sign .openParen (room.scans (endsToken_cons (by decide)) ?_)
  exact Spells.sign .closeParen scans

/-- Between parentheses the text is a type that brackets may follow. -/
theorem bracketed (room : HasRoom text expr) :
    Bracketed (Derives (Limits.expressionDepth - 1))
      (.punctuation .openParen :: sentence text ++ [.punctuation .closeParen]) expr :=
  .primary (.parentheses room)

theorem member (room : HasRoom text expr) :
    IntersectionChain (Derives (Limits.expressionDepth - 1))
      (.punctuation .openParen :: sentence text ++ [.punctuation .closeParen]) expr :=
  .intro (.one room.bracketed)

theorem parse_brackets (room : HasRoom text expr) :
    parse ("(" ++ text ++ ")[]") = .ok (.array expr) := by
  have scans := room.scans_parentheses
    (Spells.sign .openBracket (Spells.sign .closeBracket .nothing))
  have same : ("(" ++ text ++ ")[]").toList = '(' :: (text.toList ++ ')' :: ['[', ']']) := by
    simp
  refine parse_eq_of_derives ?_
  rw [sentence_eq_of_scans (same ▸ scans)]
  exact .intro (.one (.intro (.one (.array room.bracketed))))

theorem parse_nullable (room : HasRoom text expr) :
    parse ("(" ++ text ++ ") | null") = .ok (.union [expr, .keyword .null]) := by
  have null := @(Spells.name (Intrinsic.isName_name .null)).scans [] [] nofun .nothing
  have scans := room.scans_parentheses (Spells.space (Spells.sign .bar (Spells.space null)))
  have same : ("(" ++ text ++ ") | null").toList
      = '(' :: (text.toList ++ ')' :: ' ' :: '|' :: ' ' :: "null".toList) := by
    simp
  refine parse_eq_of_derives ?_
  rw [sentence_eq_of_scans (same ▸ scans)]
  exact .intro (.more room.member (.one (.intro (.one (.primary (.keyword rfl))))))

theorem parse_generic (room : HasRoom text expr) :
    parse ("Array<" ++ text ++ ">") = .ok (.reference "Array" [expr]) := by
  have inner := room.scans (endsToken_cons (by decide)) (Spells.sign .greater .nothing)
  have scans := (Spells.name (show CharClass.isName "Array" = true by decide)).scans
    (Spells.endsName_cons (by decide) _) (Spells.sign .less inner)
  have same : ("Array<" ++ text ++ ">").toList
      = "Array".toList ++ '<' :: (text.toList ++ ['>']) := by
    simp
  refine parse_eq_of_derives ?_
  rw [sentence_eq_of_scans (same ▸ scans)]
  have free : IsFree "Array" := ⟨by decide, by decide, by decide⟩
  exact .intro (.one (.intro (.one (.primary (.generic free (.one room))))))

end HasRoom

/-! ## Between bars -/

/-- Texts between parentheses, with a bar between each two. -/
def barred (texts : List String) : String :=
  " | ".intercalate (texts.map fun text => "(" ++ text ++ ")")

theorem exists_separated {texts : List String} {exprs : List TypeExpr}
    (room : List.Forall₂ HasRoom texts exprs) (some : texts ≠ []) :
    ∃ tokens, Scans (barred texts).toList tokens
      ∧ Separated .bar (IntersectionChain (Derives (Limits.expressionDepth - 1))) tokens exprs := by
  induction room with
  | nil => exact absurd rfl some
  | @cons text expr texts exprs first rest ih =>
    cases rest with
    | nil =>
      have scans := first.scans_parentheses .nothing
      have same : (barred [text]).toList = '(' :: (text.toList ++ [')']) := by
        simp [barred]
      rw [List.append_nil] at scans
      exact ⟨_, same ▸ scans, .one first.member⟩
    | @cons second expr' texts exprs firstRest rest =>
      obtain ⟨tokens, scans, separated⟩ := ih (by simp)
      have scans := first.scans_parentheses (Spells.space (Spells.sign .bar (Spells.space scans)))
      have same : (barred (text :: second :: texts)).toList
          = '(' :: (text.toList
            ++ ')' :: ' ' :: '|' :: ' ' :: (barred (second :: texts)).toList) := by
        simp [barred, String.intercalate_cons_cons]
      exact ⟨_, same ▸ scans, .more first.member separated⟩

theorem parse_barred {texts : List String} {exprs : List TypeExpr}
    (room : List.Forall₂ HasRoom texts exprs) (some : texts ≠ []) :
    parse (barred texts) = .ok (chainTree .union exprs) := by
  obtain ⟨tokens, scans, separated⟩ := exists_separated room some
  refine parse_eq_of_derives ?_
  rw [sentence_eq_of_scans scans]
  exact .intro separated

end TypeExpr

end ModelForms
