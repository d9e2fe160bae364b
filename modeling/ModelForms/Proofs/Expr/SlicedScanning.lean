import ModelForms.Expr.Token

/-!
# Scanning by slices

A scanner need not keep the characters that come next.  `Sliced.scan` keeps the byte that it has
come to and slices the text there whenever it looks at a character, and it goes on by the width of
each character that it takes.  A slice that starts inside a character has no result, and then
scanning has none.

`Sliced.scan_eq` says that every slice has a result where the scanner gets to, and that the token is
the one that `Cursor.scan` finds.  `Cursor.On` is what carries this: the position of a cursor lies
between two characters of the text, where the characters that are left to it start.
-/

namespace ModelForms

namespace Cursor

/-! ## Positions between characters -/

theorem bytes_cons (c : Char) (text : List Char) : bytes (c :: text) = c.utf8Size + bytes text :=
  rfl

theorem bytes_append (text more : List Char) : bytes (text ++ more) = bytes text + bytes more := by
  induction text with
  | nil => exact (Nat.zero_add _).symm
  | cons c text ih =>
    rw [List.cons_append, bytes_cons, bytes_cons, ih, Nat.add_assoc]

/-- Only nothing takes no bytes. -/
theorem bytes_pos {text : List Char} (some : text ≠ []) : 0 < bytes text := by
  obtain ⟨c, rest, rfl⟩ := List.exists_cons_of_ne_nil some
  have := c.utf8Size_pos
  rw [bytes_cons]
  omega

/-- The bytes of some characters are those of the text that they make up. -/
theorem utf8ByteSize_ofList (text : List Char) :
    (String.ofList text).utf8ByteSize = bytes text := by
  induction text with
  | nil => rfl
  | cons c text ih =>
    rw [String.ofList_cons, String.utf8ByteSize_append, String.utf8ByteSize_singleton, ih,
      bytes_cons]

theorem take_length_takeWhile (p : Char → Bool) (text : List Char) :
    text.take (text.takeWhile p).length = text.takeWhile p :=
  (List.prefix_iff_eq_take.1 (List.takeWhile_prefix p)).symm

theorem take_length_digits (pointAllowed : Bool) (text : List Char) :
    text.take (digits pointAllowed text).length = digits pointAllowed text := by
  induction text generalizing pointAllowed with
  | nil => rfl
  | cons c text ih =>
    unfold digits
    split
    · exact congrArg (c :: ·) (ih _)
    · rfl

/-- A text has some characters from a byte on. -/
def SplitsAt (text : String) (position : Nat) (rest : List Char) : Prop :=
  ∃ before, text.toList = before ++ rest ∧ bytes before = position

variable {text : String} {position : Nat} {rest : List Char}

theorem splitsAt_zero (text : String) : SplitsAt text 0 text.toList := ⟨[], rfl, rfl⟩

theorem SplitsAt.append {taken : List Char} (splits : SplitsAt text position (taken ++ rest)) :
    SplitsAt text (position + bytes taken) rest := by
  obtain ⟨before, same, rfl⟩ := splits
  exact ⟨before ++ taken, by rw [same, List.append_assoc], bytes_append before taken⟩

theorem SplitsAt.length_le (splits : SplitsAt text position rest) :
    rest.length ≤ text.toList.length := by
  obtain ⟨before, same, _⟩ := splits
  rw [same, List.length_append]
  exact Nat.le_add_left _ _

theorem SplitsAt.drop (splits : SplitsAt text position rest) (count : Nat) :
    SplitsAt text (position + bytes (rest.take count)) (rest.drop count) :=
  SplitsAt.append (by rwa [List.take_append_drop])

theorem SplitsAt.tail {c : Char} (splits : SplitsAt text position (c :: rest)) :
    SplitsAt text (position + c.utf8Size) rest :=
  splits.drop 1

theorem SplitsAt.eq_append (splits : SplitsAt text position rest) :
    ∃ before, text = before ++ String.ofList rest ∧ before.rawEndPos = ⟨position⟩ := by
  obtain ⟨before, same, rfl⟩ := splits
  refine ⟨String.ofList before, ?_, ?_⟩
  · rw [← String.ofList_append, ← same, String.ofList_toList]
  · exact String.Pos.Raw.ext (utf8ByteSize_ofList before)

/-- No character has its bytes on both sides of the position. -/
theorem SplitsAt.isValid (splits : SplitsAt text position rest) :
    (⟨position⟩ : String.Pos.Raw).IsValid text := by
  obtain ⟨before, same, stop⟩ := splits.eq_append
  exact String.Pos.Raw.isValid_iff_exists_append.2 ⟨before, _, same, stop.symm⟩

/-- The cursor is at a position of the text, and what is left to it starts there. -/
def On (text : String) (cursor : Cursor) : Prop := SplitsAt text cursor.offset cursor.rest

theorem on_start (text : String) : (start text).On text := splitsAt_zero text

theorem On.advance {cursor : Cursor} (on : cursor.On text) (count : Nat) :
    (cursor.advance count).On text :=
  SplitsAt.drop on count

theorem On.scan {cursor : Cursor} (on : cursor.On text) : cursor.scan.2.On text := by
  have skipped : cursor.skipBlanks.On text := on.advance _
  unfold Cursor.scan
  dsimp only
  split
  next => exact skipped
  next => exact skipped.advance _

end Cursor

namespace Sliced

open Cursor

/-! ## A scanner that slices -/

/-- The characters from a byte on, if no character has its bytes on both sides of that position. -/
def charsFrom? (text : String) (position : Nat) : Option (List Char) :=
  if valid : (⟨position⟩ : String.Pos.Raw).IsValid text then
    some (text.sliceFrom (text.pos ⟨position⟩ valid)).copy.toList
  else none

/-- The next character, which stays where it is. -/
def peek (text : String) (position : Nat) : Option (Option Char) :=
  (charsFrom? text position).map List.head?

/-- The next character, and the position after it. -/
def bump (text : String) (position : Nat) : Option (Option Char × Nat) :=
  (peek text position).map fun next => (next, position + next.elim 0 Char.utf8Size)

section

variable {σ : Type}

/-- Takes characters for as long as they go on with what was taken, and gives the position after
them. -/
def takeRun (goesOn : σ → Char → Option σ) (text : String) :
    (fuel : Nat) → σ → Nat → Option (List Char × Nat)
  | 0, _, _ => none
  | fuel + 1, state, position => do
      match ← peek text position with
      | none => return ([], position)
      | some c =>
          match goesOn state c with
          | none => return ([], position)
          | some state =>
              let (taken, stop) ← takeRun goesOn text fuel state (position + c.utf8Size)
              return (c :: taken, stop)

end

/-- Characters of a class go on with each other. -/
def inClass (p : Char → Bool) (_ : Unit) (c : Char) : Option Unit := if p c then some () else none

/-- Digits go on with a number, and so does a point if there was none. -/
def inNumber (pointAllowed : Bool) (c : Char) : Option Bool :=
  if c.isDigit || (c == '.' && pointAllowed) then some (pointAllowed && c != '.') else none

/-- Takes the characters of a string up to its closing quote.  The result is what they mean, whether
there is a closing quote, and the position after it. -/
def takeQuoted (quote : Char) (text : String) :
    (fuel : Nat) → Nat → Option (List Char × Bool × Nat)
  | 0, _ => none
  | fuel + 1, position => do
      match ← bump text position with
      | (none, stop) => return ([], false, stop)
      | (some c, stop) =>
          if c = quote then return ([], true, stop)
          else if c = '\\' then
            match ← bump text stop with
            | (none, stop) => return ([], false, stop)
            | (some d, stop) =>
                let (value, closed, stop) ← takeQuoted quote text fuel stop
                return (unescaped d :: value, closed, stop)
          else
            let (value, closed, stop) ← takeQuoted quote text fuel stop
            return (c :: value, closed, stop)

/-- Takes the token that starts with a character, and gives the position after it. -/
def takeLexeme (text : String) (fuel : Nat) (first : Char) (position : Nat) :
    Option (Token × Nat) :=
  match Punctuation.ofChar? first with
  | some sign => some (.punctuation sign, position)
  | none =>
      if first = '\'' || first = '"' then do
        let (value, closed, stop) ← takeQuoted first text fuel position
        let value := String.ofList value
        return (if closed then .string value
          else .unreadable value (some .unterminatedString), stop)
      else if first = '-' || first.isDigit then do
        let (more, stop) ← takeRun inNumber text fuel true position
        return (if first = '-' && more.isEmpty then .unreadable "-" (some .missingDigits)
          else .number (String.ofList (first :: more)), stop)
      else if CharClass.startsName first then do
        let (more, stop) ← takeRun (inClass CharClass.continuesName) text fuel () position
        return (.name (String.ofList (first :: more)), stop)
      else some (.unreadable (String.ofList [first]) none, position)

/-- Takes the next token off a text from a byte on, and gives the position after it. -/
def scan (text : String) (position : Nat) : Option (PlacedToken × Nat) := do
  let fuel := text.toList.length + 1
  let (_, start) ← takeRun (inClass CharClass.isBlank) text fuel () position
  match ← bump text start with
  | (none, stop) => return (⟨.endOfText, start⟩, stop)
  | (some first, stop) => do
      let (token, stop) ← takeLexeme text fuel first stop
      return (⟨token, start⟩, stop)

/-! ## Every slice has a result -/

variable {text : String} {position : Nat} {rest : List Char}

theorem charsFrom?_eq (splits : SplitsAt text position rest) :
    charsFrom? text position = some rest := by
  obtain ⟨before, same, stop⟩ := splits.eq_append
  have parts : (text.pos ⟨position⟩ splits.isValid).Splits before (String.ofList rest) :=
    ⟨same, by rw [String.offset_pos, stop]⟩
  rw [charsFrom?, dif_pos splits.isValid, parts.copy_sliceFrom_eq, String.toList_ofList]

theorem peek_eq (splits : SplitsAt text position rest) : peek text position = some rest.head? := by
  rw [peek, charsFrom?_eq splits, Option.map_some]

theorem bump_nil (splits : SplitsAt text position []) :
    bump text position = some (none, position) := by
  rw [bump, peek_eq splits]
  rfl

theorem bump_cons {c : Char} (splits : SplitsAt text position (c :: rest)) :
    bump text position = some (some c, position + c.utf8Size) := by
  rw [bump, peek_eq splits]
  rfl

/-! ## What is taken -/

section

variable {σ : Type}

/-- The characters at the front of a text that go on with each other. -/
def run (goesOn : σ → Char → Option σ) : σ → List Char → List Char
  | _, [] => []
  | state, c :: rest =>
      match goesOn state c with
      | none => []
      | some state => c :: run goesOn state rest
termination_by structural _ text => text

theorem takeRun_eq (goesOn : σ → Char → Option σ) : ∀ (fuel : Nat) (state : σ) {position : Nat}
    {rest : List Char}, SplitsAt text position rest → rest.length < fuel →
    takeRun goesOn text fuel state position
      = some (run goesOn state rest, position + bytes (run goesOn state rest))
  | 0, _, _, _, _, enough => absurd enough (Nat.not_lt_zero _)
  | fuel + 1, state, position, [], splits, _ => by
    rw [takeRun, peek_eq splits]
    rfl
  | fuel + 1, state, position, c :: rest, splits, enough => by
    have enough : rest.length < fuel := Nat.lt_of_succ_lt_succ enough
    rw [takeRun, peek_eq splits, run]
    cases goes : goesOn state c with
    | none => simp [goes, bytes]
    | some later =>
      have more := takeRun_eq goesOn fuel later splits.tail enough
      simp [goes, more, bytes_cons, Nat.add_assoc]

end

theorem run_inClass (p : Char → Bool) (text : List Char) :
    run (inClass p) () text = text.takeWhile p := by
  induction text with
  | nil => rfl
  | cons c text ih =>
    rw [run, inClass, List.takeWhile_cons]
    cases p c with
    | true => exact congrArg (c :: ·) ih
    | false => rfl

theorem run_inNumber (pointAllowed : Bool) (text : List Char) :
    run inNumber pointAllowed text = digits pointAllowed text := by
  induction text generalizing pointAllowed with
  | nil => rfl
  | cons c text ih =>
    rw [run, inNumber, digits]
    by_cases goes : (c.isDigit || c == '.' && pointAllowed) = true
    · rw [if_pos goes, if_pos goes]
      exact congrArg (c :: ·) (ih _)
    · rw [if_neg goes, if_neg goes]

theorem takeQuoted_eq (quote : Char) : ∀ (fuel : Nat) {position : Nat} {rest : List Char},
    SplitsAt text position rest → rest.length < fuel →
    takeQuoted quote text fuel position
      = some ((quoted quote rest).value, (quoted quote rest).closed,
          position + bytes (rest.take (quoted quote rest).taken))
  | 0, _, _, _, enough => absurd enough (Nat.not_lt_zero _)
  | fuel + 1, position, [], splits, _ => by
    rw [takeQuoted, bump_nil splits]
    rfl
  | fuel + 1, position, c :: rest, splits, enough => by
    have enough : rest.length < fuel := Nat.lt_of_succ_lt_succ enough
    rw [takeQuoted, bump_cons splits]
    unfold quoted
    simp only [Option.bind_eq_bind, Option.bind_some]
    by_cases closes : c = quote
    · rw [if_pos closes, if_pos closes]
      rfl
    rw [if_neg closes, if_neg closes]
    by_cases escapes : c = '\\'
    · rw [if_pos escapes, if_pos escapes]
      cases rest with
      | nil =>
        rw [bump_nil splits.tail]
        rfl
      | cons d rest =>
        have more := takeQuoted_eq quote fuel splits.tail.tail (Nat.lt_of_succ_lt enough)
        rw [bump_cons splits.tail]
        simp only [Option.bind_some]
        rw [more]
        simp [QuotedText.preceded, bytes_cons, Nat.add_assoc]
    · have more := takeQuoted_eq quote fuel splits.tail enough
      rw [if_neg escapes, if_neg escapes, more]
      simp [QuotedText.preceded, bytes_cons, Nat.add_assoc]

theorem takeLexeme_eq {fuel : Nat} (splits : SplitsAt text position rest)
    (enough : rest.length < fuel) (first : Char) :
    takeLexeme text fuel first position
      = some ((lexeme first rest).token,
        position + bytes (rest.take (lexeme first rest).more)) := by
  have run {σ : Type} (goesOn : σ → Char → Option σ) (state : σ) :=
    takeRun_eq goesOn fuel state splits enough
  unfold takeLexeme lexeme
  cases Punctuation.ofChar? first with
  | some sign => rfl
  | none =>
    simp only [Option.bind_eq_bind]
    split
    next =>
      rw [takeQuoted_eq first fuel splits enough]
      rfl
    next =>
      split
      next =>
        rw [run, run_inNumber, Option.bind_some, numberLexeme]
        simp only
        split
        next alone =>
          rw [Bool.and_eq_true, List.isEmpty_iff] at alone
          rw [alone.2]
          rfl
        next =>
          rw [take_length_digits]
          rfl
      next =>
        split
        next =>
          rw [run, run_inClass, Option.bind_some, nameLexeme]
          simp only [take_length_takeWhile]
          rfl
        next => rfl

/-- A scanner that slices the text finds the token that comes next, and none of its slices starts
inside a character. -/
theorem scan_eq {cursor : Cursor} (on : cursor.On text) :
    scan text cursor.offset = some (cursor.scan.1, cursor.scan.2.offset) := by
  have enough {position : Nat} {rest : List Char} (splits : SplitsAt text position rest) :
      rest.length < text.toList.length + 1 := Nat.lt_succ_of_le splits.length_le
  have blanks : takeRun (inClass CharClass.isBlank) text (text.toList.length + 1) () cursor.offset
      = some (cursor.rest.takeWhile CharClass.isBlank, cursor.skipBlanks.offset) := by
    rw [takeRun_eq _ _ _ on (enough on), run_inClass, skipBlanks, Cursor.advance,
      take_length_takeWhile]
  have skipped : SplitsAt text cursor.skipBlanks.offset cursor.skipBlanks.rest := on.advance _
  rw [scan, blanks, Cursor.scan]
  simp only [Option.bind_eq_bind, Option.bind_some]
  cases left : cursor.skipBlanks.rest with
  | nil =>
    rw [left] at skipped
    rw [bump_nil skipped]
    rfl
  | cons first more =>
    rw [left] at skipped
    rw [bump_cons skipped, Option.bind_some]
    simp only
    rw [takeLexeme_eq skipped.tail (enough skipped.tail), Cursor.advance, left,
      List.take_succ_cons, bytes_cons, ← Nat.add_assoc]
    rfl

end Sliced

end ModelForms
