import ModelForms.Text.CharClass

/-!
# Tokens of type expressions

A type expression such as `Omit<User, 'id'> | null` is a sequence of tokens between blanks.
Scanning takes one token off the front of the text and remembers where it starts, counted in bytes
of UTF-8.  A character that starts no token, a string without its end and a lone minus sign are
tokens too, so scanning never fails and every text is scanned to its end.

`length_scan_lt` says that a token other than the last one takes at least one character off, which
is why `tokens` scans the whole text.
-/

namespace ModelForms

/-- The signs between types. -/
inductive Punctuation where
  | bar
  | ampersand
  | openBracket
  | closeBracket
  | less
  | greater
  | openParen
  | closeParen
  | comma
deriving DecidableEq, Repr

namespace Punctuation

/-- Every sign. -/
def all : List Punctuation :=
  [.bar, .ampersand, .openBracket, .closeBracket, .less, .greater, .openParen, .closeParen, .comma]

/-- The character of a sign. -/
def char : Punctuation → Char
  | .bar => '|'
  | .ampersand => '&'
  | .openBracket => '['
  | .closeBracket => ']'
  | .less => '<'
  | .greater => '>'
  | .openParen => '('
  | .closeParen => ')'
  | .comma => ','

/-- The sign of a character. -/
def ofChar? (c : Char) : Option Punctuation := all.find? (·.char == c)

/-- The sign as it stands in messages. -/
def text (p : Punctuation) : String := String.ofList ['\'', p.char, '\'']

end Punctuation

/-- Why a text that starts a token does not make one. -/
inductive TokenFault where
  | unterminatedString
  | missingDigits
deriving DecidableEq, Repr

/-- The text of the fault. -/
def TokenFault.message : TokenFault → String
  | .unterminatedString => "unterminated string literal"
  | .missingDigits => "expected digits after '-'"

/-- A token. -/
inductive Token where
  | name (text : String)
  /-- A string, with its escapes undone. -/
  | string (value : String)
  | number (text : String)
  | punctuation (sign : Punctuation)
  | endOfText
  /-- What cannot be a token, and why if there is a special reason. -/
  | unreadable (text : String) (fault : Option TokenFault)
deriving DecidableEq, Repr, Inhabited

namespace Token

/-- The kind of a token as it stands in messages. -/
def kindText : Token → String
  | .name _ => "identifier"
  | .string _ => "string literal"
  | .number _ => "number"
  | .punctuation sign => sign.text
  | .endOfText => "end of input"
  | .unreadable _ _ => "unknown token"

/-- The text that a token carries. -/
def value : Token → String
  | .name text => text
  | .string value => value
  | .number text => text
  | .unreadable text _ => text
  | .punctuation _ | .endOfText => ""

/-- Why a token cannot be read. -/
def fault? : Token → Option TokenFault
  | .unreadable _ fault => fault
  | _ => none

end Token

/-- A token and the byte at which it starts. -/
structure PlacedToken where
  token : Token
  start : Nat
deriving DecidableEq, Repr, Inhabited

/-- A position in a text: how many bytes lie before it, and the characters after it. -/
structure Cursor where
  offset : Nat
  rest : List Char
deriving DecidableEq, Repr

namespace Cursor

/-- The start of a text. -/
def start (text : String) : Cursor := ⟨0, text.toList⟩

/-- The number of bytes of some characters. -/
def bytes (text : List Char) : Nat := text.foldr (fun c n => c.utf8Size + n) 0

/-- The position after the next `count` characters. -/
def advance (count : Nat) (cursor : Cursor) : Cursor :=
  ⟨cursor.offset + bytes (cursor.rest.take count), cursor.rest.drop count⟩

/-! ## The tokens of several characters -/

/-- A token, and how many characters it takes after its first one. -/
structure Lexeme where
  token : Token
  more : Nat
deriving DecidableEq, Repr

/-- What follows an opening quote: the characters that are meant, how many are taken for them and
the closing quote, and whether there is a closing quote. -/
structure QuotedText where
  value : List Char
  taken : Nat
  closed : Bool
deriving DecidableEq, Repr

/-- The same text with one character before it that takes `count` characters. -/
def QuotedText.preceded (c : Char) (count : Nat) (text : QuotedText) : QuotedText :=
  ⟨c :: text.value, text.taken + count, text.closed⟩

/-- The character that a backslash and a character stand for: a line end or a tab for the letters
`n` and `t`, and each other character for itself. -/
def unescaped (c : Char) : Char := if c = 'n' then '\n' else if c = 't' then '\t' else c

/-- The characters of a string up to its closing quote. -/
def quoted (quote : Char) : List Char → QuotedText
  | [] => ⟨[], 0, false⟩
  | c :: rest =>
      if c = quote then ⟨[], 1, true⟩
      else if c = '\\' then
        match rest with
        | [] => ⟨[], 1, false⟩
        | d :: rest => (quoted quote rest).preceded (unescaped d) 2
      else (quoted quote rest).preceded c 1
termination_by structural text => text

/-- The string after an opening quote. -/
def stringLexeme (quote : Char) (text : List Char) : Lexeme :=
  let found := quoted quote text
  let value := String.ofList found.value
  ⟨if found.closed then .string value else .unreadable value (some .unterminatedString), found.taken⟩

/-- The digits at the front of a text, with at most one point among them. -/
def digits (pointAllowed : Bool) : List Char → List Char
  | [] => []
  | c :: rest =>
      if c.isDigit || (c == '.' && pointAllowed) then c :: digits (pointAllowed && c != '.') rest
      else []
termination_by structural text => text

/-- The number that starts with a minus sign or a digit. -/
def numberLexeme (first : Char) (text : List Char) : Lexeme :=
  let more := digits true text
  if first = '-' && more.isEmpty then ⟨.unreadable "-" (some .missingDigits), 0⟩
  else ⟨.number (String.ofList (first :: more)), more.length⟩

/-- The name that starts with a character. -/
def nameLexeme (first : Char) (text : List Char) : Lexeme :=
  let more := text.takeWhile CharClass.continuesName
  ⟨.name (String.ofList (first :: more)), more.length⟩

/-- The token that starts with a character. -/
def lexeme (first : Char) (text : List Char) : Lexeme :=
  match Punctuation.ofChar? first with
  | some sign => ⟨.punctuation sign, 0⟩
  | none =>
      if first = '\'' || first = '"' then stringLexeme first text
      else if first = '-' || first.isDigit then numberLexeme first text
      else if CharClass.startsName first then nameLexeme first text
      else ⟨.unreadable (String.ofList [first]) none, 0⟩

/-! ## Scanning -/

/-- The position after the blanks that come next. -/
def skipBlanks (cursor : Cursor) : Cursor :=
  cursor.advance (cursor.rest.takeWhile CharClass.isBlank).length

/-- Takes the next token off a text. -/
def scan (cursor : Cursor) : PlacedToken × Cursor :=
  let cursor := cursor.skipBlanks
  match cursor.rest with
  | [] => (⟨.endOfText, cursor.offset⟩, cursor)
  | first :: text =>
      let found := lexeme first text
      (⟨found.token, cursor.offset⟩, cursor.advance (found.more + 1))

/-- The tokens of a text, at most `fuel` of them. -/
def scanMany : (fuel : Nat) → Cursor → List PlacedToken
  | 0, _ => []
  | fuel + 1, cursor =>
      let (found, cursor) := cursor.scan
      if found.token = .endOfText then [found] else found :: scanMany fuel cursor

/-- The tokens of a text up to its end. -/
def tokens (text : String) : List PlacedToken := scanMany (text.toList.length + 1) (start text)

/-! ## Progress -/

theorem length_advance (count : Nat) (cursor : Cursor) :
    (cursor.advance count).rest.length = cursor.rest.length - count := by
  simp [advance]

/-- Scanning a token takes at least one character off a text that has not ended. -/
theorem length_scan_lt {cursor : Cursor} (h : cursor.scan.1.token ≠ .endOfText) :
    cursor.scan.2.rest.length < cursor.rest.length := by
  have hskip : cursor.skipBlanks.rest.length ≤ cursor.rest.length := by
    simp [skipBlanks, length_advance]
  unfold scan at h ⊢
  dsimp only at h ⊢
  split
  · simp_all
  · rename_i htext
    simp only [length_advance]
    simp only [htext, List.length_cons] at hskip ⊢
    omega

example : (tokens "a|'b'").map PlacedToken.start = [0, 1, 2, 5] := by decide +kernel

example : (tokens "'\\n").map PlacedToken.start = [0, 3] := by decide +kernel

end Cursor

end ModelForms
