import ModelForms.Bounds.Limits
import ModelForms.Expr.Basic
import ModelForms.Expr.Token
import ModelForms.Number.Decimal

/-!
# Parsing type expressions

```text
type         := ['|'] intersection ('|' intersection)*
intersection := postfix ('&' postfix)*
postfix      := primary ('[' ']')*
primary      := '(' type ')'
              | name ['<' type (',' type)* '>']
              | string | number | 'true' | 'false'
```

A name that is an intrinsic type, `true` or `false` takes no arguments.  A chain of one member is
that member, and parentheses leave no trace.  At most `Limits.expressionDepth` types may stand
inside each other.

Parsing goes along the tokens.  It is a recursion on the number of types that may still stand
inside each other, and each rule takes the parser of the types inside as an argument.  The loops
count down the tokens that are left.
-/

namespace ModelForms

/-- What the grammar allows at a place. -/
inductive Expected where
  | type
  | endOfText
  | sign (sign : Punctuation)
deriving DecidableEq, Repr

/-- The text of what is expected. -/
def Expected.text : Expected → String
  | .type => "a type"
  | .endOfText => "end of input"
  | .sign p => p.text

/-- Why a text is no type expression. -/
inductive ParseFault where
  /-- The token is not what the grammar allows at its place. -/
  | unexpected (expected : Expected) (found : Token)
  /-- The digits of a number are missing. -/
  | invalidNumber (text : String)
  /-- Too many types stand inside each other. -/
  | nestedTooDeeply
deriving DecidableEq, Repr

namespace ParseFault

/-- A token as it stands in messages. -/
def describe : Token → String
  | .name text => "'" ++ text ++ "'"
  | .unreadable text _ => "'" ++ text ++ "'"
  | token => token.kindText

/-- The text of the fault.  A token that cannot be read for a special reason is reported with that
reason. -/
def message : ParseFault → String
  | .unexpected expected found =>
      match found.fault? with
      | some fault => fault.message
      | none => "expected " ++ expected.text ++ ", found " ++ describe found
  | .invalidNumber text => "invalid number '" ++ text ++ "'"
  | .nestedTooDeeply =>
      "type expression nested deeper than " ++ toString Limits.expressionDepth

end ParseFault

/-- Why a text is no type expression, and the byte at which that shows. -/
structure ParseError where
  fault : ParseFault
  position : Nat
deriving DecidableEq, Repr

/-- The text of the error with its position. -/
def ParseError.text (error : ParseError) : String :=
  error.fault.message ++ " at offset " ++ toString error.position

/-- A parser along the tokens that are left.  The last of them is the end of the text. -/
abbrev TokenParser := StateT (List PlacedToken) (Except ParseError)

namespace TokenParser

/-- The next token, which stays where it is. -/
def current : TokenParser PlacedToken := fun tokens => .ok (tokens.head?.getD ⟨.endOfText, 0⟩, tokens)

/-- Goes on to the next token. -/
def advance : TokenParser Unit := modify List.tail

/-- Fails at the next token. -/
def fail {α : Type} (fault : ParseFault) : TokenParser α := do
  throw ⟨fault, (← current).start⟩

/-- Fails because the next token is not what is expected. -/
def unexpected {α : Type} (expected : Expected) : TokenParser α := do
  fail (.unexpected expected (← current).token)

/-- Consumes a sign if it comes next, and says whether it did. -/
def accept (sign : Punctuation) : TokenParser Bool := do
  if (← current).token = .punctuation sign then
    advance
    return true
  else return false

/-- Consumes a sign, which must come next. -/
def expect (sign : Punctuation) : TokenParser Unit := do
  unless ← accept sign do unexpected (.sign sign)

/-- The items after a first one, each after a sign. -/
def itemsAfter {α : Type} (sign : Punctuation) (item : TokenParser α) :
    (fuel : Nat) → TokenParser (List α)
  | 0 => return []
  | fuel + 1 => do
      if ← accept sign then
        let x ← item
        return x :: (← itemsAfter sign item fuel)
      else return []

/-- One or more items with a sign between each two. -/
def items {α : Type} (sign : Punctuation) (item : TokenParser α) : TokenParser (List α) := do
  let x ← item
  return x :: (← itemsAfter sign item (← get).length)

/-! ## The rules -/

/-- The arguments of a name. -/
def arguments (type : TokenParser TypeExpr) : TokenParser (List TypeExpr) := do
  if ← accept .less then
    let args ← items .comma type
    expect .greater
    return args
  else return []

/-- What a name denotes, after the name. -/
def named (type : TokenParser TypeExpr) (name : String) : TokenParser TypeExpr := do
  if name = "true" then return .boolean true
  else if name = "false" then return .boolean false
  else match Intrinsic.ofName? name with
    | some k => return .keyword k
    | none => return .reference name (← arguments type)

/-- A type without signs around it. -/
def primary (type : TokenParser TypeExpr) : TokenParser TypeExpr := do
  match (← current).token with
  | .punctuation .openParen => do
      advance
      let inner ← type
      expect .closeParen
      return inner
  | .string value => do
      advance
      return .string value
  | .number text =>
      match Double.ofDecimal? text.toList with
      | some value => do
          advance
          return .number value
      | none => fail (.invalidNumber text)
  | .name text => do
      advance
      named type text
  | _ => unexpected .type

/-- A type with the pairs of brackets that follow it. -/
def brackets : (fuel : Nat) → TypeExpr → TokenParser TypeExpr
  | 0, expr => return expr
  | fuel + 1, expr => do
      if ← accept .openBracket then
        expect .closeBracket
        brackets fuel (.array expr)
      else return expr

/-- A type that brackets may follow. -/
def bracketed (type : TokenParser TypeExpr) : TokenParser TypeExpr := do
  let expr ← primary type
  brackets (← get).length expr

/-- A chain, which is its member if it has only one. -/
def chain (make : List TypeExpr → TypeExpr) (sign : Punctuation) (item : TokenParser TypeExpr) :
    TokenParser TypeExpr := do
  match ← items sign item with
  | [member] => return member
  | members => return make members

/-- A chain of types between ampersands. -/
def intersection (type : TokenParser TypeExpr) : TokenParser TypeExpr :=
  chain .intersection .ampersand (bracketed type)

/-- A chain of types between bars, where one bar may come first. -/
def union (type : TokenParser TypeExpr) : TokenParser TypeExpr := do
  let _ ← accept .bar
  chain .union .bar (intersection type)

/-- A type, where `levels` types may stand inside each other, this one included. -/
def type : (levels : Nat) → TokenParser TypeExpr
  | 0 => fail .nestedTooDeeply
  | levels + 1 => union (type levels)

/-- A type and the end of the text. -/
def whole : TokenParser TypeExpr := do
  let expr ← type Limits.expressionDepth
  unless (← current).token = .endOfText do unexpected .endOfText
  return expr

end TokenParser

/-- The type expression that a text denotes. -/
def TypeExpr.parse (text : String) : Except ParseError TypeExpr :=
  (TokenParser.whole.run (Cursor.tokens text)).map Prod.fst

end ModelForms
