import ModelForms.Json.Basic

/-!
# Reading JSON

A reader consumes characters from the front of a text and gives a value or the first error in
reading order.  Objects keep their members in order, and a repeated key keeps its place and takes
its last value.  At most `nestingLimit` arrays and objects may stand inside each other.

A number without point and exponent that fits 64 bits is an integer.  Any other number is a double:
its digits are collected into an integer as long as 64 bits hold them, and the integer is multiplied
or divided by a power of ten, with one rounding for each of these steps.

Recursion goes along the levels of nesting that are still allowed.  The loops over elements, members
and characters count down a number of steps that the length of the text bounds.
-/

namespace ModelForms

/-- What a text holds where something else was expected. -/
inductive JsonFound where
  | null
  | bool (value : Bool)
  | number (value : JsonNumber)
  | string (value : String)
  | sequence
  | map
deriving DecidableEq, Repr

/-- Why a text cannot be read. -/
inductive JsonError where
  | endOfValue
  | endOfList
  | endOfObject
  | endOfString
  | expectedColon
  | expectedListCommaOrEnd
  | expectedObjectCommaOrEnd
  | expectedValue
  | expectedWord
  | keyMustBeString
  | trailingComma
  | trailingCharacters
  | invalidNumber
  | numberOutOfRange
  | invalidEscape
  | unpairedEscape
  | loneSurrogate
  | controlCharacter
  | nestedTooDeeply
  /-- The value is of another kind than the one expected. -/
  | wrongKind (found : JsonFound) (expected : String)
  /-- The record has no field of that name; the names that it has follow. -/
  | unknownField (name : String) (fields : List String)
  | duplicateField (name : String)
  /-- The value fits none of the forms of the named choice. -/
  | noVariant (choice : String)
  /-- A text that is not the name of a truth value. -/
  | invalidBoolean (text : String)
deriving DecidableEq, Repr

/-- A reader of a value from the front of a text. -/
abbrev Reader := StateT (List Char) (Except JsonError)

namespace Reader

/-- The number of arrays and objects that may stand inside each other. -/
def nestingLimit : Nat := 127

/-! ## Characters -/

/-- The four characters that may stand between tokens. -/
def isGap (c : Char) : Bool := c == ' ' || c == '\n' || c == '\t' || c == '\r'

/-- The next character after a gap, which stays in the text. -/
def peek? : Reader (Option Char) := fun text =>
  let rest := text.dropWhile isGap
  .ok (rest.head?, rest)

/-- Consumes one character. -/
def advance : Reader Unit := modify List.tail

/-- Consumes the given letters and nothing else. -/
def word : List Char → Reader Unit
  | [] => pure ()
  | c :: more => do
      match ← get with
      | [] => throw .endOfValue
      | d :: rest =>
          set rest
          if c = d then word more else throw .expectedWord

/-! ## Numbers -/

/-- The value of a decimal digit. -/
def digitValue (c : Char) : Nat := c.toNat - '0'.toNat

/-- What became of digits that were added to an integer of at most 64 bits. -/
structure Digits where
  /-- The integer with the digits that fit. -/
  value : Nat
  /-- The number of digits that fit. -/
  count : Nat
  /-- The text from the first character that is not a digit or does not fit. -/
  rest : List Char
deriving DecidableEq, Repr

/-- Appends digits to an integer as long as it stays below `2 ^ 64`. -/
def appendDigits (value count : Nat) : List Char → Digits
  | [] => ⟨value, count, []⟩
  | c :: rest =>
      if c.isDigit && 10 * value + digitValue c < 1 <<< 64 then
        appendDigits (10 * value + digitValue c) (count + 1) rest
      else ⟨value, count, c :: rest⟩
termination_by structural text => text

/-- `value * 10 ^ exponent`, with one rounding for each power of ten of at most 308, given how many
such steps may be taken. -/
def scale : (fuel : Nat) → (value : Double) → (exponent : Int) → Except JsonError Double
  | 0, value, _ => .ok value
  | fuel + 1, value, exponent =>
      if exponent.natAbs ≤ 308 then
        let power := Double.ofInt (Nat.pow 10 exponent.natAbs)
        if 0 ≤ exponent then
          let product := value.mul power
          if product.isInfinite then .error .numberOutOfRange else .ok product
        else .ok (value.div power)
      else if value.isZero then .ok value
      else if 0 ≤ exponent then .error .numberOutOfRange
      else scale fuel (value.div (Double.ofInt (Nat.pow 10 308))) (exponent + 308)

/-- The double `significand * 10 ^ exponent`.  Four divisions bring every significand to zero. -/
def scaled (negative : Bool) (significand : Nat) (exponent : Int) : Reader JsonNumber := do
  let value ← scale 5 (Double.ofInt significand) exponent
  return .float (if negative then value.neg else value)

/-- Reads an exponent after its letter. -/
def exponentPart (negative : Bool) (significand : Nat) (start : Int) : Reader JsonNumber := do
  let text ← get
  let (down, text) := match text with
    | '+' :: rest => (false, rest)
    | '-' :: rest => (true, rest)
    | rest => (false, rest)
  match text with
  | [] => throw .endOfValue
  | c :: _ =>
      if !c.isDigit then throw .invalidNumber
      let exponent := (text.takeWhile Char.isDigit).foldl (fun n c => 10 * n + digitValue c) 0
      set (text.dropWhile Char.isDigit)
      scaled negative significand (if down then start - exponent else start + exponent)

/-- Reads the rest of a number whose digits before and after the point are read. -/
def afterDigits (negative : Bool) (significand : Nat) (exponent : Int) : Reader JsonNumber := do
  match ← get with
  | 'e' :: rest | 'E' :: rest => do
      set rest
      exponentPart negative significand exponent
  | _ => scaled negative significand exponent

/-- Reads the digits after a point.  Digits that no longer fit are ignored. -/
def fraction (negative : Bool) (significand : Nat) (exponent : Int) : Reader JsonNumber := do
  let digits := appendDigits significand 0 (← get)
  if digits.count = 0 && !(digits.rest.head?.any Char.isDigit) then
    throw (if digits.rest.isEmpty then .endOfValue else .invalidNumber)
  set (digits.rest.dropWhile Char.isDigit)
  afterDigits negative digits.value (exponent - digits.count)

/-- Reads the rest of a number whose digits before the point all fit. -/
def afterInteger (negative : Bool) (significand : Nat) : Reader JsonNumber := do
  match ← get with
  | '.' :: rest => do
      set rest
      fraction negative significand 0
  | 'e' :: rest | 'E' :: rest => do
      set rest
      exponentPart negative significand 0
  | _ =>
      if !negative then return .int significand
      -- Zero has a sign only as a double, and the integers end at `-2 ^ 63`.
      else if significand = 0 || 1 <<< 63 < significand then
        return .float (Double.ofInt significand).neg
      else return .int (-(significand : Int))

/-- Reads a number after its sign. -/
def number (negative : Bool) : Reader JsonNumber := do
  match ← get with
  | [] => throw .endOfValue
  | '0' :: rest => do
      if rest.head?.any Char.isDigit then throw .invalidNumber
      set rest
      afterInteger negative 0
  | c :: rest => do
      if !c.isDigit then throw .invalidNumber
      let digits := appendDigits (digitValue c) 1 rest
      if digits.rest.head?.any Char.isDigit then
        -- The digits that do not fit only count as powers of ten.
        let more := digits.rest.takeWhile Char.isDigit
        match digits.rest.dropWhile Char.isDigit with
        | '.' :: rest => do
            set rest
            fraction negative digits.value more.length
        | rest => do
            set rest
            afterDigits negative digits.value more.length
      else do
        set digits.rest
        afterInteger negative digits.value

/-! ## Strings -/

/-- The value of a hexadecimal digit. -/
def hexValue? (c : Char) : Option Nat :=
  if c.isDigit then some (c.toNat - '0'.toNat)
  else if 'a' ≤ c && c ≤ 'f' then some (c.toNat - 'a'.toNat + 10)
  else if 'A' ≤ c && c ≤ 'F' then some (c.toNat - 'A'.toNat + 10)
  else none

/-- Reads four hexadecimal digits.  A text of fewer than four bytes has ended too early. -/
def hexFour : Reader Nat := do
  let text ← get
  match text with
  | a :: b :: c :: d :: rest =>
      match hexValue? a, hexValue? b, hexValue? c, hexValue? d with
      | some a, some b, some c, some d =>
          set rest
          return ((a * 16 + b) * 16 + c) * 16 + d
      | _, _, _, _ => throw .invalidEscape
  | short =>
      if (String.ofList short).utf8ByteSize < 4 then throw .endOfString else throw .invalidEscape

/-- Reads one given character of the second half of a pair of escapes. -/
def pairCharacter (expected : Char) : Reader Unit := do
  match ← get with
  | [] => throw .endOfString
  | c :: rest => do
      if c ≠ expected then throw .unpairedEscape
      set rest

/-- Reads the character that stands for an escape, after its backslash. -/
def escape : Reader Char := do
  match ← get with
  | [] => throw .endOfString
  | c :: rest => do
      set rest
      match c with
      | '"' | '\\' | '/' => return c
      | 'b' => return Char.ofNat 8
      | 'f' => return Char.ofNat 12
      | 'n' => return '\n'
      | 'r' => return '\r'
      | 't' => return '\t'
      | 'u' => do
          let high ← hexFour
          if 0xDC00 ≤ high && high ≤ 0xDFFF then throw .loneSurrogate
          if high < 0xD800 || 0xDBFF < high then return Char.ofNat high
          pairCharacter '\\'
          pairCharacter 'u'
          let low ← hexFour
          if low < 0xDC00 || 0xDFFF < low then throw .loneSurrogate
          return Char.ofNat (0x10000 + (high - 0xD800) * 0x400 + (low - 0xDC00))
      | _ => throw .invalidEscape

/-- Reads a string after its first quote, one character a step, onto the characters already read. -/
def stringBody : (fuel : Nat) → (read : List Char) → Reader String
  | 0, _ => throw .endOfString
  | fuel + 1, read => do
      match ← get with
      | [] => throw .endOfString
      | c :: rest => do
          set rest
          if c = '"' then return String.ofList read.reverse
          else if c = '\\' then stringBody fuel ((← escape) :: read)
          else if c.toNat < 32 then throw .controlCharacter
          else stringBody fuel (c :: read)

/-- Reads a string after its first quote. -/
def stringRest : Reader String := do
  stringBody ((← get).length + 1) []

/-! ## Arrays and objects -/

/-- Goes to the next element of an array and says whether there is one. -/
def toElement (first : Bool) : Reader Bool := do
  match ← peek? with
  | none => throw .endOfList
  | some ']' => return false
  | some ',' => do
      if first then return true
      advance
      match ← peek? with
      | none => throw .endOfValue
      | some ']' => throw .trailingComma
      | some _ => return true
  | some _ => if first then return true else throw .expectedListCommaOrEnd

/-- Goes to the next key of an object and says whether there is one. -/
def toKey (first : Bool) : Reader Bool := do
  match ← peek? with
  | none => throw .endOfObject
  | some '\x7d' => return false
  | some ',' => do
      if first then throw .keyMustBeString
      advance
      match ← peek? with
      | none => throw .endOfValue
      | some '"' => return true
      | some '\x7d' => throw .trailingComma
      | some _ => throw .keyMustBeString
  | some '"' => if first then return true else throw .expectedObjectCommaOrEnd
  | some _ => throw (if first then .keyMustBeString else .expectedObjectCommaOrEnd)

/-- Reads a key, whose first quote is the next character. -/
def key : Reader String := do
  advance
  stringRest

/-- Reads the colon between a key and its value. -/
def colon : Reader Unit := do
  match ← peek? with
  | none => throw .endOfObject
  | some ':' => advance
  | some _ => throw .expectedColon

/-- Reads the end of an array of which no more elements are wanted. -/
def endList : Reader Unit := do
  match ← peek? with
  | none => throw .endOfList
  | some ']' => advance
  | some ',' => do
      advance
      match ← peek? with
      | some ']' => throw .trailingComma
      | _ => throw .trailingCharacters
  | some _ => throw .trailingCharacters

/-- Reads the elements of an array up to its end, which stays in the text. -/
def elements {α : Type} (element : Reader α) :
    (fuel : Nat) → (first : Bool) → Reader (List α)
  | 0, _ => throw .endOfList
  | fuel + 1, first => do
      if ← toElement first then
        let x ← element
        return x :: (← elements element fuel false)
      else return []

/-- Reads the members of an object up to its end, which stays in the text. -/
def members {α : Type} (value : Reader α) :
    (fuel : Nat) → (first : Bool) → Reader (List (String × α))
  | 0, _ => throw .endOfObject
  | fuel + 1, first => do
      if ← toKey first then
        let name ← key
        colon
        let x ← value
        return (name, x) :: (← members value fuel false)
      else return []

/-- Reads an array after its bracket. -/
def list {α : Type} (element : Reader α) : Reader (List α) := do
  let items ← elements element ((← get).length + 1) true
  endList
  return items

/-- Reads an object after its brace. -/
def map {α : Type} (value : Reader α) : Reader (Entries α) := do
  let pairs ← members value ((← get).length + 1) true
  advance
  return Entries.collect pairs

/-- Reads a value, given how an array and an object are read from their brackets on. -/
def valueWith (array object : Reader Json) : Reader Json := do
  match ← peek? with
  | none => throw .endOfValue
  | some 'n' => do advance; word ['u', 'l', 'l']; return .null
  | some 't' => do advance; word ['r', 'u', 'e']; return .bool true
  | some 'f' => do advance; word ['a', 'l', 's', 'e']; return .bool false
  | some '"' => do advance; return .string (← stringRest)
  | some '[' => array
  | some '\x7b' => object
  | some '-' => do advance; return .number (← number true)
  | some c => if c.isDigit then return .number (← number false) else throw .expectedValue

/-- Reads a value inside which `levels` arrays and objects may stand inside each other. -/
def value : (levels : Nat) → Reader Json
  | 0 => valueWith (throw .nestedTooDeeply) (throw .nestedTooDeeply)
  | levels + 1 =>
      valueWith (do advance; return .array (← list (value levels)))
        (do advance; return .object (← map (value levels)))

/-- Reads what one reader reads and then the end of the text. -/
def whole {α : Type} (reader : Reader α) (text : String) : Except JsonError α := do
  let (result, rest) ← reader.run text.toList
  if (rest.dropWhile isGap).isEmpty then return result else throw .trailingCharacters

end Reader

/-- The value that a text denotes. -/
def Json.parse (text : String) : Except JsonError Json :=
  Reader.whole (Reader.value Reader.nestingLimit) text

end ModelForms
