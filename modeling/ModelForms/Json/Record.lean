import ModelForms.Json.Reader

/-!
# Reading records

A record is an object with known fields.  It may also be written as an array of its fields in the
order of their declaration, where fields at the end may be missing.  No field may come twice.  A
field that the record does not have is an error or is passed over, as the record chooses.

The readers here go through the text in order and stop at the first value of the wrong kind, before
they look at what comes after it.
-/

namespace ModelForms

namespace Reader

/-! ## Values of a certain kind -/

/-- Fails because the next value, which has started, is of another kind than the one expected.  A
scalar is read to its end first, so that a fault in it comes first. -/
def wrongKind {α : Type} (expected : String) : Reader α := do
  match ← peek? with
  | some 'n' => do advance; word ['u', 'l', 'l']; throw (.wrongKind .null expected)
  | some 't' => do advance; word ['r', 'u', 'e']; throw (.wrongKind (.bool true) expected)
  | some 'f' => do advance; word ['a', 'l', 's', 'e']; throw (.wrongKind (.bool false) expected)
  | some '"' => do advance; throw (.wrongKind (.string (← stringRest)) expected)
  | some '[' => throw (.wrongKind .sequence expected)
  | some '\x7b' => throw (.wrongKind .map expected)
  | some '-' => do advance; throw (.wrongKind (.number (← number true)) expected)
  | some c =>
      if c.isDigit then throw (.wrongKind (.number (← number false)) expected)
      else throw .expectedValue
  | none => throw .endOfValue

/-- Reads a string. -/
def text : Reader String := do
  match ← peek? with
  | none => throw .endOfValue
  | some '"' => do advance; stringRest
  | some _ => wrongKind "a string"

/-- Reads a list of strings. -/
def texts : Reader (List String) := do
  match ← peek? with
  | none => throw .endOfValue
  | some '[' => do advance; list text
  | some _ => wrongKind "a sequence"

/-- Reads an object whose values may hold `levels` arrays and objects inside each other. -/
def valueMap (levels : Nat) : Reader (Entries Json) := do
  match ← peek? with
  | none => throw .endOfValue
  | some '\x7b' => do advance; map (value levels)
  | some _ => wrongKind "a map"

/-- Reads `null` for nothing, or else something. -/
def optional {α : Type} (reader : Reader α) : Reader (Option α) := do
  match ← peek? with
  | some 'n' => do advance; word ['u', 'l', 'l']; return none
  | _ => return some (← reader)

/-! ## Passing over values -/

/-- An array or object that is open while values are passed over. -/
inductive Bracket where
  | list
  | object
deriving DecidableEq, Repr

/-- Passes over the digits at the front of the text. -/
def skipDigits : Reader Unit := modify fun text => text.dropWhile Char.isDigit

/-- Passes over one digit, which must come next. -/
def skipDigit : Reader Unit := do
  if (← get).head?.any Char.isDigit then advance else throw .invalidNumber

/-- Passes over the exponent of a number, if there is one. -/
def skipExponent : Reader Unit := do
  match ← get with
  | 'e' :: rest | 'E' :: rest => do
      set (match rest with
        | '+' :: more => more
        | '-' :: more => more
        | more => more)
      skipDigit
      skipDigits
  | _ => return

/-- Passes over a number after its sign.  Its size does not matter. -/
def skipNumber : Reader Unit := do
  match ← get with
  | '0' :: rest => do
      if rest.head?.any Char.isDigit then throw .invalidNumber
      set rest
  | _ => do
      skipDigit
      skipDigits
  match ← get with
  | '.' :: rest => do
      set rest
      skipDigit
      skipDigits
      skipExponent
  | _ => skipExponent

/-- Passes over an escape after its backslash.  It need not denote a character. -/
def skipEscape : Reader Unit := do
  match ← get with
  | [] => throw .endOfString
  | c :: rest => do
      set rest
      match c with
      | '"' | '\\' | '/' | 'b' | 'f' | 'n' | 'r' | 't' => return
      | 'u' => let _ ← hexFour
      | _ => throw .invalidEscape

/-- Passes over a string after its first quote, one character a step. -/
def skipString : (fuel : Nat) → Reader Unit
  | 0 => throw .endOfString
  | fuel + 1 => do
      match ← get with
      | [] => throw .endOfString
      | c :: rest => do
          set rest
          if c = '"' then return
          else if c = '\\' then do
            skipEscape
            skipString fuel
          else if c.toNat < 32 then throw .controlCharacter
          else skipString fuel

/-- Passes over a string after its first quote. -/
def skipStringRest : Reader Unit := do
  skipString ((← get).length + 1)

/-- Passes over a scalar and says whether there was one: what opens instead is an array or object.
-/
def skipScalar : Reader (Option Bracket) := do
  match ← peek? with
  | none => throw .endOfValue
  | some 'n' => do advance; word ['u', 'l', 'l']; return none
  | some 't' => do advance; word ['r', 'u', 'e']; return none
  | some 'f' => do advance; word ['a', 'l', 's', 'e']; return none
  | some '"' => do advance; skipStringRest; return none
  | some '[' => do advance; return some .list
  | some '\x7b' => do advance; return some .object
  | some '-' => do advance; skipNumber; return none
  | some c => do
      if !c.isDigit then throw .expectedValue
      skipNumber
      return none

/-- Passes over a key and its colon where the innermost open bracket is that of an object. -/
def skipKey : Bracket → Reader Unit
  | .list => return
  | .object => do
      match ← peek? with
      | none => throw .endOfObject
      | some '"' => do
          advance
          skipStringRest
          colon
      | some _ => throw .keyMustBeString

/-- Closes brackets from the innermost on until a further value must come, and gives the brackets
that are open then.  `afterValue` says whether a value has just ended. -/
def closeBrackets (afterValue : Bool) : List Bracket → Reader (List Bracket)
  | [] => return []
  | bracket :: outer => do
      match ← peek?, bracket with
      | some ']', .list => do advance; closeBrackets true outer
      | some '\x7d', .object => do advance; closeBrackets true outer
      | some ',', _ => do
          if afterValue then advance
          return bracket :: outer
      | some _, _ =>
          if !afterValue then return bracket :: outer
          else match bracket with
            | .list => throw .expectedListCommaOrEnd
            | .object => throw .expectedObjectCommaOrEnd
      | none, .list => throw .endOfList
      | none, .object => throw .endOfObject
termination_by structural brackets => brackets

/-- Passes over values until every open bracket is closed.  Arrays and objects may stand inside each
other without a bound. -/
def skipValues : (fuel : Nat) → List Bracket → Reader Unit
  | 0, _ => throw .endOfValue
  | fuel + 1, brackets => do
      let left ← match ← skipScalar with
        | some bracket => closeBrackets false (bracket :: brackets)
        | none => closeBrackets true brackets
      match left with
      | [] => return
      | bracket :: _ => do
          skipKey bracket
          skipValues fuel left

/-- Passes over one value. -/
def skipValue : Reader Unit := do
  skipValues ((← get).length + 1) []

/-! ## Records -/

/-- Reads the fields of a record that is written as an array. -/
def recordItems {σ : Type} (field : String → σ → Reader σ) :
    (fields : List String) → (first : Bool) → σ → Reader σ
  | [], _, record => return record
  | name :: rest, first, record => do
      if ← toElement first then
        recordItems field rest false (← field name record)
      else return record

/-- Reads the fields of a record that is written as an object, up to its end. -/
def recordMembers {σ : Type} (fields : List String) (strict : Bool)
    (field : String → σ → Reader σ) :
    (fuel : Nat) → (seen : List String) → (first : Bool) → σ → Reader σ
  | 0, _, _, _ => throw .endOfObject
  | fuel + 1, seen, first, record => do
      if ← toKey first then
        let name ← key
        if fields.contains name then
          if seen.contains name then throw (.duplicateField name)
          colon
          let record ← field name record
          recordMembers fields strict field fuel (name :: seen) false record
        else if strict then throw (.unknownField name fields)
        else do
          colon
          skipValue
          recordMembers fields strict field fuel seen false record
      else return record

/-- Reads a record.  Each field that is there changes the record by `field`; a field that the record
does not have is an error if the record is `strict`. -/
def record {σ : Type} (name : String) (fields : List String) (strict : Bool)
    (field : String → σ → Reader σ) (start : σ) : Reader σ := do
  match ← peek? with
  | none => throw .endOfValue
  | some '[' => do
      advance
      let result ← recordItems field fields true start
      endList
      return result
  | some '\x7b' => do
      advance
      let result ← recordMembers fields strict field ((← get).length + 1) [] true start
      advance
      return result
  | some _ => wrongKind name

end Reader

end ModelForms
