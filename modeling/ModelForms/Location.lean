import ModelForms.Json.Basic
import ModelForms.Text.Pieces

/-!
# Positions in a JSON document

A location names a value inside a document by the keys on the way to it, where an element of an
array counts as the key of its index.  It is written as a JSON pointer: each key after a slash,
with `~0` for a tilde and `~1` for a slash inside a key.

`Json.resolve?` follows the written form, so a location can be held against the document it is
about.
-/

namespace ModelForms

/-- A place in a document. -/
structure Location where
  /-- The written form of the place that the keys start from. -/
  base : String
  /-- The keys from there on. -/
  keys : List String
deriving DecidableEq, Repr, Inhabited

namespace Location

/-- The place of the whole document. -/
def root : Location := ⟨"", []⟩

/-- The place of a member or element. -/
def child (location : Location) (key : String) : Location :=
  { location with keys := location.keys ++ [key] }

/-- A character of a key as it is written. -/
def escapedChar (c : Char) : List Char :=
  if c = '~' then ['~', '0'] else if c = '/' then ['~', '1'] else [c]

/-- A key as it is written, after its slash. -/
def keyChars (key : String) : List Char := '/' :: key.toList.flatMap escapedChar

/-- The written form. -/
def text (location : Location) : String :=
  String.ofList (location.base.toList ++ location.keys.flatMap keyChars)

/-! ## Reading -/

/-- A written key with its escapes undone, unless a tilde starts none. -/
def unescape? : List Char → Option (List Char)
  | '~' :: '1' :: rest => (unescape? rest).map ('/' :: ·)
  | '~' :: '0' :: rest => (unescape? rest).map ('~' :: ·)
  | '~' :: _ => none
  | c :: rest => (unescape? rest).map (c :: ·)
  | [] => some []

/-- The keys of a pointer.  A pointer is empty or starts with a slash. -/
def keysOf? (pointer : String) : Option (List String) :=
  match Text.pieces (· == '/') pointer.toList with
  | [] :: more => more.mapM fun piece => (unescape? piece).map String.ofList
  | _ => none

/-- The index that a key spells in digits, without a zero in front of others. -/
def index? (key : String) : Option Nat :=
  match key.toList with
  | '0' :: _ :: _ => none
  | digits => Text.natOfDigits? digits

/-- Undoing the escapes of a key gives the key back. -/
theorem unescape?_escaped (key : List Char) : unescape? (key.flatMap escapedChar) = some key := by
  induction key with
  | nil => simp [unescape?]
  | cons c rest ih =>
    simp only [List.flatMap_cons, escapedChar]
    split
    next tilde => simp [unescape?, ih, tilde]
    next noTilde =>
      split
      next slash => simp [unescape?, ih, slash]
      next =>
        rw [List.singleton_append, unescape?, ih, Option.map_some]
        all_goals simp_all

end Location

namespace Json

/-- The value at a sequence of keys. -/
def at? : List String → Json → Option Json
  | [], value => some value
  | key :: rest, .object members => (members.lookup key).bind (at? rest)
  | key :: rest, .array items =>
      ((Location.index? key).bind fun index => items[index]?).bind (at? rest)
  | _ :: _, _ => none
termination_by structural keys => keys

/-- The value that a written pointer leads to. -/
def resolve? (pointer : String) (value : Json) : Option Json :=
  (Location.keysOf? pointer).bind fun keys => value.at? keys

end Json

end ModelForms
