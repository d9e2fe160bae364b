import ModelForms.Number.Shortest
import ModelForms.Text.CharClass
import ModelForms.Text.Quoted
import ModelForms.Types.Nullability

/-!
# Types as terms

An id stands for a structure, and `TypeTable.term` unfolds that structure into a term: the entry of
the id with the terms of the ids in it.  References are not followed.  Every id that an entry
mentions was given out before the entry, so unfolding ends after at most as many steps as the table
has entries.

A term is written the way types are written in a model: members of an object between braces, `[]`
after the elements of an array, bars between the members of a union, where `null` and `undefined`
come last.
-/

namespace ModelForms

/-- The structure that an id stands for. -/
inductive TypeTerm where
  /-- An id that was never given out. -/
  | stray (id : TypeId)
  | intrinsic (k : Intrinsic)
  | literal (value : Literal)
  | leaf (name : String)
  /-- Properties in order: the name, whether it may be absent, and the type. -/
  | object (properties : List ((String × Bool) × TypeTerm))
  | array (element : TypeTerm)
  | union (members : List TypeTerm)
  | reference (definition : ModelId)
deriving Repr, Inhabited

namespace TypeTable

/-- The structure of a type, unfolded at most `depth` times. -/
def termWithin (table : TypeTable) : (depth : Nat) → TypeId → TypeTerm
  | 0, id => .stray id
  | depth + 1, id =>
      match table.lookup id with
      | none => .stray id
      | some (.intrinsic k) => .intrinsic k
      | some (.literal value) => .literal value
      | some (.leaf name) => .leaf name
      | some (.object properties) =>
          .object (properties.map fun p => ((p.name, p.optional), table.termWithin depth p.type))
      | some (.array element) => .array (table.termWithin depth element)
      | some (.union members) => .union (members.map (table.termWithin depth))
      | some (.reference definition) => .reference definition

/-- The structure of a type. -/
def term (table : TypeTable) (id : TypeId) : TypeTerm := table.termWithin (table.size + 1) id

end TypeTable

namespace TypeTerm

/-! ## Writing -/

/-- The name of a property as it is written: bare if it is a name, else quoted. -/
def nameChars (name : String) : List Char :=
  if CharClass.isName name then name.toList else Quoted.encode name.toList

/-- A literal as it is written. -/
def literalChars : Literal → List Char
  | .string value => Quoted.encode value.toList
  | .number value => value.plainText.toList
  | .boolean value => if value then "true".toList else "false".toList

/-- A reference as it is written: the name of the model, if it is known. -/
def referenceChars (nameOf : ModelId → Option String) (definition : ModelId) : List Char :=
  match nameOf definition with
  | some name => name.toList
  | none => "Lazy(".toList ++ Nat.toDigits 10 definition.index ++ [')']

/-- Texts with a separator before each but the first. -/
def separated (separator : List Char) : List (List Char) → List Char
  | [] => []
  | [text] => text
  | text :: rest => text ++ separator ++ separated separator rest

/-- Whether a term is a union. -/
def isUnion : TypeTerm → Bool
  | .union _ => true
  | _ => false

/-- Whether a term is the given intrinsic type. -/
def isIntrinsic (k : Intrinsic) : TypeTerm → Bool
  | .intrinsic other => other = k
  | _ => false

/-- The members of a union in the order in which they are written: `null` and then `undefined` come
after the others.  Each member comes with its text. -/
def nullishLast (members : List (TypeTerm × List Char)) : List (List Char) :=
  let isNull (m : TypeTerm × List Char) := m.1.isIntrinsic .null
  let isUndefined (m : TypeTerm × List Char) := m.1.isIntrinsic .undefined
  (members.filter (fun m => !isNull m && !isUndefined m) ++ members.filter isNull
    ++ members.filter isUndefined).map Prod.snd

mutual

/-- The characters of a term. -/
def chars (nameOf : ModelId → Option String) : TypeTerm → List Char
  | .stray id => "Type(".toList ++ Nat.toDigits 10 id.index ++ [')']
  | .intrinsic k => k.name.toList
  | .literal value => literalChars value
  | .leaf name => name.toList
  | .object properties =>
      if properties.isEmpty then ['\x7b', '\x7d']
      else '\x7b' :: ' ' :: (separated [';', ' '] (propertyChars nameOf properties) ++ [' ', '\x7d'])
  | .array element =>
      if element.isUnion then '(' :: (chars nameOf element ++ [')', '[', ']'])
      else chars nameOf element ++ ['[', ']']
  | .union members => separated [' ', '|', ' '] (nullishLast (memberChars nameOf members))
  | .reference definition => referenceChars nameOf definition
termination_by structural term => term

/-- The characters of each property. -/
def propertyChars (nameOf : ModelId → Option String) :
    List ((String × Bool) × TypeTerm) → List (List Char)
  | [] => []
  | (label, type) :: rest =>
      (nameChars label.1 ++ (if label.2 then ['?'] else []) ++ ':' :: ' ' :: chars nameOf type)
        :: propertyChars nameOf rest
termination_by structural properties => properties

/-- The members of a union, each with its characters. -/
def memberChars (nameOf : ModelId → Option String) : List TypeTerm → List (TypeTerm × List Char)
  | [] => []
  | m :: rest => (m, chars nameOf m) :: memberChars nameOf rest
termination_by structural members => members

end

/-- The text of a term. -/
def text (nameOf : ModelId → Option String) (term : TypeTerm) : String :=
  String.ofList (term.chars nameOf)

end TypeTerm

namespace TypeTable

/-- The text of a type that does not know the names of models. -/
def bareText (table : TypeTable) (id : TypeId) : String := (table.term id).text fun _ => none

end TypeTable

namespace Catalog

/-- The text of a type. -/
def typeText (catalog : Catalog) (id : TypeId) : String :=
  (catalog.types.term id).text catalog.models.name?

end Catalog

end ModelForms
