import ModelForms.Diagnostic
import ModelForms.Text.CharClass

/-!
# Modes

A mode decides two things about a property, and it decides them independently: whether the value of
its control may be null, and whether the entry in its group may be absent.  Each decision follows
one rule: always, never, or as the model declares it.

A mode is written as a set of flags.

| flags | value nullable | entry optional |
|---|---|---|
| none | always | never |
| `Nullable` / `NonNullable` | always / never | never |
| `Optional` / `Required` | always | always / never |
| `FromModel` | declared | declared |
| `FromModel`, `Nullable` | declared | declared |
| `FromModel`, `NonNullable` | never | declared |
| `FromModel`, `Optional` | declared | declared |
| `FromModel`, `Required` | declared | never |

Flags that answer one question differently cannot be combined.
-/

namespace ModelForms

/-- A flag of a mode. -/
inductive ModeFlag where
  | fromModel
  | nonNullable
  | nullable
  | required
  | optional
deriving DecidableEq, Repr

/-- Why a text is no mode. -/
inductive ModeError where
  /-- Two flags that contradict each other. -/
  | conflictingFlags (first second : String)
  /-- A word that is no flag. -/
  | unknownFlag (word : String)
deriving DecidableEq, Repr

namespace ModeError

/-- The text of the error. -/
def message : ModeError → String
  | .conflictingFlags first second =>
      "mode flags '" ++ first ++ "' and '" ++ second ++ "' cannot be combined"
  | .unknownFlag word => "unknown mode flag '" ++ word ++ "'"

/-- The error as a diagnostic. -/
def diagnostic : ModeError → Diagnostic
  | .conflictingFlags first second => .about "" .conflictingModeFlags [first, second]
  | .unknownFlag word => .about "" .unknownModeFlag [word]

end ModeError

namespace ModeFlag

/-- Every flag, in the order of their bits. -/
def all : List ModeFlag := [.fromModel, .nonNullable, .nullable, .required, .optional]

/-- The flag as a word without case and separators. -/
def word : ModeFlag → String
  | .fromModel => "frommodel"
  | .nonNullable => "nonnullable"
  | .nullable => "nullable"
  | .required => "required"
  | .optional => "optional"

/-- The flag as a power of two. -/
def bit : ModeFlag → Nat
  | .fromModel => 1
  | .nonNullable => 2
  | .nullable => 4
  | .required => 8
  | .optional => 16

/-- The word that may stand before a flag. -/
def family : List Char := "InferMode".toList

/-- A text without any number of repetitions of the family word at its start. -/
def dropFamily : (fuel : Nat) → List Char → List Char
  | 0, text => text
  | fuel + 1, text =>
      match Text.afterStart? family text with
      | some rest => dropFamily fuel rest
      | none => text

/-- A spelling of a flag without blanks at its ends, the family word, hyphens, underscores and case.
Only letters of ASCII are put into lower case: no other letter becomes a letter of a flag. -/
def normalize (spelling : List Char) : List Char :=
  let text := Text.trim CharClass.isBlank spelling
  Text.lowerAscii ((dropFamily text.length text).filter fun c => c != '-' && c != '_')

/-- The flag with a spelling. -/
def parse? (spelling : String) : Option ModeFlag :=
  all.find? fun flag => flag.word.toList == normalize spelling.toList

end ModeFlag

/-- A set of flags. -/
structure ModeFlags where
  /-- The flags of the set. -/
  has : ModeFlag → Bool

namespace ModeFlags

/-- The set of no flags. -/
def none : ModeFlags := ⟨fun _ => false⟩

/-- The set with one more flag. -/
def insert (flag : ModeFlag) (flags : ModeFlags) : ModeFlags :=
  ⟨fun other => other = flag || flags.has other⟩

/-- The set as a sum of powers of two. -/
def bits (flags : ModeFlags) : Nat :=
  ModeFlag.all.foldr (fun flag n => (if flags.has flag then flag.bit else 0) + n) 0

/-- The flags whose power of two occurs in a number. -/
def ofBits (n : Nat) : ModeFlags := ⟨fun flag => n / flag.bit % 2 = 1⟩

/-- Whether a character separates flags. -/
def isSeparator (c : Char) : Bool := c == '&' || c == '|' || c == ',' || CharClass.isBlank c

/-- The set of the flags that a list of words names, up to the first word that is no flag. -/
def ofWords (words : List String) : Except ModeError ModeFlags :=
  words.foldlM (fun flags word =>
    match ModeFlag.parse? word with
    | some flag => .ok (flags.insert flag)
    | .none => .error (.unknownFlag word)) none

/-- The set that an expression such as `FromModel & NonNullable` denotes. -/
def parse (text : String) : Except ModeError ModeFlags :=
  ofWords ((Text.nonemptyPieces isSeparator text.toList).map String.ofList)

end ModeFlags

/-- A rule for one of the two decisions. -/
inductive ModifierRule where
  | always
  | never
  /-- As the model declares it. -/
  | declared
deriving DecidableEq, Repr

namespace ModifierRule

/-- What a rule decides, given what the model declares. -/
def decide (rule : ModifierRule) (declared : Bool) : Bool :=
  match rule with
  | .always => true
  | .never => false
  | .declared => declared

/-- The text of a rule. -/
def text : ModifierRule → String
  | .always => "always"
  | .never => "never"
  | .declared => "from-model"

/-- The rule that the flags for one decision ask for: the strict flag wins, then the model, then the
permissive flag. -/
def ofFlags (fromModel permissive strict : Bool) (fallback : ModifierRule) : ModifierRule :=
  if strict then .never
  else if fromModel then .declared
  else if permissive then .always
  else fallback

end ModifierRule

/-- A rule for each of the two decisions. -/
structure Mode where
  /-- Whether the value of a control may be null. -/
  nullable : ModifierRule
  /-- Whether an entry of a group may be absent. -/
  optional : ModifierRule
deriving DecidableEq, Repr

namespace Mode

/-- The mode of no flags. -/
def standard : Mode := ⟨.always, .never⟩

instance : Inhabited Mode := ⟨standard⟩

/-- The mode that a set of flags asks for. -/
def ofFlags (flags : ModeFlags) : Except ModeError Mode :=
  if flags.has .nullable && flags.has .nonNullable then
    .error (.conflictingFlags "Nullable" "NonNullable")
  else if flags.has .required && flags.has .optional then
    .error (.conflictingFlags "Required" "Optional")
  else
    .ok {
      nullable := .ofFlags (flags.has .fromModel) (flags.has .nullable) (flags.has .nonNullable)
        .always
      optional := .ofFlags (flags.has .fromModel) (flags.has .optional) (flags.has .required)
        .never }

/-- The mode that an expression denotes. -/
def parse (text : String) : Except ModeError Mode := do
  ofFlags (← ModeFlags.parse text)

/-- The text of a mode. -/
def text (mode : Mode) : String :=
  "nullable: " ++ mode.nullable.text ++ ", optional: " ++ mode.optional.text

example : (ModeFlag.parse? "InferMode_from-MODEL") = some .fromModel := by decide +kernel
example : (parse "FromModel & NonNullable").toOption = some ⟨.never, .declared⟩ := by
  decide +kernel
example : (parse "Optional,Required").toOption = none := by decide +kernel

end Mode

end ModelForms
