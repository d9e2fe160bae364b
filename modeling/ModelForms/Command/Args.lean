import ModelForms.Text.Pieces

/-!
# Command-line arguments

The command takes one document and a number of options.  An option has a long name, and some have a
letter as well.  Its value is the next word or is attached, as in `--root=User`, `-rUser` or
`-r=User`.  A word that starts with a hyphen is never taken as the value of the option before it.
After `--` every word is taken as it is.

An option is settled when the next one starts, when a word without an option comes, and at the end.
Only then is its value looked at, so a fault in a value is reported later than an unknown option
that follows it directly.
-/

namespace ModelForms

/-- What is printed. -/
inductive OutputFormat where
  /-- The form as a type. -/
  | ts
  /-- The form as JSON. -/
  | json
  /-- The type of the form's value. -/
  | value
deriving DecidableEq, Repr, Inhabited

namespace OutputFormat

/-- The name of a format. -/
def name : OutputFormat → String
  | .ts => "ts"
  | .json => "json"
  | .value => "value"

/-- The format with a name, where the case of ASCII letters does not count. -/
def ofName? (name : String) : Option OutputFormat :=
  [OutputFormat.ts, .json, .value].find? fun format =>
    format.name.toList == Text.lowerAscii name.toList

end OutputFormat

/-- The arguments of the command. -/
structure Args where
  document : String
  root : Option String
  mode : Option String
  hints : Option String
  format : Option OutputFormat
  project : Option String
  leaves : Option (List String)
  check : Option String
  pretty : Option Bool
deriving DecidableEq, Repr

/-- Why a command line is not run. -/
inductive UsageError where
  | missingDocument
  | unknownArgument
  /-- A value is missing or not acceptable. -/
  | invalidValue
  /-- An option that may be given once is given again. -/
  | conflict
  /-- A value is attached to an option that takes none. -/
  | needlessValue
  | help
  | version
deriving DecidableEq, Repr

/-- The exit code of a command line that is not run. -/
def UsageError.exitCode : UsageError → Nat
  | .help | .version => 0
  | _ => 2

/-- An option that takes a value. -/
inductive Setting where
  | root
  | mode
  | hints
  | format
  | project
  | leaves
  | check
  | pretty
deriving DecidableEq, Repr

namespace Setting

/-- Every option. -/
def all : List Setting := [.root, .mode, .hints, .format, .project, .leaves, .check, .pretty]

/-- The long name. -/
def name : Setting → String
  | .root => "root"
  | .mode => "mode"
  | .hints => "hints"
  | .format => "format"
  | .project => "project"
  | .leaves => "leaves"
  | .check => "check"
  | .pretty => "pretty"

/-- The letter, if there is one. -/
def letter? : Setting → Option Char
  | .root => some 'r'
  | .mode => some 'm'
  | .format => some 'f'
  | .project => some 'p'
  | _ => none

/-- The option with a long name. -/
def ofName? (name : List Char) : Option Setting :=
  all.find? fun setting => setting.name.toList == name

/-- The option with a letter. -/
def ofLetter? (c : Char) : Option Setting := all.find? fun setting => setting.letter? == some c

end Setting

namespace Args

/-- A word or option that is not settled yet. -/
inductive Pending where
  | nothing
  /-- The document. -/
  | document (word : String)
  /-- An option, and its value if that has come. -/
  | setting (setting : Setting) (value : Option String)
deriving DecidableEq, Repr

/-- The arguments settled so far. -/
structure State where
  /-- The arguments, where the document counts only if it is given. -/
  args : Args
  hasDocument : Bool
  pending : Pending
  /-- Whether every further word is taken as it is. -/
  wordsOnly : Bool
deriving Repr

/-- The state before the first word. -/
def State.start : State :=
  ⟨⟨"", none, none, none, none, none, none, none, none⟩, false, .nothing, false⟩

/-- A part of reading a command line. -/
abbrev Reading := StateT State (Except UsageError)

/-! ## Settling -/

/-- The value that an option was given once, unless it has one already. -/
def once {α : Type} (old : Option α) (value : Option α) : Except UsageError (Option α) :=
  if old.isSome then .error .conflict
  else match value with
    | some x => .ok (some x)
    | none => .error .invalidValue

/-- A text that is a path, which may not be empty. -/
def path? (text : String) : Option String := if text.isEmpty then none else some text

/-- A truth value, which must be written out. -/
def boolean? (text : String) : Option Bool :=
  if text = "true" then some true else if text = "false" then some false else none

/-- The arguments with an option set. -/
def set (args : Args) (setting : Setting) (value : String) : Except UsageError Args :=
  match setting with
  | .root => do return { args with root := ← once args.root (some value) }
  | .mode => do return { args with mode := ← once args.mode (some value) }
  | .hints => do return { args with hints := ← once args.hints (some value) }
  | .format => do return { args with format := ← once args.format (OutputFormat.ofName? value) }
  | .project => do return { args with project := ← once args.project (path? value) }
  | .check => do return { args with check := ← once args.check (path? value) }
  | .pretty => do return { args with pretty := ← once args.pretty (boolean? value) }
  | .leaves =>
      let items := (Text.pieces (· == ',') value.toList).map String.ofList
      .ok { args with leaves := some (args.leaves.getD [] ++ items) }

/-- Settles what is pending.  An option without a value is an error, but for the one that a missing
value turns on. -/
def settle : Reading Unit := do
  let state ← get
  match state.pending with
  | .nothing => return
  | .document word =>
      if word.isEmpty then throw .invalidValue
      StateT.set { state with
        args := { state.args with document := word }
        hasDocument := true
        pending := .nothing }
  | .setting setting value =>
      let value ← match value, setting with
        | some value, _ => pure value
        | none, .pretty => pure "true"
        | none, _ => throw .invalidValue
      StateT.set { state with args := ← state.args.set setting value, pending := .nothing }

/-- Settles what is pending and leaves something else pending. -/
def begin (pending : Pending) : Reading Unit := do
  settle
  modify fun state => { state with pending := pending }

/-- Settles an option that has its value attached. -/
def attach (setting : Setting) (value : String) : Reading Unit := do
  begin (.setting setting (some value))
  settle

/-! ## Words -/

/-- Reads an option with a long name, after its hyphens. -/
def longOption (text : List Char) : Reading Unit := do
  let name := text.takeWhile (· != '=')
  let attached := match text.dropWhile (· != '=') with
    | _ :: value => some (String.ofList value)
    | [] => none
  match Setting.ofName? name with
  | some setting =>
      match attached with
      | some value => attach setting value
      | none => begin (.setting setting none)
  | none =>
      if name = "help".toList || name = "version".toList then
        if attached.isSome then throw .needlessValue
        settle
        throw (if name = "help".toList then .help else .version)
      else throw .unknownArgument

/-- Reads an option with a letter, after its hyphen. -/
def letterOption (letter : Char) (text : List Char) : Reading Unit := do
  match Setting.ofLetter? letter with
  | some setting =>
      match text with
      | [] => begin (.setting setting none)
      | '=' :: value => attach setting (String.ofList value)
      | value => attach setting (String.ofList value)
  | none =>
      if letter = 'h' || letter = 'V' then
        settle
        throw (if letter = 'h' then .help else .version)
      else throw .unknownArgument

/-- Reads a word that is no option: the value that the option before it waits for, or else the
document. -/
def plainWord (word : String) : Reading Unit := do
  let state ← get
  match state.pending, state.wordsOnly with
  | .setting setting none, false =>
      StateT.set { state with pending := .setting setting (some word) }
  | .document _, _ => throw .unknownArgument
  | _, _ =>
      if state.hasDocument then throw .unknownArgument
      begin (.document word)

/-- Reads one word. -/
def word (text : String) : Reading Unit := do
  if (← get).wordsOnly then plainWord text
  else match text.toList with
    | '-' :: '-' :: [] => modify fun state => { state with wordsOnly := true }
    | '-' :: '-' :: option => longOption option
    | '-' :: letter :: rest => letterOption letter rest
    | _ => plainWord text

/-- Reads every word. -/
def allWords (words : List String) : Reading Unit := do
  words.forM word
  settle

/-- The arguments that a command line gives, or why it is not run. -/
def parse (words : List String) : Except UsageError Args := do
  let ((), state) ← (allWords words).run .start
  if state.hasDocument then return state.args else throw .missingDocument

example : ((parse ["m.json", "-rA", "--leaves", "B,,C"]).toOption.map Args.leaves)
    = some (some ["B", "", "C"]) := by decide +kernel
example : (parse ["m.json", "-r", "-x"]).toOption = none := by decide +kernel

end Args

end ModelForms
