import ModelForms.Command.Args
import ModelForms.Command.Config
import ModelForms.Files.Basic
import ModelForms.Files.Path

/-!
# Options of a run

The options of a run come from the command line first and from the configuration of the project
second.  What neither of them says is left to the document.  Leaf types are the exception: those of
the command line are added to those of the configuration.

The configuration is the one that the command line names, as a file or as the directory of one.
Otherwise it is the one nearest to the document in the directories that the document lies in.
-/

namespace ModelForms

/-- Why a run cannot start. -/
inductive RunError where
  /-- The directory named as that of a project has no configuration. -/
  | noConfigIn (path : String)
  | noConfigAt (path : String)
  | unreadableConfig (path : String) (fault : ReadFault)
  | invalidConfig (path : String) (error : JsonError)
  /-- The configuration names a format that does not exist. -/
  | unknownFormat (name : String)
  | invalidHintsText (error : JsonError)
  | unreadableHints (path : String) (fault : ReadFault)
  | invalidHintsFile (path : String) (error : JsonError)
  | unreadableDocument (path : String) (fault : ReadFault)
  | unreadableValue (path : String) (fault : ReadFault)
  | invalidValue (path : String) (error : JsonError)
deriving DecidableEq, Repr

/-- The text of an error. -/
def RunError.message : RunError → String
  | .noConfigIn path => "no " ++ Config.fileName ++ " found in " ++ path
  | .noConfigAt path => "project config not found: " ++ path
  | .unreadableConfig path fault =>
      "failed to read project config: " ++ path ++ ": " ++ fault.message
  | .invalidConfig path error => "in " ++ path ++ ": " ++ Config.message error
  | .unknownFormat name => "unknown output format '" ++ name ++ "' in project config"
  | .invalidHintsText error => "failed to parse --hints JSON: " ++ error.message
  | .unreadableHints path fault => "failed to read hints file: " ++ path ++ ": " ++ fault.message
  | .invalidHintsFile path error =>
      "failed to parse hints file: " ++ path ++ ": " ++ error.message
  | .unreadableDocument path fault =>
      "failed to read model document: " ++ path ++ ": " ++ fault.message
  | .unreadableValue path fault => "failed to read value: " ++ path ++ ": " ++ fault.message
  | .invalidValue path error => "failed to parse value: " ++ path ++ ": " ++ error.message

/-- A part of a run over files. -/
abbrev Running (m : Type → Type) := ExceptT RunError m

/-- The options of a run. -/
structure Options where
  root : Option String
  mode : Option String
  hints : Option Json
  format : OutputFormat
  /-- Leaf types that the document need not declare. -/
  leaves : List String
  pretty : Option Bool
  /-- The path of the configuration that was used. -/
  configPath : Option String
deriving Repr

namespace Options

variable {m : Type → Type} [Monad m]

/-- Goes on with a result, or fails because of the error that it is. -/
def orFail {ε α : Type} (failure : ε → RunError) (result : Except ε α) : Running m α :=
  match result with
  | .ok value => return value
  | .error error => throw (failure error)

/-- Reads a file that must be there. -/
def readOr (read : ReadFile m) (path : String) (failure : ReadFault → RunError) :
    Running m String := do
  orFail failure (← ExceptT.lift (read path))

/-! ## Configuration -/

/-- The path of the configuration that the command line names. -/
def namedConfig (read : ReadFile m) (path : String) : Running m String := do
  if ← ExceptT.lift (read.isDirectory path) then
    let inside := FilePath.join path Config.fileName
    if ← ExceptT.lift (read.isFile inside) then return inside else throw (.noConfigIn path)
  else if ← ExceptT.lift (read.isFile path) then return path
  else throw (.noConfigAt path)

/-- The path of the configuration nearest to a document. -/
def nearestConfig? (read : ReadFile m) (document : String) : m (Option String) :=
  read.firstFile? ((FilePath.above document).map (FilePath.join · Config.fileName))

/-- The path of the configuration, if there is one. -/
def configPath? (read : ReadFile m) (directory : String) (args : Args) :
    Running m (Option String) := do
  match args.project with
  | some project => return some (← namedConfig read (FilePath.join directory project))
  | none => ExceptT.lift (nearestConfig? read (FilePath.join directory args.document))

/-- The configuration at a path. -/
def config (read : ReadFile m) (path : Option String) : Running m Config := do
  match path with
  | none => return .empty
  | some path =>
      let source ← readOr read path (.unreadableConfig path)
      orFail (.invalidConfig path) (Config.parse source)

/-! ## Choices -/

/-- The output format.  That of the configuration must exist only if it is needed. -/
def chooseFormat (chosen : Option OutputFormat) (configured : Option String) :
    Except RunError OutputFormat :=
  match chosen, configured with
  | some format, _ => .ok format
  | none, some name =>
      match OutputFormat.ofName? name with
      | some format => .ok format
      | none => .error (.unknownFormat name)
  | none, none => .ok .ts

/-- Whether hints on the command line are JSON, and not the path of a file. -/
def isHintsText (text : List Char) : Bool :=
  match Text.dropStart CharClass.isBlank text with
  | '\x7b' :: _ | '[' :: _ | '"' :: _ => true
  | rest => rest == "null".toList

/-- The hints on the command line. -/
def readHints (read : ReadFile m) (directory text : String) : Running m Json := do
  if isHintsText text.toList then
    orFail .invalidHintsText (Json.parse text)
  else
    let path := FilePath.join directory text
    let source ← readOr read path (.unreadableHints path)
    orFail (.invalidHintsFile path) (Json.parse source)

/-- Names with further names added, where a name that is there already is not added again. -/
def addNew (names more : List String) : List String :=
  more.foldl (fun names name => if names.contains name then names else names ++ [name]) names

/-- The options of a run that starts in a directory. -/
def resolve (read : ReadFile m) (directory : String) (args : Args) : Running m Options := do
  let path ← configPath? read directory args
  let config ← config read path
  let format ← chooseFormat args.format config.format
  let hints ← match args.hints with
    | some text => some <$> readHints read directory text
    | none => pure config.hints
  return {
    root := args.root.or config.root
    mode := args.mode.or config.mode
    hints := hints
    format := format
    leaves := addNew (config.leaves.getD []) (args.leaves.getD [])
    pretty := args.pretty.or config.pretty
    configPath := path }

end Options

end ModelForms
