import ModelForms.Document.Error
import ModelForms.Types.Composition

/-!
# From documents to types

Lowering turns every model of a document into a type.  All names are reserved before any model is
lowered, so a name stands for a reference and may come before the model that it names.  Composing a
model from others needs their properties, so the models that it is composed from are lowered first,
and a model that would be composed from itself is an error.

The walk through the values of a document is a recursion on the values.  It reaches other models
only through an argument that defines a model by name, and that definition is a recursion on the
number of models that may still be under way at the same time, which the guard of the walk bounds.
-/

namespace ModelForms

/-- The types lowered so far, the models of the document, and those of them that are under way.  The
catalog may hold more models than the document has. -/
structure LoweringState where
  catalog : Catalog
  /-- The models of the document with their handles, in order. -/
  declared : Entries ModelId
  underway : Guard ModelId

namespace LoweringState

/-- The state before anything is lowered into a catalog. -/
def upon (catalog : Catalog) : LoweringState := ⟨catalog, [], Guard.forWalk .aliases⟩

/-- The state before anything is lowered. -/
def start : LoweringState := upon ⟨.empty, .empty⟩

/-- The name that the document has for a handle. -/
def nameOf? (state : LoweringState) (definition : ModelId) : Option String :=
  (state.declared.find? fun model => model.2 = definition).map Prod.fst

end LoweringState

/-- A lowering that may fail.  The state is there also after a failure. -/
abbrev Lowering := ExceptT DocumentError (StateM LoweringState)

namespace Lowering

/-- Runs a computation on the type table. -/
def interning {α : Type} (action : Interning α) : Lowering α :=
  modifyGet fun state =>
    let (result, types) := action state.catalog.types
    (result, { state with catalog := { state.catalog with types := types } })

/-- Runs a lowering and gives its outcome, so that something can follow after a failure. -/
def attempt {α : Type} (action : Lowering α) : Lowering (Except DocumentError α) :=
  ExceptT.lift action.run

/-- The models that references refer to. -/
def models : Lowering Definitions := do return (← get).catalog.models

/-- Runs a composition, which fails where an operand is no object. -/
def composing (compose : Definitions → Interning (Option TypeId)) (failure : DocumentError) :
    Lowering TypeId := do
  match ← interning (compose (← models)) with
  | some id => return id
  | none => throw failure

/-- Reserves the name of a model. -/
def reserve (name : String) : Lowering ModelId := do
  interning (Interning.note name)
  modifyGet fun state =>
    let (definition, models) := state.catalog.models.reserve name
    (definition, { state with catalog := { state.catalog with models := models } })

/-- Sets the body of a model. -/
def define (definition : ModelId) (body : TypeId) : Lowering Unit :=
  modify fun state =>
    { state with
      catalog := { state.catalog with models := (state.catalog.models.define definition body).2 } }

/-- Sets the models of the document. -/
def declare (declared : Entries ModelId) : Lowering Unit :=
  modify fun state => { state with declared := declared }

/-! ## Type expressions -/

/-- Where a type expression stands, and what names mean there. -/
structure ExprSite where
  /-- The text of the whole expression. -/
  text : String
  location : Location
  /-- The leaf types of the document. -/
  leaves : Entries TypeId

/-- Fails because of a fault of the expression. -/
def ExprSite.fail {α : Type} (site : ExprSite) (fault : ExprFault) : Lowering α :=
  throw (.invalidExpression site.location site.text fault)

/-- The type that a name without arguments stands for: a model, or else a leaf. -/
def lookupName (site : ExprSite) (name : String) : Lowering TypeId := do
  match (← get).declared.lookup name with
  | some definition => interning (Interning.reference definition)
  | none =>
      match site.leaves.lookup name with
      | some id => return id
      | none => throw (.unknownName site.location name)

/-- Defines the models on the chain of aliases that starts at a type, given how a model is defined
by name.  `fuel` bounds the length of the chain; a model that comes again ends it. -/
def ensureChain (ensureModel : String → Lowering Unit) :
    (fuel : Nat) → (visited : List ModelId) → TypeId → Lowering Unit
  | 0, _, _ => return
  | fuel + 1, visited, id => do
      match (← get).catalog.types.referenced? id with
      | none => return
      | some definition =>
          if visited.contains definition then return
          if let some name := (← get).nameOf? definition then ensureModel name
          match (← models).body? definition with
          | some body => ensureChain ensureModel fuel (definition :: visited) body
          | none => return

/-- Makes sure that every model on the chain of aliases of an operand has a body. -/
def prepareOperand (ensureModel : String → Lowering Unit) (id : TypeId) : Lowering Unit := do
  ensureChain ensureModel ((← models).size + 1) [] id

/-- The keys of `Omit` and `Pick`: a string literal, a union of them, or `never`. -/
def keyNames (site : ExprSite) : TypeExpr → Lowering (List String)
  | .string key => do
      interning (Interning.note key)
      return [key]
  | .keyword .never => return []
  | .union members => members.mapM fun member => do
      match member with
      | .string key => do
          interning (Interning.note key)
          return key
      | _ => site.fail .keys
  | _ => site.fail .keys

/-- The number of arguments of a generic type. -/
def genericArity? (name : String) : Option Nat :=
  if name = "Array" || name = "Partial" then some 1
  else if name = "Omit" || name = "Pick" then some 2
  else none

/-- Fails because a name has arguments that do not suit it. -/
def refuseArguments {α : Type} (site : ExprSite) (name : String) (count : Nat) : Lowering α :=
  match genericArity? name with
  | some arity => site.fail (.argumentCount name arity count)
  | none => site.fail (.unknownGeneric name)

/-- `Partial` of an operand that is lowered. -/
def partialOf (site : ExprSite) (operand : TypeId) : Lowering TypeId :=
  composing (fun models => Interning.allOptional models operand)
    (.invalidExpression site.location site.text (.operand "Partial"))

/-- `Omit` or `Pick` of an operand that is lowered. -/
def selectionOf (site : ExprSite) (name : String) (operand : TypeId) (keys : List String) :
    Lowering TypeId :=
  composing
    (fun models =>
      if name = "Omit" then Interning.without models operand keys
      else Interning.only models operand keys)
    (.invalidExpression site.location site.text (.operand name))

/-- `&` of operands that are lowered. -/
def extensionOf (site : ExprSite) (base extra : TypeId) : Lowering TypeId :=
  composing (fun models => Interning.extend models base extra)
    (.invalidExpression site.location site.text .intersectionOperand)

mutual

/-- The type that an expression stands for. -/
def typeOfExpr (ensureModel : String → Lowering Unit) (site : ExprSite) :
    TypeExpr → Lowering TypeId
  | .keyword k => return TypeId.ofIntrinsic k
  | .string value => interning (Interning.literal (.string value))
  | .number value => interning (Interning.literal (.number value))
  | .boolean value => interning (Interning.literal (.boolean value))
  | .array element => do
      let element ← typeOfExpr ensureModel site element
      interning (Interning.array element)
  | .union members => do
      let members ← typesOfExprs ensureModel site members
      interning (Interning.union members)
  | .intersection members =>
      match members with
      | [] => site.fail .emptyIntersection
      | first :: rest => do
          let first ← typeOfExpr ensureModel site first
          prepareOperand ensureModel first
          intersectionOf ensureModel site first rest
  | .reference name args =>
      match args with
      | [] =>
          match genericArity? name with
          | some arity => site.fail (.argumentCount name arity 0)
          | none => lookupName site name
      | [operand] =>
          if name = "Array" then do
            let element ← typeOfExpr ensureModel site operand
            interning (Interning.array element)
          else if name = "Partial" then do
            let operand ← typeOfExpr ensureModel site operand
            prepareOperand ensureModel operand
            partialOf site operand
          else refuseArguments site name 1
      | [operand, keys] =>
          if name = "Omit" || name = "Pick" then do
            let operand ← typeOfExpr ensureModel site operand
            prepareOperand ensureModel operand
            selectionOf site name operand (← keyNames site keys)
          else refuseArguments site name 2
      | more => refuseArguments site name more.length
termination_by structural expr => expr

/-- The types that expressions stand for. -/
def typesOfExprs (ensureModel : String → Lowering Unit) (site : ExprSite) :
    List TypeExpr → Lowering (List TypeId)
  | [] => return []
  | expr :: rest => do
      let id ← typeOfExpr ensureModel site expr
      return id :: (← typesOfExprs ensureModel site rest)
termination_by structural exprs => exprs

/-- The type that the operands of `&` make with what the ones before them have made. -/
def intersectionOf (ensureModel : String → Lowering Unit) (site : ExprSite) (base : TypeId) :
    List TypeExpr → Lowering TypeId
  | [] => return base
  | expr :: rest => do
      let extra ← typeOfExpr ensureModel site expr
      prepareOperand ensureModel extra
      intersectionOf ensureModel site (← extensionOf site base extra) rest
termination_by structural exprs => exprs

end

/-! ## Values -/

/-- The type that the text of an expression stands for. -/
def typeOfText (ensureModel : String → Lowering Unit) (leaves : Entries TypeId)
    (location : Location) (text : String) : Lowering TypeId := do
  match TypeExpr.parse text with
  | .ok expr => typeOfExpr ensureModel ⟨text, location, leaves⟩ expr
  | .error error => throw (.invalidExpression location text (.parse error))

/-- The name of a property and whether its key marks it as one that may be absent. -/
def propertyLabel (key : String) : String × Bool :=
  match Text.beforeSuffix? ['?'] key.toList with
  | some name => (String.ofList name, true)
  | none => (key, false)

/-- Whether a key starts a directive. -/
def isDirective (key : String) : Bool := key.toList.head? = some '$'

mutual

/-- The type that a value of a document stands for: a text is a type expression, an object with a
directive as its only key follows the directive, and any other object lists properties. -/
def typeOfValue (ensureModel : String → Lowering Unit) (leaves : Entries TypeId)
    (location : Location) : Json → Lowering TypeId
  | .string text => typeOfText ensureModel leaves location text
  | .object members =>
      match members with
      | [(key, inner)] =>
          if isDirective key then
            if key = "$array" then do
              let element ← typeOfValue ensureModel leaves (location.child key) inner
              interning (Interning.array element)
            else if key = "$nullable" then do
              let id ← typeOfValue ensureModel leaves (location.child key) inner
              interning (Interning.nullable id)
            else if key = "$union" then do
              match inner with
              | .array items => do
                  let ids ← typesOfItems ensureModel leaves (location.child key) 0 items
                  interning (Interning.union ids)
              | _ => throw (.invalidEntry (location.child key) .unionMembers)
            else throw (.invalidEntry location (.unknownDirective key))
          else do
            let properties ← propertiesOfMembers ensureModel leaves location [] [(key, inner)]
            interning (Interning.object properties)
      | members => do
          let properties ← propertiesOfMembers ensureModel leaves location [] members
          interning (Interning.object properties)
  | .null => throw (.invalidEntry location (.notAnEntry .null))
  | .bool b => throw (.invalidEntry location (.notAnEntry (.bool b)))
  | .number n => throw (.invalidEntry location (.notAnEntry (.number n)))
  | .array items => throw (.invalidEntry location (.notAnEntry (.array items)))
termination_by structural value => value

/-- The types that the members of a union stand for. -/
def typesOfItems (ensureModel : String → Lowering Unit) (leaves : Entries TypeId)
    (location : Location) (index : Nat) : List Json → Lowering (List TypeId)
  | [] => return []
  | item :: rest => do
      let id ← typeOfValue ensureModel leaves (location.child (toString index)) item
      return id :: (← typesOfItems ensureModel leaves location (index + 1) rest)
termination_by structural items => items

/-- The properties that the members of an object list.  `seen` are the names that came before. -/
def propertiesOfMembers (ensureModel : String → Lowering Unit) (leaves : Entries TypeId)
    (location : Location) (seen : List String) :
    List (String × Json) → Lowering (List Property)
  | [] => return []
  | (key, value) :: rest => do
      let (name, optional) := propertyLabel key
      let here := location.child key
      if name.isEmpty then throw (.invalidEntry here .emptyPropertyName)
      if seen.contains name then throw (.invalidEntry here (.duplicateProperty name))
      let type ← typeOfValue ensureModel leaves here value
      let more ← propertiesOfMembers ensureModel leaves location (name :: seen) rest
      return ⟨name, type, optional⟩ :: more
termination_by structural members => members

end

/-! ## Models -/

/-- The place of a model in its document. -/
def modelLocation (name : String) : Location := (Location.root.child "models").child name

/-- Defines a model unless it has a body, given how models that it is composed from are defined.
The model stays under way until its value is lowered, whether that succeeds or not. -/
def ensureModelStep (values : Entries Json) (leaves : Entries TypeId)
    (defineOther : String → Lowering Unit) (name : String) : Lowering Unit := do
  match (← get).declared.lookup name, values.lookup name with
  | some definition, some value =>
      if (← models).isDefined definition then return
      let admission ← modifyGet fun state =>
        let (admission, underway) := state.underway.enter definition
        (admission, { state with underway := underway })
      match admission with
      | .entered => do
          let result ← attempt (typeOfValue defineOther leaves (modelLocation name) value)
          modify fun state => { state with underway := state.underway.leave definition }
          match result with
          | .ok body => define definition body
          | .error error => throw error
      | .cycle => throw (.circularComposition name)
      | .tooDeep | .tooMany => throw (.invalidEntry (modelLocation name) .composedTooDeeply)
  | _, _ => return

/-- Defines a model and the models that it is composed from, where `levels` more models may be under
way at the same time.  The guard allows no more, so what would be done where none are left does not
matter. -/
def ensureModel (values : Entries Json) (leaves : Entries TypeId) :
    (levels : Nat) → String → Lowering Unit
  | 0 => ensureModelStep values leaves fun _ => return
  | levels + 1 => ensureModelStep values leaves (ensureModel values leaves levels)

/-- Whether a name has a meaning in every document. -/
def isTaken (name : String) : Bool :=
  (Intrinsic.ofName? name).isSome || (genericArity? name).isSome || name = "true"
    || name = "false"

/-- Adds a leaf type, whose name must be new. -/
def addLeaf (leaves : Entries TypeId) (name : String) : Lowering (Entries TypeId) := do
  if isTaken name || leaves.hasKey name then throw (.duplicateModel name)
  let id ← interning (Interning.leaf name)
  return leaves.put name id

/-- Reserves the name of a model, which must be new. -/
def addModel (leaves : Entries TypeId) (name : String) : Lowering (String × ModelId) := do
  if isTaken name || leaves.hasKey name then throw (.duplicateModel name)
  return (name, ← reserve name)

/-- Refuses a model that is only a name for itself. -/
def checkModel (model : String × ModelId) : Lowering Unit := do
  let id ← interning (Interning.reference model.2)
  match (← get).catalog.resolve id with
  | .ok _ => return
  | .error _ => throw (.circularComposition model.1)

/-- Lowers leaves and models, and gives their handles in order.  All names have their handles before
any of them is looked up. -/
def lowerAll (document : Document) : Lowering (Entries ModelId × Entries TypeId) := do
  let leaves ← document.leaves.foldlM addLeaf []
  let models ← document.models.keys.mapM (addModel leaves)
  declare models
  document.models.keys.forM
    (ensureModel document.models leaves WalkKind.aliases.maxDepth)
  models.forM checkModel
  return (models, leaves)

end Lowering

/-! ## Lowered documents -/

/-- The types of a document and what it chooses. -/
structure Lowered where
  catalog : Catalog
  /-- The models in order. -/
  models : Entries ModelId
  /-- The leaf types in order. -/
  leaves : Entries TypeId
  hints : Hint
  mode : Option Mode
  root : Option String

namespace Document

/-- The types of a document, or the first reason why there are none. -/
def lower (document : Document) : Except DocumentError Lowered := do
  let (result, state) := (Lowering.lowerAll document).run.run LoweringState.start
  let (models, leaves) ← result
  let hints ← document.hint.mapError .invalidHint
  let mode ← document.modeChoice.mapError .mode
  return ⟨state.catalog, models, leaves, hints, mode, document.root⟩

/-- The types of the document that a text denotes. -/
def load (source : String) : Except DocumentError Lowered := do
  let document ← (parse source).mapError .invalidDocument
  document.lower

end Document

/-- The type of the root model, which is chosen by name. -/
def Lowered.rootModel (lowered : Lowered) (explicit : Option String) :
    Except DocumentError TypeId := do
  let name ← (Document.chooseRoot explicit lowered.root lowered.models.keys).mapError .missingRoot
  match lowered.models.lookup name with
  | some definition => return (Interning.reference definition lowered.catalog.types).1
  | none => throw (.unknownName (Location.root.child "root") name)

end ModelForms
