import ModelForms.Proofs.Document.LoweringDocuments
import ModelForms.Proofs.Json.Reading

/-!
# Where errors of documents are

An error about a value of a document carries a location, and the value that the error rejects stands
there (`Document.exists_rejected_of_lower`).  What an error rejects is said fault by fault
(`Document.Rejects`), so an error with the location of another value does not satisfy it.

The induction is the one of the lowering.  A part of a value is lowered with the location that leads
to it, and a model that a composition demands with its own.
-/

namespace ModelForms

/-! ## Faults of expressions -/

/-- The parts of an expression, and the whole of it. -/
inductive TypeExpr.HasPart (whole : TypeExpr) : TypeExpr → Prop
  | whole : HasPart whole whole
  | element {element : TypeExpr} (part : HasPart whole (.array element)) : HasPart whole element
  | member {members : List TypeExpr} {member : TypeExpr} (part : HasPart whole (.union members))
      (mem : member ∈ members) : HasPart whole member
  | operand {members : List TypeExpr} {member : TypeExpr}
      (part : HasPart whole (.intersection members)) (mem : member ∈ members) :
      HasPart whole member
  | argument {name : String} {args : List TypeExpr} {arg : TypeExpr}
      (part : HasPart whole (.reference name args)) (mem : arg ∈ args) : HasPart whole arg

open Lowering

/-- The part of an expression that a fault is about. -/
inductive ExprFault.Concerns : ExprFault → TypeExpr → Prop
  | intersectionOperand {members : List TypeExpr} :
      Concerns .intersectionOperand (.intersection members)
  | emptyIntersection : Concerns .emptyIntersection (.intersection [])
  | argumentCount {name : String} {args : List TypeExpr} {arity found : Nat}
      (takes : genericArity? name = some arity) (given : args.length = found)
      (other : found ≠ arity) : Concerns (.argumentCount name arity found) (.reference name args)
  | operand {name : String} {args : List TypeExpr} {arity : Nat}
      (takes : genericArity? name = some arity) (fits : args.length = arity) :
      Concerns (.operand name) (.reference name args)
  | unknownGeneric {name : String} {args : List TypeExpr} (plain : genericArity? name = none)
      (given : args ≠ []) : Concerns (.unknownGeneric name) (.reference name args)
  | keys {name : String} {operand keyed : TypeExpr} (none : Glossary.keyNames? keyed = none) :
      Concerns .keys (.reference name [operand, keyed])

/-! ## Rejected values -/

/-- The location of a rejected value. -/
def DocumentError.location? : DocumentError → Option Location
  | .invalidExpression location _ _ => some location
  | .unknownName location _ => some location
  | .invalidEntry location _ => some location
  | .invalidHint error => some error.location
  | .invalidDocument _ | .duplicateModel _ | .missingRoot _ | .circularComposition _
  | .mode _ => none

namespace Document

/-- A value of a document is what an error is about. -/
inductive Rejects (document : Document) : DocumentError → Json → Prop
  | unreadable {location : Location} {text : String} {error : ParseError}
      (fails : TypeExpr.parse text = .error error) :
      Rejects document (.invalidExpression location text (.parse error)) (.string text)
  | expression {location : Location} {text : String} {expr part : TypeExpr} {fault : ExprFault}
      (parses : TypeExpr.parse text = .ok expr) (among : expr.HasPart part)
      (concerns : fault.Concerns part) :
      Rejects document (.invalidExpression location text fault) (.string text)
  | name {location : Location} {text name : String} {expr : TypeExpr}
      (parses : TypeExpr.parse text = .ok expr) (among : expr.HasPart (.reference name []))
      (noModel : name ∉ document.models.keys) (noLeaf : name ∉ document.leaves) :
      Rejects document (.unknownName location name) (.string text)
  | model {name : String} {value : Json} (declared : document.models.lookup name = some value) :
      Rejects document (.invalidEntry (modelLocation name) .composedTooDeeply) value
  | entry {location : Location} {value : Json} (noText : ∀ text, value ≠ .string text)
      (noObject : ∀ members, value ≠ .object members) :
      Rejects document (.invalidEntry location (.notAnEntry value)) value
  | members {location : Location} {value : Json}
      (directive : document.toJson.resolve? location.text = some (.object [("$union", value)]))
      (noList : ∀ items, value ≠ .array items) :
      Rejects document (.invalidEntry (location.child "$union") .unionMembers) value
  | directive {location : Location} {key : String} {inner : Json} (marked : isDirective key = true)
      (unknown : key ∉ ["$array", "$nullable", "$union"]) :
      Rejects document (.invalidEntry location (.unknownDirective key)) (.object [(key, inner)])
  | nameless {location : Location} {key : String} {value : Json} {members : List (String × Json)}
      (object : document.toJson.resolve? location.text = some (.object members))
      (mem : (key, value) ∈ members) (empty : (propertyLabel key).1 = "") :
      Rejects document (.invalidEntry (location.child key) .emptyPropertyName) value
  | duplicate {location : Location} {key : String} {value : Json}
      {before after : List (String × Json)}
      (object : document.toJson.resolve? location.text
        = some (.object (before ++ (key, value) :: after)))
      (earlier : ∃ other ∈ before, (propertyLabel other.1).1 = (propertyLabel key).1) :
      Rejects document
        (.invalidEntry (location.child key) (.duplicateProperty (propertyLabel key).1)) value
  | hintName {location : Location} {name : String} (unknown : NodeKind.ofName? name = none) :
      Rejects document (.invalidHint ⟨location, .unknownKind name⟩) (.string name)
  | hintElements {location : Location} {items : List Json} (several : items.length ≠ 1) :
      Rejects document (.invalidHint ⟨location, .elementCount items.length⟩) (.array items)
  | hint {location : Location} {value : Json}
      (scalar : (∃ b, value = .bool b) ∨ ∃ n, value = .number n) :
      Rejects document (.invalidHint ⟨location, .notAHint value⟩) value

/-- If an error has a location, what it rejects stands there. -/
def Blames (document : Document) (error : DocumentError) : Prop :=
  ∀ location, error.location? = some location →
    ∃ value, document.toJson.resolve? location.text = some value ∧ document.Rejects error value

variable {document : Document} {location : Location} {value : Json} {error : DocumentError}

theorem blames_of_holds (holds : document.toJson.Holds location value)
    (about : error.location? = some location) (rejects : document.Rejects error value) :
    document.Blames error := by
  rintro other about'
  cases about.symm.trans about'
  exact ⟨value, holds.resolve?, rejects⟩

theorem blames_of_location? (nowhere : error.location? = none) : document.Blames error := by
  intro location about
  cases nowhere.symm.trans about

/-! ## Where the parts of a document stand -/

theorem lookup_models :
    ∃ members, document.toJson = .object members
      ∧ members.lookup "models" = some (.object document.models)
      ∧ members.lookup "hints" = document.hints := by
  refine ⟨_, rfl, ?_, ?_⟩
  · cases document.leaves <;> rfl
  · cases document.leaves <;> cases document.root <;> cases document.hints <;>
      cases document.mode <;> rfl

/-- A model stands under its name. -/
theorem Distinct.holds_model (distinct : document.Distinct) {name : String}
    (declared : document.models.lookup name = some value) :
    document.toJson.Holds (modelLocation name) value := by
  obtain ⟨members, same, found, _⟩ := @lookup_models document
  refine ⟨rfl, ?_, distinct.values (name, value) (Entries.mem_of_lookup declared)⟩
  rw [same]
  show (members.lookup "models").bind _ = _
  rw [found]
  show (document.models.lookup name).bind _ = _
  rw [declared]
  rfl

/-- The hints stand under their key. -/
theorem Distinct.holds_hints (distinct : document.Distinct) (given : document.hints = some value) :
    document.toJson.Holds (Location.root.child "hints") value := by
  obtain ⟨members, same, _, found⟩ := @lookup_models document
  refine ⟨rfl, ?_, distinct.hints value given⟩
  rw [same]
  show (members.lookup "hints").bind _ = _
  rw [found, given]
  rfl

/-! ## Hints -/

mutual

theorem blames_ofJson : ∀ (value : Json) {location : Location} {error : HintError},
    document.toJson.Holds location value → Hint.ofJson location value = .error error →
    document.Blames (.invalidHint error)
  | .null, _, _, _, fails => by
    rw [Hint.ofJson] at fails
    cases fails
  | .bool b, _, _, holds, fails => by
    rw [Hint.ofJson] at fails
    cases fails
    exact blames_of_holds holds rfl (.hint (.inl ⟨b, rfl⟩))
  | .number n, _, _, holds, fails => by
    rw [Hint.ofJson] at fails
    cases fails
    exact blames_of_holds holds rfl (.hint (.inr ⟨n, rfl⟩))
  | .string name, _, _, holds, fails => by
    rw [Hint.ofJson] at fails
    split at fails
    next => cases fails
    next unknown =>
      cases fails
      exact blames_of_holds holds rfl (.hintName unknown)
  | .object members, _, _, holds, fails => by
    rw [Hint.ofJson] at fails
    cases below : Hint.ofMembers _ members with
    | ok hints =>
      rw [below] at fails
      cases fails
    | error fault =>
      rw [below] at fails
      cases fails
      exact blames_ofMembers members (fun _ mem => holds.member mem) below
  | .array [], _, _, holds, fails => by
    rw [Hint.ofJson] at fails
    · cases fails
      exact blames_of_holds holds rfl (.hintElements (by simp))
    · simp
  | .array [item], _, _, holds, fails => by
    rw [Hint.ofJson] at fails
    cases below : Hint.ofJson _ item with
    | ok hint =>
      rw [below] at fails
      cases fails
    | error fault =>
      rw [below] at fails
      cases fails
      exact blames_ofJson item (holds.item (show [item][0]? = some item from rfl)) below
  | .array (_ :: _ :: _), _, _, holds, fails => by
    rw [Hint.ofJson] at fails
    · cases fails
      exact blames_of_holds holds rfl (.hintElements (by simp))
    · simp

theorem blames_ofMembers : ∀ (members : List (String × Json)) {location : Location}
    {error : HintError},
    (∀ entry ∈ members, document.toJson.Holds (location.child entry.1) entry.2) →
    Hint.ofMembers location members = .error error → document.Blames (.invalidHint error)
  | [], _, _, _, fails => by
    rw [Hint.ofMembers] at fails
    cases fails
  | (name, value) :: rest, _, _, holds, fails => by
    obtain ⟨holdsFirst, holdsRest⟩ := List.forall_mem_cons.1 holds
    rw [Hint.ofMembers] at fails
    cases first : Hint.ofJson _ value with
    | error fault =>
      rw [first] at fails
      cases fails
      exact blames_ofJson value holdsFirst first
    | ok hint =>
      cases others : Hint.ofMembers _ rest with
      | error fault =>
        rw [first, others] at fails
        cases fails
        exact blames_ofMembers rest holdsRest others
      | ok hints =>
        rw [first, others] at fails
        cases fails

end

end Document

/-! ## Lowering -/

namespace Lowering

variable {document : Document} {α β : Type}

/-- The models that a state has handles for are those of a document. -/
def Declares (document : Document) (state : LoweringState) : Prop :=
  state.declared.keys = document.models.keys

/-- A lowering that keeps the models of the document, and fails only because of a value that stands
where its error says. -/
def Blaming (document : Document) (action : Lowering α) : Prop :=
  ∀ state, Declares document state →
    Settles action state (fun _ after => Declares document after) document.Blames

theorem blaming_pure (a : α) : Blaming document (pure a : Lowering α) :=
  fun _ declares => settles_pure declares

theorem blaming_throw {error : DocumentError} (blames : document.Blames error) :
    Blaming document (throw error : Lowering α) :=
  fun _ _ => settles_throw blames

theorem Blaming.bind {action : Lowering α} {next : α → Lowering β} (first : Blaming document action)
    (rest : ∀ a, Blaming document (next a)) : Blaming document (action >>= next) :=
  fun state declares => (first state declares).bind (fun _ blames => blames) fun a => rest a

theorem blaming_interning (action : Interning α) : Blaming document (interning action) :=
  fun _ declares => settles_modifyGet declares

theorem blaming_get_bind {next : LoweringState → Lowering α}
    (rest : ∀ state, Blaming document (next state)) : Blaming document (get >>= next) :=
  fun state declares => settles_get_bind_iff.2 (rest state state declares)

theorem blaming_models_bind {next : Definitions → Lowering α}
    (rest : ∀ models, Blaming document (next models)) : Blaming document (models >>= next) :=
  fun state declares => settles_models_bind_iff.2 (rest state.catalog.models state declares)

theorem blaming_composing {compose : Definitions → Interning (Option TypeId)}
    {failure : DocumentError} (blames : document.Blames failure) :
    Blaming document (composing compose failure) := by
  refine blaming_models_bind fun _ => (blaming_interning _).bind fun composed => ?_
  cases composed with
  | some id => exact blaming_pure id
  | none => exact blaming_throw blames

theorem blaming_define (definition : ModelId) (body : TypeId) :
    Blaming document (define definition body) :=
  fun _ declares => settles_modifyGet declares

/-- Models are demanded with locations of their own. -/
theorem blaming_prepareOperand {ensureModel : String → Lowering Unit}
    (demands : ∀ name, Blaming document (ensureModel name)) (id : TypeId) :
    Blaming document (prepareOperand ensureModel id) := by
  have chain (fuel : Nat) : ∀ visited id,
      Blaming document (ensureChain ensureModel fuel visited id) := by
    induction fuel with
    | zero => exact fun _ _ => blaming_pure ()
    | succ fuel ih =>
      intro visited id
      unfold ensureChain
      refine blaming_get_bind fun state => ?_
      split
      next => exact blaming_pure ()
      next definition _ =>
        split
        next => exact blaming_pure ()
        next =>
          refine blaming_get_bind fun state => ?_
          split
          case' h_1 name _ => refine (demands name).bind fun _ => ?_
          -- The chain goes on in the same way whether a name was demanded or not.
          all_goals
            refine blaming_models_bind fun models => ?_
            split
            next => exact ih _ _
            next => exact blaming_pure ()
  exact blaming_models_bind fun models => chain _ [] id

/-! ## Expressions -/

/-- A text of a document is an expression, and names that are no models are leaves. -/
structure Stands (document : Document) (site : ExprSite) (expr : TypeExpr) : Prop where
  holds : document.toJson.Holds site.location (.string site.text)
  parses : TypeExpr.parse site.text = .ok expr
  leaves : site.leaves.keys = document.leaves

section

variable {ensureModel : String → Lowering Unit} {site : ExprSite} {expr : TypeExpr}

theorem Stands.blames (stands : Stands document site expr) {part : TypeExpr} {fault : ExprFault}
    (among : expr.HasPart part) (concerns : fault.Concerns part) :
    document.Blames (.invalidExpression site.location site.text fault) :=
  Document.blames_of_holds stands.holds rfl (.expression stands.parses among concerns)

theorem blaming_lookupName (stands : Stands document site expr) {name : String}
    (among : expr.HasPart (.reference name [])) : Blaming document (lookupName site name) := by
  intro state declares
  refine settles_get_bind_iff.2 ?_
  cases found : state.declared.lookup name with
  | some definition => exact blaming_interning _ state declares
  | none =>
    have noModel : name ∉ document.models.keys := by
      rw [← declares]
      exact Entries.lookup_eq_none_iff.1 found
    cases leaf : site.leaves.lookup name with
    | some id =>
      simp only
      exact settles_pure declares
    | none =>
      simp only
      refine settles_throw (Document.blames_of_holds stands.holds rfl
        (.name stands.parses among noModel ?_))
      rw [← stands.leaves]
      exact Entries.lookup_eq_none_iff.1 leaf

theorem genericArity?_eq_some_iff {name : String} {arity : Nat} :
    genericArity? name = some arity ↔ (name = "Array" ∨ name = "Partial") ∧ arity = 1
      ∨ (name = "Omit" ∨ name = "Pick") ∧ arity = 2 := by
  unfold genericArity?
  simp only [Bool.or_eq_true, decide_eq_true_eq]
  split
  next unary =>
    have other : ¬(name = "Omit" ∨ name = "Pick") := by rcases unary with rfl | rfl <;> decide
    simp [unary, other, eq_comm]
  next notUnary =>
    split
    next binary => simp [notUnary, binary, eq_comm]
    next notBinary => simp [notUnary, notBinary]

theorem blaming_refuseArguments (stands : Stands document site expr) {name : String}
    {args : List TypeExpr} (among : expr.HasPart (.reference name args)) (given : args ≠ [])
    (other : genericArity? name ≠ some args.length) :
    Blaming document (refuseArguments site name args.length : Lowering α) := by
  unfold refuseArguments
  cases generic : genericArity? name with
  | some arity =>
    refine blaming_throw (stands.blames among (.argumentCount generic rfl fun same => ?_))
    exact other (same ▸ generic)
  | none => exact blaming_throw (stands.blames among (.unknownGeneric generic given))

theorem blaming_keyNames (stands : Stands document site expr) {name : String}
    {operand keyed : TypeExpr} (among : expr.HasPart (.reference name [operand, keyed])) :
    Blaming document (keyNames site keyed) := by
  have refuses (none : Glossary.keyNames? keyed = none) :
      document.Blames (.invalidExpression site.location site.text .keys) :=
    stands.blames among (.keys none)
  cases keyed with
  | string key => exact (blaming_interning _).bind fun _ => blaming_pure _
  | keyword k =>
    cases k with
    | never => exact blaming_pure []
    | _ => exact blaming_throw (refuses rfl)
  | union members =>
    unfold Glossary.keyNames? at refuses
    unfold keyNames
    simp only at refuses ⊢
    clear among
    induction members with
    | nil => exact blaming_pure []
    | cons member rest ih =>
      rw [List.mapM_cons] at refuses ⊢
      cases member with
      | string key =>
        refine ((blaming_interning _).bind fun _ => blaming_pure _).bind fun _ => ?_
        refine (ih fun none => refuses ?_).bind fun _ => blaming_pure _
        simp [none]
      | _ => exact blaming_throw (refuses rfl)
  | _ => exact blaming_throw (refuses rfl)

/-- The types of several parts, made one after another. -/
theorem blaming_cons {first : Lowering TypeId} {others : Lowering (List TypeId)}
    (h : Blaming document first) (h' : Blaming document others) :
    Blaming document (first >>= fun id => others >>= fun ids => pure (id :: ids)) :=
  h.bind fun _ => h'.bind fun _ => blaming_pure _

/-- A type composed of an operand. -/
theorem blaming_ofOperand (demands : ∀ name, Blaming document (ensureModel name))
    {action : Lowering TypeId} {compose : TypeId → Lowering TypeId}
    (lowers : Blaming document action) (composes : ∀ id, Blaming document (compose id)) :
    Blaming document
      (action >>= fun id => prepareOperand ensureModel id >>= fun _ => compose id) :=
  lowers.bind fun id => (blaming_prepareOperand demands id).bind fun _ => composes id

mutual

theorem blaming_typeOfExpr (demands : ∀ name, Blaming document (ensureModel name))
    (stands : Stands document site expr) : ∀ part : TypeExpr, expr.HasPart part →
    Blaming document (typeOfExpr ensureModel site part)
  | .keyword _, _ => by
    rw [typeOfExpr]
    exact blaming_pure _
  | .string _, _ | .number _, _ | .boolean _, _ => by
    rw [typeOfExpr]
    exact blaming_interning _
  | .array element, among => by
    rw [typeOfExpr]
    exact (blaming_typeOfExpr demands stands element among.element).bind fun _ =>
      blaming_interning _
  | .union members, among => by
    rw [typeOfExpr]
    exact (blaming_typesOfExprs demands stands members fun _ mem => among.member mem).bind fun _ =>
      blaming_interning _
  | .intersection [], among => by
    rw [typeOfExpr]
    exact blaming_throw (stands.blames among .emptyIntersection)
  | .intersection (first :: rest), among => by
    rw [typeOfExpr]
    exact blaming_ofOperand demands
      (blaming_typeOfExpr demands stands first (among.operand List.mem_cons_self)) fun base =>
        blaming_intersectionOf demands stands among rest base fun _ mem =>
          List.mem_cons_of_mem first mem
  | .reference name [], among => by
    rw [typeOfExpr]
    cases generic : genericArity? name with
    | some arity =>
      refine blaming_throw (stands.blames among (.argumentCount generic rfl ?_))
      rintro rfl
      simp [genericArity?_eq_some_iff] at generic
    | none => exact blaming_lookupName stands among
  | .reference name [operand], among => by
    have lowers := blaming_typeOfExpr demands stands operand
      (among.argument (List.mem_singleton_self operand))
    rw [typeOfExpr]
    split
    next => exact lowers.bind fun _ => blaming_interning _
    next notArray =>
      split
      next is =>
        subst is
        exact blaming_ofOperand demands lowers fun _ =>
          blaming_composing
            (stands.blames among (.operand (genericArity?_eq_some_iff.2 (by simp)) rfl))
      next notPartial =>
        exact blaming_refuseArguments stands among (List.cons_ne_nil _ _)
          (by simp [genericArity?_eq_some_iff, notArray, notPartial])
  | .reference name [operand, keyed], among => by
    have lowers := blaming_typeOfExpr demands stands operand (among.argument List.mem_cons_self)
    rw [typeOfExpr]
    split
    next selects =>
      simp only [Bool.or_eq_true, decide_eq_true_eq] at selects
      exact blaming_ofOperand demands lowers fun _ => (blaming_keyNames stands among).bind fun _ =>
        blaming_composing
          (stands.blames among (.operand (genericArity?_eq_some_iff.2 (.inr ⟨selects, rfl⟩)) rfl))
    next other =>
      exact blaming_refuseArguments stands among (List.cons_ne_nil _ _)
        (by simpa [genericArity?_eq_some_iff] using other)
  | .reference name (first :: second :: third :: rest), among => by
    rw [typeOfExpr]
    · exact blaming_refuseArguments stands among (List.cons_ne_nil _ _)
        (by simp [genericArity?_eq_some_iff])
    all_goals simp

theorem blaming_typesOfExprs (demands : ∀ name, Blaming document (ensureModel name))
    (stands : Stands document site expr) : ∀ parts : List TypeExpr,
    (∀ part ∈ parts, expr.HasPart part) → Blaming document (typesOfExprs ensureModel site parts)
  | [], _ => by
    rw [typesOfExprs]
    exact blaming_pure _
  | part :: rest, among => by
    obtain ⟨amongFirst, amongRest⟩ := List.forall_mem_cons.1 among
    rw [typesOfExprs]
    exact blaming_cons (blaming_typeOfExpr demands stands part amongFirst)
      (blaming_typesOfExprs demands stands rest amongRest)

theorem blaming_intersectionOf (demands : ∀ name, Blaming document (ensureModel name))
    (stands : Stands document site expr) {members : List TypeExpr}
    (among : expr.HasPart (.intersection members)) : ∀ (operands : List TypeExpr) (base : TypeId),
    operands ⊆ members → Blaming document (intersectionOf ensureModel site base operands)
  | [], _, _ => by
    rw [intersectionOf]
    exact blaming_pure _
  | operand :: rest, base, sub => by
    obtain ⟨mem, sub⟩ := List.cons_subset.1 sub
    rw [intersectionOf]
    exact blaming_ofOperand demands
      (blaming_typeOfExpr demands stands operand (among.operand mem)) fun _ =>
        (blaming_composing (stands.blames among .intersectionOperand)).bind fun _ =>
          blaming_intersectionOf demands stands among rest _ sub

end

end

/-! ## Values -/

section

variable {ensureModel : String → Lowering Unit} {leaves : Entries TypeId}

theorem blaming_typeOfText (demands : ∀ name, Blaming document (ensureModel name))
    (leafNames : leaves.keys = document.leaves) {location : Location} {text : String}
    (holds : document.toJson.Holds location (.string text)) :
    Blaming document (typeOfText ensureModel leaves location text) := by
  unfold typeOfText
  cases parses : TypeExpr.parse text with
  | error error => exact blaming_throw (Document.blames_of_holds holds rfl (.unreadable parses))
  | ok expr =>
    have stands : Stands document ⟨text, location, leaves⟩ expr := ⟨holds, parses, leafNames⟩
    exact blaming_typeOfExpr demands stands expr .whole

/-- An object of the properties that are listed. -/
theorem blaming_members {action : Lowering (List Property)} (lists : Blaming document action) :
    Blaming document (action >>= fun properties => interning (Interning.object properties)) :=
  lists.bind fun _ => blaming_interning _

mutual

theorem blaming_typeOfValue (demands : ∀ name, Blaming document (ensureModel name))
    (leafNames : leaves.keys = document.leaves) : ∀ (value : Json) {location : Location},
    document.toJson.Holds location value →
    Blaming document (typeOfValue ensureModel leaves location value)
  | .null, _, holds | .bool _, _, holds | .number _, _, holds | .array _, _, holds => by
    rw [typeOfValue]
    exact blaming_throw (Document.blames_of_holds holds rfl (.entry (by simp) (by simp)))
  | .string text, _, holds => by
    rw [typeOfValue]
    exact blaming_typeOfText demands leafNames holds
  | .object [], _, holds => by
    rw [typeOfValue_members (by simp)]
    exact blaming_members (blaming_propertiesOfMembers demands leafNames [] [] holds (by simp))
  | .object [(key, inner)], location, holds => by
    have below := holds.member (List.mem_singleton_self (key, inner))
    cases keyForm key with
    | array is =>
      subst is
      rw [typeOfValue_array]
      exact (blaming_typeOfValue demands leafNames inner below).bind fun _ => blaming_interning _
    | nullable is =>
      subst is
      rw [typeOfValue_nullable]
      exact (blaming_typeOfValue demands leafNames inner below).bind fun _ => blaming_interning _
    | union is =>
      subst is
      match inner with
      | .array items =>
        rw [typeOfValue_union]
        refine (blaming_typesOfItems demands leafNames items fun i item found => ?_).bind
          fun _ => blaming_interning _
        rw [Nat.zero_add]
        exact below.item found
      | .null | .bool _ | .number _ | .string _ | .object _ =>
        rw [typeOfValue_union_of_ne (by simp)]
        have rejects := Document.Rejects.members holds.resolve? (by simp)
        exact blaming_throw (Document.blames_of_holds below rfl rejects)
    | unknown directive unknown =>
      rw [typeOfValue_unknown directive unknown]
      exact blaming_throw (Document.blames_of_holds holds rfl (.directive directive unknown))
    | name plain =>
      rw [typeOfValue_members (plain_of_name plain inner)]
      exact blaming_members
        (blaming_propertiesOfMembers demands leafNames [(key, inner)] [] holds (by simp))
  | .object (first :: second :: rest), _, holds => by
    rw [typeOfValue_members (by simp)]
    exact blaming_members
      (blaming_propertiesOfMembers demands leafNames (first :: second :: rest) [] holds (by simp))

theorem blaming_typesOfItems (demands : ∀ name, Blaming document (ensureModel name))
    (leafNames : leaves.keys = document.leaves) :
    ∀ (items : List Json) {location : Location} {index : Nat},
    (∀ (i : Nat) (item : Json), items[i]? = some item →
      document.toJson.Holds (location.child (toString (index + i))) item) →
    Blaming document (typesOfItems ensureModel leaves location index items)
  | [], _, _, _ => by
    rw [typesOfItems]
    exact blaming_pure _
  | item :: rest, _, index, holds => by
    rw [typesOfItems]
    refine blaming_cons (blaming_typeOfValue demands leafNames item (holds 0 item rfl))
      (blaming_typesOfItems demands leafNames rest fun i other found => ?_)
    rw [Nat.add_assoc, Nat.add_comm 1 i]
    exact holds (i + 1) other found

/-- `before` are the members that were read already, and `seen` are names of theirs. -/
theorem blaming_propertiesOfMembers (demands : ∀ name, Blaming document (ensureModel name))
    (leafNames : leaves.keys = document.leaves) :
    ∀ (members before : List (String × Json)) {location : Location} {seen : List String},
    document.toJson.Holds location (.object (before ++ members)) →
    (∀ name ∈ seen, ∃ other ∈ before, (propertyLabel other.1).1 = name) →
    Blaming document (propertiesOfMembers ensureModel leaves location seen members)
  | [], _, _, _, _, _ => by
    rw [propertiesOfMembers]
    exact blaming_pure _
  | (key, value) :: rest, before, location, seen, holds, earlier => by
    have mem : (key, value) ∈ before ++ (key, value) :: rest := by simp
    have below := holds.member mem
    cases labelForm key seen with
    | empty empty =>
      rw [propertiesOfMembers_of_empty empty]
      have rejects := Document.Rejects.nameless holds.resolve? mem empty
      exact blaming_throw (Document.blames_of_holds below rfl rejects)
    | taken named taken =>
      rw [propertiesOfMembers_of_taken named taken]
      have rejects := Document.Rejects.duplicate holds.resolve? (earlier _ taken)
      exact blaming_throw (Document.blames_of_holds below rfl rejects)
    | new named new =>
      rw [propertiesOfMembers_of_new named new]
      refine (blaming_typeOfValue demands leafNames value below).bind fun _ => Blaming.bind
        (blaming_propertiesOfMembers demands leafNames rest (before ++ [(key, value)]) ?_
          (List.forall_mem_cons.2 ⟨⟨(key, value), by simp, rfl⟩, fun name mem => ?_⟩))
        fun _ => blaming_pure _
      · rwa [List.append_assoc, List.singleton_append]
      · obtain ⟨other, among, same⟩ := earlier name mem
        exact ⟨other, List.mem_append_left _ among, same⟩

end

end

/-! ## Models -/

theorem blaming_ensureModelStep {leaves : Entries TypeId} {defineOther : String → Lowering Unit}
    (distinct : document.Distinct) (leafNames : leaves.keys = document.leaves)
    (others : ∀ name, Blaming document (defineOther name)) (name : String) :
    Blaming document (ensureModelStep document.models leaves defineOther name) := by
  intro state declares
  rw [settles_ensureModelStep_iff]
  split
  next definition value found declared =>
    have holds := distinct.holds_model declared
    split
    next => exact declares
    next =>
      split
      next =>
        exact (blaming_typeOfValue others leafNames value holds
          { state with underway := (state.underway.enter definition).2 } declares).imp
            (fun id after declares =>
              blaming_define definition id { after with underway := _ } declares)
            fun _ blames => blames
      next => exact Document.blames_of_location? rfl
      all_goals exact Document.blames_of_holds holds rfl (.model declared)
  next => exact declares

theorem blaming_ensureModel {leaves : Entries TypeId} (distinct : document.Distinct)
    (leafNames : leaves.keys = document.leaves) :
    ∀ (levels : Nat) (name : String),
      Blaming document (ensureModel document.models leaves levels name)
  | 0 => blaming_ensureModelStep distinct leafNames fun _ => blaming_pure ()
  | levels + 1 =>
    blaming_ensureModelStep distinct leafNames (blaming_ensureModel distinct leafNames levels)

theorem blaming_forM {steps : List α} {step : α → Lowering Unit}
    (h : ∀ a, Blaming document (step a)) : Blaming document (steps.forM step) := by
  induction steps with
  | nil => exact blaming_pure ()
  | cons first rest ih => exact (h first).bind fun _ => ih

theorem blaming_checkModel (model : String × ModelId) : Blaming document (checkModel model) := by
  refine (blaming_interning _).bind fun id => blaming_get_bind fun state => ?_
  split
  next => exact blaming_pure ()
  next => exact blaming_throw (Document.blames_of_location? rfl)

theorem settles_lowerAll_blames (distinct : document.Distinct) :
    Settles (lowerAll document) .start (fun _ _ => True) document.Blames := by
  unfold lowerAll
  refine (settles_addLeaves document.leaves LoweringState.begun_start .nil).bind ?_ ?_
  · rintro _ ⟨_, name, _, rfl, _⟩
    exact Document.blames_of_location? rfl
  rintro leaves first ⟨begun, _, _, leafNames, _⟩
  refine (settles_addModels document.models.keys begun).and_gives.bind ?_ ?_
  · rintro _ ⟨_, name, _, rfl, _⟩
    exact Document.blames_of_location? rfl
  rintro models second ⟨_, gives⟩
  have declares : Declares document { second with declared := models } :=
    (find?_of_addModels document.models.keys gives).1
  refine settles_modifyGet_bind_iff.2 (Settles.bind
    (blaming_forM (fun name => blaming_ensureModel distinct leafNames _ name) _ declares)
    (fun _ blames => blames) fun _ third declares => ?_)
  exact Settles.bind (blaming_forM blaming_checkModel third declares) (fun _ blames => blames)
    fun _ _ _ => settles_pure trivial

end Lowering

/-! ## Documents -/

namespace Document

variable {document : Document} {error : DocumentError} {location : Location}

theorem blames_of_lower (distinct : document.Distinct) (fails : document.lower = .error error) :
    document.Blames error := by
  rcases fails_of_lower fails with ⟨_, run⟩ | ⟨fault, wrong, rfl⟩ | ⟨fault, _, rfl⟩
  · exact (settles_lowerAll_blames distinct).of_fails run
  · unfold hint at wrong
    split at wrong
    next value given => exact blames_ofJson value (distinct.holds_hints given) wrong
    next => cases wrong
  · exact blames_of_location? rfl

/-- If a document is refused by an error with a location, the location leads to a value of the
document, and that value is what the error rejects. -/
theorem exists_rejected_of_lower (distinct : document.Distinct)
    (fails : document.lower = .error error) (about : error.location? = some location) :
    ∃ value, document.toJson.resolve? location.text = some value
      ∧ document.Rejects error value :=
  blames_of_lower distinct fails location about

/-- A model with a slash in its name, a property with a tilde in its, and a union of a type that
there is and one that there is not. -/
def orders : Document :=
  { Document.empty with
    models := [("Item/Order", .object
      [("x~y?", .object [("$union", .array [.string "string", .string "Missing"])])])] }

theorem exists_rejected_of_lower_orders : ∃ error location, orders.Distinct
    ∧ orders.lower = .error error ∧ error.location? = some location
    ∧ location.text = "/models/Item~1Order/x~0y?/$union/1"
    ∧ orders.toJson.resolve? "/models/Item~1Order/x~0y?/$union/1" = some (.string "Missing")
    ∧ ∃ value, orders.toJson.resolve? location.text = some value ∧ orders.Rejects error value := by
  have union : Json.Distinct (.object [("$union", .array [.string "string", .string "Missing"])]) :=
    .object (by decide) (List.forall_mem_singleton.2 (.array
      (List.forall_mem_cons.2 ⟨.string _, List.forall_mem_singleton.2 (.string _)⟩)))
  have distinct : orders.Distinct := {
    names := by decide
    values := List.forall_mem_singleton.2 (.object (by decide) (List.forall_mem_singleton.2 union))
    hints := nofun }
  have is : (match orders.lower with
      | .error error => error.location?.map Location.text
      | .ok _ => none) = some "/models/Item~1Order/x~0y?/$union/1" := by decide +kernel
  cases fails : orders.lower with
  | ok lowered =>
    rw [fails] at is
    cases is
  | error error =>
    rw [fails] at is
    obtain ⟨location, about, text⟩ := Option.map_eq_some_iff.1 is
    exact ⟨error, location, distinct, rfl, about, text, rfl,
      exists_rejected_of_lower distinct fails about⟩

/-- So do the locations of errors lead to values of a document that is given as a text. -/
theorem exists_rejected_of_load {source : String} (parses : parse source = .ok document)
    (fails : load source = .error error) (about : error.location? = some location) :
    ∃ value, document.toJson.resolve? location.text = some value
      ∧ document.Rejects error value := by
  have refused : document.lower = .error error := by
    unfold load at fails
    rwa [parses] at fails
  exact blames_of_lower (distinct_of_parse parses) refused location about

end Document

end ModelForms
