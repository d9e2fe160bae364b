import ModelForms.Proofs.Bounds.Balance
import ModelForms.Proofs.Document.ValueForms
import ModelForms.Proofs.Form.Levels
import ModelForms.Tree.Derive

/-!
# Walks in balance

Four walks are bounded by guards and counters: following a chain of aliases, expanding a model,
lowering a document and matching a value.  Each of them ends in balance, whatever it is given and
whether it fails or not, so none of them leaves what it is not due to leave or ends inside of
something (`walks_balanced`).

Each walk is followed along its text.  Its guard or counter changes in one place, where an action is
made inside of what is entered.  There the action keeps the standing by induction on the levels, and
leaving restores the one from before.  A failure inside does not matter, since leaving comes after
it as well, and neither does what could not be entered, since it does not change the standing.
-/

namespace ModelForms

/-! ## Chains of aliases -/

namespace Catalog

variable {catalog : Catalog}

theorem keeps_followStep {onwards : TypeId → StateM (Guard ModelId) (Except ModelId TypeId)}
    (keeps : ∀ id, Keeps Guard.standing (onwards id)) (id : TypeId) :
    Keeps Guard.standing (catalog.followStep onwards id) := by
  intro guard
  cases reference : catalog.types.referenced? id with
  | none => rw [followStep_none reference]
  | some definition =>
    rw [followStep_some reference]
    cases entered : (guard.enter definition).1 with
    | entered =>
      cases catalog.models.body? definition with
      | some body => exact Guard.standing_leave entered (keeps body _)
      | none => exact Guard.standing_leave entered rfl
    | cycle | tooDeep | tooMany => exact Guard.standing_enter_of_ne (by simp [entered])

theorem keeps_follow : ∀ (levels : Nat) (id : TypeId),
    Keeps Guard.standing (catalog.follow levels id)
  | 0 => keeps_followStep fun _ => .pure _
  | levels + 1 => keeps_followStep (keeps_follow levels)

end Catalog

/-! ## Expanding a model -/

namespace Expansion

/-- What the guard and the counter of an expansion say about balance. -/
def standing (state : ExpansionState) : (List ModelId × Bool) × (Nat × Bool) :=
  (state.guard.standing, state.depth.standing)

variable {expansion : Expansion} {below : Maker} {path : FieldPath} {hint : Hint}

theorem keeps_intern {α : Type} (action : Interning α) : Keeps standing (intern action).run :=
  Keeps.run_modifyGet fun _ => rfl

theorem keeps_catalog : Keeps standing expansion.catalog.run :=
  .run_bind .run_get fun _ => .run_pure _

theorem keeps_decide (type : TypeId) (optional : Bool) :
    Keeps standing (decide expansion type optional).run :=
  .run_bind keeps_catalog fun _ => .run_pure _

theorem keeps_withinLevel {action : Expanding TreeNode} (keeps : Keeps standing action.run) :
    Keeps standing (withinLevel path action).run := by
  intro state
  unfold withinLevel
  show standing ((if state.depth.enter.1 then _ else _ : Expanding TreeNode).run
    { state with depth := state.depth.enter.2 }).2 = _
  cases entered : state.depth.enter.1 with
  | true =>
    obtain ⟨guard, depth⟩ := Prod.mk.inj (keeps { state with depth := state.depth.enter.2 })
    exact Prod.ext guard (Depth.standing_leave entered depth)
  | false => exact Prod.ext rfl (Depth.standing_enter_of_false entered)

/-- What follows on entering a model starts after that. -/
theorem keeps_entering {α : Type} {definition : ModelId} {next : Admission → Expanding α}
    (rest : ∀ state, standing ((next (state.guard.enter definition).1).run
      { state with guard := (state.guard.enter definition).2 }).2 = standing state) :
    Keeps standing (modifyGet (fun state : ExpansionState =>
      ((state.guard.enter definition).1, { state with guard := (state.guard.enter definition).2 }))
      >>= next).run := rest

theorem keeps_withinModel {action : Expanding TreeNode} (keeps : Keeps standing action.run)
    (declared : TypeId) :
    Keeps standing (withinModel expansion path declared hint action).run := by
  unfold withinModel
  refine .run_bind keeps_catalog fun catalog => ?_
  cases catalog.namedModel? declared with
  | none => exact keeps
  | some definition =>
    refine keeps_entering fun state => ?_
    have inside := keeps { state with guard := (state.guard.enter definition).2 }
    cases entered : (state.guard.enter definition).1 with
    | entered =>
      obtain ⟨guard, depth⟩ := Prod.mk.inj inside
      exact Prod.ext (Guard.standing_leave entered guard) depth
    | cycle =>
      have outside : standing { state with guard := (state.guard.enter definition).2 }
          = standing state :=
        Prod.ext (Guard.standing_enter_of_ne (by simp [entered])) rfl
      cases hint.describesBelow with
      | true => exact inside.trans outside
      | false => exact outside
    | tooDeep | tooMany => exact Prod.ext (Guard.standing_enter_of_ne (by simp [entered])) rfl

theorem keeps_members (keeps : ∀ path declared hint nullable,
      Keeps standing (below path declared hint nullable).run) (properties : List Property) :
    Keeps standing (members expansion below path hint properties).run := by
  induction properties with
  | nil => exact .run_pure _
  | cons p rest ih =>
    unfold members
    exact .run_bind (keeps_decide _ _) fun _ => .run_bind (keeps _ _ _ _) fun _ =>
      .run_bind ih fun _ => .run_pure _

theorem keeps_group (keeps : ∀ path declared hint nullable,
      Keeps standing (below path declared hint nullable).run) (properties : List Property) :
    Keeps standing (group expansion below path hint properties).run := by
  unfold group
  cases strangeField? properties hint with
  | some field => exact .run_throw _
  | none => exact .run_bind (keeps_members keeps properties) fun _ => .run_pure _

theorem keeps_array (keeps : ∀ path declared hint nullable,
      Keeps standing (below path declared hint nullable).run) (element : TypeId) :
    Keeps standing (array expansion below path hint element).run := by
  unfold array
  exact .run_bind (keeps_decide _ _) fun _ => .run_bind (keeps _ _ _ _) fun _ => .run_pure _

theorem keeps_nodeStep (keeps : ∀ path declared hint nullable,
      Keeps standing (below path declared hint nullable).run) (path : FieldPath) (declared : TypeId)
    (hint : Hint) (nullable : Bool) :
    Keeps standing (nodeStep expansion below path declared hint nullable).run := by
  unfold nodeStep
  refine keeps_withinLevel (.run_bind (keeps_intern _) fun stripped =>
    .run_bind keeps_catalog fun catalog => ?_)
  cases catalog.plan stripped hint path with
  | error error => exact .run_throw _
  | ok plan =>
    cases plan with
    | control => exact .run_bind (keeps_intern _) fun _ => .run_pure _
    | group properties => exact keeps_withinModel (keeps_group keeps properties) declared
    | array element => exact keeps_array keeps element

theorem keeps_node : ∀ (levels : Nat) (path : FieldPath) (declared : TypeId) (hint : Hint)
    (nullable : Bool), Keeps standing (node expansion levels path declared hint nullable).run
  | 0 => keeps_nodeStep fun _ _ _ _ => .run_throw _
  | levels + 1 => keeps_nodeStep (keeps_node levels)

end Expansion

theorem DerivedForm.standing_expand (models : Definitions) (mode : Mode) (hint : Hint)
    (model : TypeId) (types : TypeTable) :
    Expansion.standing (expand models mode hint model types).2 = (([], false), (0, false)) := by
  unfold expand
  cases checkRoot ⟨types, models⟩ hint model with
  | error error => rfl
  | ok _ => exact Expansion.keeps_node _ _ _ _ _ (.start types)

/-! ## Lowering a document -/

namespace Lowering

/-- What the guard of a lowering says about balance. -/
def standing (state : LoweringState) : List ModelId × Bool := state.underway.standing

variable {α : Type}

theorem keeps_interning (action : Interning α) : Keeps standing (interning action).run :=
  Keeps.run_modifyGet fun _ => rfl

theorem keeps_models : Keeps standing models.run := .run_bind .run_get fun _ => .run_pure _

theorem keeps_composing (compose : Definitions → Interning (Option TypeId))
    (failure : DocumentError) : Keeps standing (composing compose failure).run := by
  refine .run_bind keeps_models fun _ => .run_bind (keeps_interning _) fun composed => ?_
  cases composed with
  | some id => exact .run_pure id
  | none => exact .run_throw failure

theorem keeps_reserve (name : String) : Keeps standing (reserve name).run :=
  .run_bind (keeps_interning _) fun _ => Keeps.run_modifyGet fun _ => rfl

theorem keeps_define (definition : ModelId) (body : TypeId) :
    Keeps standing (define definition body).run :=
  Keeps.run_modifyGet fun _ => rfl

/-! ### Type expressions -/

section

variable {ensureModel : String → Lowering Unit} {site : ExprSite}

theorem keeps_lookupName (name : String) : Keeps standing (lookupName site name).run := by
  refine .run_bind .run_get fun state => ?_
  cases state.declared.lookup name with
  | some definition => exact keeps_interning _
  | none =>
    cases site.leaves.lookup name with
    | some id => exact .run_pure id
    | none => exact .run_throw _

theorem keeps_ensureChain (ensures : ∀ name, Keeps standing (ensureModel name).run) (fuel : Nat) :
    ∀ (visited : List ModelId) (id : TypeId),
      Keeps standing (ensureChain ensureModel fuel visited id).run := by
  induction fuel with
  | zero => exact fun _ _ => .run_pure ()
  | succ fuel ih =>
    intro visited id
    unfold ensureChain
    refine .run_bind .run_get fun state => ?_
    cases state.catalog.types.referenced? id with
    | none => exact .run_pure ()
    | some definition =>
      simp only
      split
      · exact .run_pure ()
      · refine .run_bind .run_get fun state => ?_
        cases state.nameOf? definition
        case' some name => refine .run_bind (ensures name) fun _ => ?_
        -- With a name or without, the walk goes on to the body.
        all_goals
          refine .run_bind keeps_models fun models => ?_
          cases models.body? definition with
          | some body => exact ih _ body
          | none => exact .run_pure ()

theorem keeps_prepareOperand (ensures : ∀ name, Keeps standing (ensureModel name).run)
    (id : TypeId) : Keeps standing (prepareOperand ensureModel id).run :=
  .run_bind keeps_models fun _ => keeps_ensureChain ensures _ [] id

theorem keeps_keyNames (keys : TypeExpr) : Keeps standing (keyNames site keys).run := by
  cases keys with
  | string key => exact .run_bind (keeps_interning _) fun _ => .run_pure _
  | keyword k =>
    cases k with
    | never => exact .run_pure []
    | _ => exact .run_throw _
  | union members =>
    refine .run_mapM (fun member => ?_) members
    cases member with
    | string key => exact .run_bind (keeps_interning _) fun _ => .run_pure key
    | _ => exact .run_throw _
  | _ => exact .run_throw _

theorem keeps_refuseArguments (name : String) (count : Nat) :
    Keeps standing (refuseArguments site name count : Lowering α).run := by
  unfold refuseArguments
  cases genericArity? name with
  | some arity => exact .run_throw _
  | none => exact .run_throw _

/-- A type made of an operand that is prepared for it. -/
theorem keeps_ofOperand (ensures : ∀ name, Keeps standing (ensureModel name).run)
    {action : Lowering TypeId} {compose : TypeId → Lowering TypeId}
    (operand : Keeps standing action.run) (composes : ∀ id, Keeps standing (compose id).run) :
    Keeps standing
      (action >>= fun id => prepareOperand ensureModel id >>= fun _ => compose id).run :=
  .run_bind operand fun id => .run_bind (keeps_prepareOperand ensures id) fun _ => composes id

/-- The types of several parts, made one after another. -/
theorem keeps_cons {first : Lowering TypeId} {others : Lowering (List TypeId)}
    (h : Keeps standing first.run) (h' : Keeps standing others.run) :
    Keeps standing (first >>= fun id => others >>= fun ids => pure (id :: ids)).run :=
  .run_bind h fun _ => .run_bind h' fun _ => .run_pure _

mutual

theorem keeps_typeOfExpr (ensures : ∀ name, Keeps standing (ensureModel name).run) :
    ∀ expr : TypeExpr, Keeps standing (typeOfExpr ensureModel site expr).run
  | .keyword _ => by
    rw [typeOfExpr]
    exact .run_pure _
  | .string _ | .number _ | .boolean _ => by
    rw [typeOfExpr]
    exact keeps_interning _
  | .array element => by
    rw [typeOfExpr]
    exact .run_bind (keeps_typeOfExpr ensures element) fun _ => keeps_interning _
  | .union members => by
    rw [typeOfExpr]
    exact .run_bind (keeps_typesOfExprs ensures members) fun _ => keeps_interning _
  | .intersection [] => by
    rw [typeOfExpr]
    exact .run_throw _
  | .intersection (first :: rest) => by
    rw [typeOfExpr]
    exact keeps_ofOperand ensures (keeps_typeOfExpr ensures first)
      (keeps_intersectionOf ensures rest)
  | .reference name [] => by
    rw [typeOfExpr]
    cases genericArity? name with
    | some arity => exact .run_throw _
    | none => exact keeps_lookupName name
  | .reference name [operand] => by
    have lowers := keeps_typeOfExpr ensures operand
    rw [typeOfExpr]
    split
    · exact .run_bind lowers fun _ => keeps_interning _
    · split
      · exact keeps_ofOperand ensures lowers fun _ => keeps_composing _ _
      · exact keeps_refuseArguments name 1
  | .reference name [operand, keys] => by
    rw [typeOfExpr]
    split
    · exact keeps_ofOperand ensures (keeps_typeOfExpr ensures operand) fun _ =>
        .run_bind (keeps_keyNames keys) fun _ => keeps_composing _ _
    · exact keeps_refuseArguments name 2
  | .reference name (first :: second :: third :: rest) => by
    rw [typeOfExpr]
    · exact keeps_refuseArguments name _
    all_goals simp

theorem keeps_typesOfExprs (ensures : ∀ name, Keeps standing (ensureModel name).run) :
    ∀ exprs : List TypeExpr, Keeps standing (typesOfExprs ensureModel site exprs).run
  | [] => by
    rw [typesOfExprs]
    exact .run_pure _
  | expr :: rest => by
    rw [typesOfExprs]
    exact keeps_cons (keeps_typeOfExpr ensures expr) (keeps_typesOfExprs ensures rest)

theorem keeps_intersectionOf (ensures : ∀ name, Keeps standing (ensureModel name).run) :
    ∀ (operands : List TypeExpr) (base : TypeId),
      Keeps standing (intersectionOf ensureModel site base operands).run
  | [], _ => by
    rw [intersectionOf]
    exact .run_pure _
  | operand :: rest, _ => by
    rw [intersectionOf]
    exact keeps_ofOperand ensures (keeps_typeOfExpr ensures operand) fun _ =>
      .run_bind (keeps_composing _ _) (keeps_intersectionOf ensures rest)

end

end

/-! ### Values -/

section

variable {ensureModel : String → Lowering Unit} {leaves : Entries TypeId}

theorem keeps_typeOfText (ensures : ∀ name, Keeps standing (ensureModel name).run)
    (location : Location) (text : String) :
    Keeps standing (typeOfText ensureModel leaves location text).run := by
  unfold typeOfText
  cases TypeExpr.parse text with
  | ok expr => exact keeps_typeOfExpr ensures expr
  | error error => exact .run_throw _

/-- An object of the properties that are listed. -/
theorem keeps_object {action : Lowering (List Property)} (lists : Keeps standing action.run) :
    Keeps standing (action >>= fun properties => interning (Interning.object properties)).run :=
  .run_bind lists fun _ => keeps_interning _

mutual

theorem keeps_typeOfValue (ensures : ∀ name, Keeps standing (ensureModel name).run) :
    ∀ (value : Json) (location : Location),
      Keeps standing (typeOfValue ensureModel leaves location value).run
  | .null, _ | .bool _, _ | .number _, _ | .array _, _ => by
    rw [typeOfValue]
    exact .run_throw _
  | .string text, location => by
    rw [typeOfValue]
    exact keeps_typeOfText ensures location text
  | .object [], location => by
    rw [typeOfValue_members (by simp)]
    exact keeps_object (keeps_propertiesOfMembers ensures [] location [])
  | .object [(key, inner)], location => by
    cases keyForm key with
    | array is =>
      subst is
      rw [typeOfValue_array]
      exact .run_bind (keeps_typeOfValue ensures inner _) fun _ => keeps_interning _
    | nullable is =>
      subst is
      rw [typeOfValue_nullable]
      exact .run_bind (keeps_typeOfValue ensures inner _) fun _ => keeps_interning _
    | union is =>
      subst is
      match inner with
      | .array items =>
        rw [typeOfValue_union]
        exact .run_bind (keeps_typesOfItems ensures items _ 0) fun _ => keeps_interning _
      | .null | .bool _ | .number _ | .string _ | .object _ =>
        rw [typeOfValue_union_of_ne (by simp)]
        exact .run_throw _
    | unknown directive unknown =>
      rw [typeOfValue_unknown directive unknown]
      exact .run_throw _
    | name plain =>
      rw [typeOfValue_members (plain_of_name plain inner)]
      exact keeps_object (keeps_propertiesOfMembers ensures [(key, inner)] location [])
  | .object (first :: second :: rest), location => by
    rw [typeOfValue_members (by simp)]
    exact keeps_object (keeps_propertiesOfMembers ensures (first :: second :: rest) location [])

theorem keeps_typesOfItems (ensures : ∀ name, Keeps standing (ensureModel name).run) :
    ∀ (items : List Json) (location : Location) (index : Nat),
      Keeps standing (typesOfItems ensureModel leaves location index items).run
  | [], _, _ => by
    rw [typesOfItems]
    exact .run_pure _
  | item :: rest, location, index => by
    rw [typesOfItems]
    exact keeps_cons (keeps_typeOfValue ensures item _)
      (keeps_typesOfItems ensures rest location (index + 1))

theorem keeps_propertiesOfMembers (ensures : ∀ name, Keeps standing (ensureModel name).run) :
    ∀ (members : List (String × Json)) (location : Location) (seen : List String),
      Keeps standing (propertiesOfMembers ensureModel leaves location seen members).run
  | [], _, _ => by
    rw [propertiesOfMembers]
    exact .run_pure _
  | (key, value) :: rest, location, seen => by
    cases labelForm key seen with
    | empty empty =>
      rw [propertiesOfMembers_of_empty empty]
      exact .run_throw _
    | taken named taken =>
      rw [propertiesOfMembers_of_taken named taken]
      exact .run_throw _
    | new named new =>
      rw [propertiesOfMembers_of_new named new]
      exact .run_bind (keeps_typeOfValue ensures value _) fun _ =>
        .run_bind (keeps_propertiesOfMembers ensures rest location _) fun _ => .run_pure _

end

end

/-! ### Models -/

section

variable {values : Entries Json} {leaves : Entries TypeId}

/-- What follows on entering a model starts after that. -/
theorem keeps_entering {definition : ModelId} {next : Admission → Lowering α}
    (rest : ∀ state, standing ((next (state.underway.enter definition).1).run
      { state with underway := (state.underway.enter definition).2 }).2 = standing state) :
    Keeps standing (modifyGet (fun state : LoweringState =>
      ((state.underway.enter definition).1,
        { state with underway := (state.underway.enter definition).2 })) >>= next).run := rest

/-- What is lowered while a model is under way keeps the standing, and leaving the model restores
the one from before, whether there is a result or not. -/
theorem standing_leaveAfter {definition : ModelId} {state : LoweringState}
    (entered : (state.underway.enter definition).1 = .entered) {action : Lowering α}
    (keeps : Keeps standing action.run) {next : Except DocumentError α → Lowering Unit}
    (rest : ∀ result, Keeps standing (next result).run) :
    standing ((attempt action >>= fun result =>
        modify (fun state => { state with underway := state.underway.leave definition }) >>=
          fun _ => next result).run
        { state with underway := (state.underway.enter definition).2 }).2 = standing state := by
  have inside := keeps { state with underway := (state.underway.enter definition).2 }
  exact (rest _ _).trans (Guard.standing_leave entered inside)

theorem keeps_ensureModelStep {defineOther : String → Lowering Unit}
    (ensures : ∀ name, Keeps standing (defineOther name).run) (name : String) :
    Keeps standing (ensureModelStep values leaves defineOther name).run := by
  unfold ensureModelStep
  refine .run_bind .run_get fun state => ?_
  cases state.declared.lookup name with
  | none => exact .run_pure ()
  | some definition =>
    cases values.lookup name with
    | none => exact .run_pure ()
    | some value =>
      refine .run_bind keeps_models fun models => ?_
      split
      · exact .run_pure ()
      · refine keeps_entering fun state => ?_
        cases entered : (state.underway.enter definition).1 with
        | entered =>
          refine standing_leaveAfter entered (keeps_typeOfValue ensures value _) fun result => ?_
          cases result with
          | ok body => exact keeps_define definition body
          | error error => exact .run_throw error
        | cycle | tooDeep | tooMany => exact Guard.standing_enter_of_ne (by simp [entered])

theorem keeps_ensureModel : ∀ (levels : Nat) (name : String),
    Keeps standing (ensureModel values leaves levels name).run
  | 0 => keeps_ensureModelStep fun _ => .run_pure ()
  | levels + 1 => keeps_ensureModelStep (keeps_ensureModel levels)

end

/-! ### Documents -/

theorem keeps_addLeaf (leaves : Entries TypeId) (name : String) :
    Keeps standing (addLeaf leaves name).run := by
  unfold addLeaf
  split
  · exact .run_throw_bind _
  · exact .run_bind (keeps_interning _) fun _ => .run_pure _

theorem keeps_addModel (leaves : Entries TypeId) (name : String) :
    Keeps standing (addModel leaves name).run := by
  unfold addModel
  split
  · exact .run_throw_bind _
  · exact .run_bind (keeps_reserve name) fun _ => .run_pure _

theorem keeps_checkModel (model : String × ModelId) : Keeps standing (checkModel model).run := by
  refine .run_bind (keeps_interning _) fun id => .run_bind .run_get fun state => ?_
  cases state.catalog.resolve id with
  | ok target => exact .run_pure ()
  | error broken => exact .run_throw _

theorem keeps_declare (declared : Entries ModelId) : Keeps standing (declare declared).run :=
  Keeps.run_modifyGet fun _ => rfl

theorem keeps_lowerAll (document : Document) : Keeps standing (lowerAll document).run :=
  .run_bind (.run_foldlM keeps_addLeaf _ _) fun leaves =>
    .run_bind (.run_mapM (keeps_addModel leaves) _) fun models =>
      .run_bind (keeps_declare models) fun _ =>
        .run_bind (.run_forM (keeps_ensureModel _) _) fun _ =>
          .run_bind (.run_forM keeps_checkModel _) fun _ => .run_pure _

end Lowering

/-! ## Matching a value -/

namespace Matching

/-- What the counter of a match says about balance. -/
def standing (state : MatchState) : Nat × Bool := state.depth.standing

variable {catalog : Catalog} {below : Json → TypeId → Matching Bool}

theorem keeps_withinLevel {action : Matching Bool} (keeps : Keeps standing action) :
    Keeps standing (withinLevel action) := by
  intro state
  rw [withinLevel_eq]
  cases entered : state.depth.enter.1 with
  | true => exact Depth.standing_leave entered (keeps { state with depth := state.depth.enter.2 })
  | false => exact Depth.standing_enter_of_false entered

theorem keeps_object (keeps : ∀ value type, Keeps standing (below value type))
    (members : Entries Json) (properties : List Property) :
    Keeps standing (object catalog below members properties) := by
  refine .bind (.allM fun p _ => ?_) fun suits => ?_
  · unfold property
    cases members.lookup p.name with
    | some value => exact keeps value p.type
    | none => exact .pure _
  · cases suits with
    | true => exact .allM fun _ _ => .bind (.modify fun _ => rfl) fun _ => .pure _
    | false => exact .pure false

theorem keeps_valueStep (keeps : ∀ value type, Keeps standing (below value type)) (value : Json)
    (type : TypeId) : Keeps standing (valueStep catalog below value type) := by
  refine keeps_withinLevel ?_
  cases catalog.types.lookup type with
  | none => exact .pure false
  | some entry =>
    cases entry with
    | intrinsic | literal | leaf => exact .pure _
    | object properties =>
      cases value with
      | object members => exact keeps_object keeps members properties
      | null | bool | number | string | array => exact .pure false
    | array element =>
      cases value with
      | array items => exact .allM fun item _ => keeps item element
      | null | bool | number | string | object => exact .pure false
    | union members => exact .anyM fun m _ => keeps value m
    | reference definition =>
      simp only
      cases catalog.models.body? definition with
      | some body => exact keeps value body
      | none => exact .pure false

theorem keeps_value : ∀ (levels : Nat) (value : Json) (type : TypeId),
    Keeps standing (Matching.value catalog levels value type)
  | 0 => keeps_valueStep fun _ _ => .pure false
  | levels + 1 => keeps_valueStep (keeps_value levels)

end Matching

/-! ## No walk is out of balance -/

/-- Whatever it is given and whether it fails or not, no walk makes a leave that is not due, and
none ends with a key or a level still entered.  This holds of following aliases, expanding a model,
lowering a document upon types and models that are there already, and matching a value. -/
theorem walks_balanced :
    (∀ (catalog : Catalog) (id : TypeId),
        (catalog.follow WalkKind.aliases.maxDepth id (Guard.forWalk .aliases)).2.fault? = none)
      ∧ (∀ (models : Definitions) (mode : Mode) (hint : Hint) (model : TypeId) (types : TypeTable),
        (DerivedForm.expand models mode hint model types).2.guard.fault? = none
          ∧ (DerivedForm.expand models mode hint model types).2.depth.fault? = none)
      ∧ (∀ (catalog : Catalog) (document : Document),
        ((Lowering.lowerAll document).run.run (.upon catalog)).2.underway.fault? = none)
      ∧ ∀ (catalog : Catalog) (value : Json) (type : TypeId),
        (catalog.matchValue value type).2.depth.fault? = none := by
  refine ⟨fun catalog id => ?_, fun models mode hint model types => ?_,
    fun catalog document => ?_, fun catalog value type => ?_⟩
  · exact Guard.fault?_eq_none_iff.2 (Catalog.keeps_follow _ id _)
  · obtain ⟨guard, depth⟩ := Prod.mk.inj (DerivedForm.standing_expand models mode hint model types)
    exact ⟨Guard.fault?_eq_none_iff.2 guard, Depth.fault?_eq_none_iff.2 depth⟩
  · exact Guard.fault?_eq_none_iff.2 (Lowering.keeps_lowerAll document (.upon catalog))
  · exact Depth.fault?_eq_none_iff.2 (Matching.keeps_value _ value type .start)

end ModelForms
