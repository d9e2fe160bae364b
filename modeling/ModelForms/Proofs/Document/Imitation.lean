import ModelForms.Proofs.Document.Lowered
import ModelForms.Proofs.Json.Rewriting

/-!
# Lowerings that imitate others

One lowering imitates another if, from every sound state, it succeeds with the same result and the
same state wherever the other succeeds.  What the two say where they fail may differ: an error
quotes the text of the expression at fault and its place in the document, and nothing else in a
lowering depends on those.

So where entries of a document are rewritten and the lowering of the new ones imitates that of the
old ones, wherever they stand, the lowering of the whole document does
(`Document.lower_of_rewritten`).  The induction is on the values of the document and the expressions
in them, and around it on the number of models that may be under way.
-/

namespace ModelForms

namespace Lowering

variable {α β : Type} {leaves : Entries TypeId}

/-- The second computation does what the first does wherever that succeeds. -/
def Imitates (leaves : Entries TypeId) (first second : Lowering α) : Prop :=
  ∀ ⦃before result after⦄, before.Sound leaves → Gives first before result after →
    Gives second before result after

/-- What succeeds leads from sound states to sound states. -/
def KeepsSound (leaves : Entries TypeId) (action : Lowering α) : Prop :=
  ∀ ⦃before result after⦄, before.Sound leaves → Gives action before result after →
    after.Sound leaves

namespace Imitates

theorem refl (leaves : Entries TypeId) (action : Lowering α) : Imitates leaves action action :=
  fun _ _ _ _ gives => gives

theorem bind {first second : Lowering α} {next next' : α → Lowering β}
    (h : Imitates leaves first second) (keeps : KeepsSound leaves first)
    (rest : ∀ a, Imitates leaves (next a) (next' a)) :
    Imitates leaves (first >>= next) (second >>= next') := by
  intro before result after sound gives
  obtain ⟨a, middle, gives, more⟩ := gives_bind_iff.1 gives
  exact gives_bind_iff.2 ⟨a, middle, h sound gives, rest a (keeps sound gives) more⟩

theorem throw (error : DocumentError) (action : Lowering α) :
    Imitates leaves (MonadExcept.throw error) action :=
  fun _ _ _ _ gives => absurd gives not_gives_throw

end Imitates

/-! ## Type expressions -/

section

variable {ensureModel ensureModel' : String → Lowering Unit} {site site' : ExprSite}

theorem imitates_lookupName (same : site'.leaves = site.leaves) (name : String) :
    Imitates leaves (lookupName site name) (lookupName site' name) := by
  intro before id after _ gives
  unfold lookupName at gives ⊢
  rw [gives_get_bind_iff] at gives ⊢
  split at gives
  next => exact gives
  next =>
    rw [same]
    split at gives
    next => exact gives
    next => exact absurd gives not_gives_throw

theorem imitates_composing (compose : Definitions → Interning (Option TypeId))
    (failure failure' : DocumentError) :
    Imitates leaves (composing compose failure) (composing compose failure') := by
  intro before id after _ gives
  obtain ⟨found, middle, composes, gives⟩ := gives_bind_iff.1 (gives_models_bind_iff.1 gives)
  refine gives_models_bind_iff.2 (gives_bind_iff.2 ⟨found, middle, composes, ?_⟩)
  cases found with
  | some id => exact gives
  | none => exact absurd gives not_gives_throw

/-- Keys are literals, so only their faults have to do with where they stand. -/
theorem imitates_keyNames (expr : TypeExpr) :
    Imitates leaves (keyNames site expr) (keyNames site' expr) := by
  intro before keys after sound gives
  clear sound
  cases expr with
  | string => exact gives
  | keyword k =>
    cases k with
    | never => exact gives
    | _ => exact absurd gives not_gives_throw
  | union members =>
    unfold keyNames at gives ⊢
    simp only at gives ⊢
    induction members generalizing before keys with
    | nil => exact gives
    | cons first rest ih =>
      obtain ⟨key, middle, others, one, more, rfl⟩ := gives_mapM_cons_iff.1 gives
      refine gives_mapM_cons_iff.2 ⟨key, middle, others, ?_, ih more, rfl⟩
      cases first with
      | string => exact one
      | _ => exact absurd one not_gives_throw
  | _ => exact absurd gives not_gives_throw

variable (imitates : ∀ name, Imitates leaves (ensureModel name) (ensureModel' name))
  (careful : Careful ensureModel leaves)

include imitates careful

theorem imitates_ensureChain : ∀ (fuel : Nat) (visited : List ModelId) (id : TypeId),
    Imitates leaves (ensureChain ensureModel fuel visited id)
      (ensureChain ensureModel' fuel visited id)
  | 0, _, _ => .refl leaves _
  | fuel + 1, visited, id => by
    intro before _ after sound gives
    rw [ensureChain, gives_get_bind_iff] at gives ⊢
    cases reference : before.catalog.types.referenced? id with
    | none =>
      rw [reference] at gives
      exact gives
    | some definition =>
      simp only [reference] at gives ⊢
      split at gives
      next again =>
        rw [if_pos again]
        exact gives
      next new =>
        rw [if_neg new, gives_get_bind_iff]
        rw [gives_get_bind_iff] at gives
        split at gives
        next name named =>
          obtain ⟨_, middle, ensures, gives⟩ := gives_bind_iff.1 gives
          have still := (careful name _ _ sound ensures).sound
          refine gives_bind_iff.2 ⟨_, middle, imitates name sound ensures, ?_⟩
          rw [gives_models_bind_iff] at gives ⊢
          split at gives
          next body _ => exact imitates_ensureChain fuel (definition :: visited) body still gives
          next => exact gives
        next unnamed =>
          rw [gives_models_bind_iff] at gives ⊢
          split at gives
          next body _ => exact imitates_ensureChain fuel (definition :: visited) body sound gives
          next => exact gives

theorem imitates_prepareOperand (id : TypeId) :
    Imitates leaves (prepareOperand ensureModel id) (prepareOperand ensureModel' id) := by
  intro before _ after sound gives
  exact imitates_ensureChain imitates careful _ [] id sound gives

/-- A type that is composed of an operand. -/
theorem imitates_ofOperand {first second : Lowering TypeId} {next next' : TypeId → Lowering TypeId}
    (h : Imitates leaves first second) (keeps : KeepsSound leaves first)
    (rest : ∀ id, Imitates leaves (next id) (next' id)) :
    Imitates leaves (first >>= fun id => prepareOperand ensureModel id >>= fun _ => next id)
      (second >>= fun id => prepareOperand ensureModel' id >>= fun _ => next' id) :=
  h.bind keeps fun id => (imitates_prepareOperand imitates careful id).bind
    (fun _ _ _ sound gives => (precedes_of_ensureChain careful _ sound gives).sound)
    fun _ => rest id

end

section

variable {ensureModel ensureModel' : String → Lowering Unit} {site site' : ExprSite}

mutual

/-- Where an expression stands has no part in its type. -/
theorem imitates_typeOfExpr (same : site'.leaves = site.leaves)
    (imitates : ∀ name, Imitates site.leaves (ensureModel name) (ensureModel' name))
    (careful : Careful ensureModel site.leaves) : ∀ expr : TypeExpr,
    Imitates site.leaves (typeOfExpr ensureModel site expr) (typeOfExpr ensureModel' site' expr)
  | .keyword _ | .string _ | .number _ | .boolean _ => by
    rw [typeOfExpr, typeOfExpr]
    exact .refl _ _
  | .array element => by
    rw [typeOfExpr, typeOfExpr]
    exact (imitates_typeOfExpr same imitates careful element).bind (fun _ _ _ sound gives =>
      (makes_of_typeOfExpr careful element sound gives).sound) fun _ => .refl _ _
  | .union members => by
    rw [typeOfExpr, typeOfExpr]
    exact (imitates_typesOfExprs same imitates careful members).bind (fun _ _ _ sound gives =>
      (precedes_of_typesOfExprs careful members sound gives).1.sound) fun _ => .refl _ _
  | .intersection [] => by
    rw [typeOfExpr]
    exact .throw _ _
  | .intersection (first :: rest) => by
    rw [typeOfExpr, typeOfExpr]
    exact imitates_ofOperand imitates careful (imitates_typeOfExpr same imitates careful first)
      (fun _ _ _ sound gives => (makes_of_typeOfExpr careful first sound gives).sound)
      fun _ => imitates_intersectionOf same imitates careful rest _
  | .reference name [] => by
    rw [typeOfExpr, typeOfExpr]
    split
    next => exact .throw _ _
    next => exact imitates_lookupName same name
  | .reference name [operand] => by
    rw [typeOfExpr, typeOfExpr]
    have keeps : KeepsSound site.leaves (typeOfExpr ensureModel site operand) :=
      fun _ _ _ sound gives => (makes_of_typeOfExpr careful operand sound gives).sound
    split
    next => exact (imitates_typeOfExpr same imitates careful operand).bind keeps fun _ => .refl _ _
    next =>
      split
      next =>
        exact imitates_ofOperand imitates careful
          (imitates_typeOfExpr same imitates careful operand) keeps
          fun _ => imitates_composing _ _ _
      next => exact fun _ _ _ _ gives => absurd gives not_gives_refuseArguments
  | .reference name [operand, keys] => by
    rw [typeOfExpr, typeOfExpr]
    split
    next =>
      refine imitates_ofOperand imitates careful (imitates_typeOfExpr same imitates careful operand)
        (fun _ _ _ sound gives => (makes_of_typeOfExpr careful operand sound gives).sound)
        fun _ => (imitates_keyNames keys).bind
          (fun _ _ _ sound gives => (precedes_of_keyNames sound gives).sound)
          fun _ => imitates_composing _ _ _
    next => exact fun _ _ _ _ gives => absurd gives not_gives_refuseArguments
  | .reference name (_ :: _ :: _ :: _) => by
    rw [typeOfExpr]
    · exact fun _ _ _ _ gives => absurd gives not_gives_refuseArguments
    all_goals simp
termination_by structural expr => expr

theorem imitates_typesOfExprs (same : site'.leaves = site.leaves)
    (imitates : ∀ name, Imitates site.leaves (ensureModel name) (ensureModel' name))
    (careful : Careful ensureModel site.leaves) : ∀ exprs : List TypeExpr,
    Imitates site.leaves (typesOfExprs ensureModel site exprs)
      (typesOfExprs ensureModel' site' exprs)
  | [] => by
    rw [typesOfExprs, typesOfExprs]
    exact .refl _ _
  | expr :: rest => by
    rw [typesOfExprs, typesOfExprs]
    exact (imitates_typeOfExpr same imitates careful expr).bind (fun _ _ _ sound gives =>
      (makes_of_typeOfExpr careful expr sound gives).sound) fun _ =>
        (imitates_typesOfExprs same imitates careful rest).bind (fun _ _ _ sound gives =>
          (precedes_of_typesOfExprs careful rest sound gives).1.sound) fun _ => .refl _ _
termination_by structural exprs => exprs

theorem imitates_intersectionOf (same : site'.leaves = site.leaves)
    (imitates : ∀ name, Imitates site.leaves (ensureModel name) (ensureModel' name))
    (careful : Careful ensureModel site.leaves) : ∀ (exprs : List TypeExpr) (base : TypeId),
    Imitates site.leaves (intersectionOf ensureModel site base exprs)
      (intersectionOf ensureModel' site' base exprs)
  | [], base => by
    rw [intersectionOf, intersectionOf]
    exact .refl _ _
  | expr :: rest, base => by
    rw [intersectionOf, intersectionOf]
    exact imitates_ofOperand imitates careful (imitates_typeOfExpr same imitates careful expr)
      (fun _ _ _ sound gives => (makes_of_typeOfExpr careful expr sound gives).sound)
      fun extra => (imitates_composing _ _ _).bind
        (fun _ _ _ sound gives => (makes_of_composing sound gives
          (sound.closed.composes_extend base extra)).sound)
        fun extended => imitates_intersectionOf same imitates careful rest extended
termination_by structural exprs => exprs

end

end

/-! ## Values -/

section

variable {ensureModel ensureModel' : String → Lowering Unit}

theorem imitates_typeOfText
    (imitates : ∀ name, Imitates leaves (ensureModel name) (ensureModel' name))
    (careful : Careful ensureModel leaves) (location location' : Location) {text text' : String}
    {expr : TypeExpr} (parses : TypeExpr.parse text = .ok expr)
    (parses' : TypeExpr.parse text' = .ok expr) :
    Imitates leaves (typeOfText ensureModel leaves location text)
      (typeOfText ensureModel' leaves location' text') := by
  unfold typeOfText
  rw [parses, parses']
  exact @imitates_typeOfExpr ensureModel ensureModel' ⟨text, location, leaves⟩
    ⟨text', location', leaves⟩ rfl imitates careful expr

end

/-- Entries that are rewritten are no lists, and lowering the new ones imitates lowering the old
ones, in whatever way models are defined. -/
def Suits (rewrites : Json → Json → Prop) : Prop :=
  ∀ value other, rewrites value other → (∀ items, value ≠ .array items)
    ∧ ∀ (leaves : Entries TypeId) (ensureModel ensureModel' : String → Lowering Unit)
      (location : Location),
      (∀ name, Imitates leaves (ensureModel name) (ensureModel' name)) →
      Careful ensureModel leaves →
      Imitates leaves (typeOfValue ensureModel leaves location value)
        (typeOfValue ensureModel' leaves location other)

section

open Json

variable {rewrites : Json → Json → Prop} {ensureModel ensureModel' : String → Lowering Unit}

/-- An object of the properties that are listed. -/
theorem imitates_objectOf {first second : Lowering (List Property)}
    (keeps : KeepsSound leaves first) (h : Imitates leaves first second) :
    Imitates leaves (first >>= fun properties => interning (Interning.object properties))
      (second >>= fun properties => interning (Interning.object properties)) :=
  h.bind keeps fun _ => .refl _ _

mutual

theorem imitates_typeOfValue (suits : Suits rewrites)
    (imitates : ∀ name, Imitates leaves (ensureModel name) (ensureModel' name))
    (careful : Careful ensureModel leaves) : ∀ (value : Json) {other : Json} (location : Location),
    Rewritten rewrites value other →
    Imitates leaves (typeOfValue ensureModel leaves location value)
      (typeOfValue ensureModel' leaves location other)
  | .null, _, location, h | .bool _, _, location, h | .number _, _, location, h
  | .array _, _, location, h => by
    rw [typeOfValue]
    exact .throw _ _
  | .string text, _, location, h => by
    cases h with
    | here h => exact (suits _ _ h).2 leaves _ _ location imitates careful
    | string =>
      rw [typeOfValue, typeOfValue]
      cases parses : TypeExpr.parse text with
      | ok expr => exact imitates_typeOfText imitates careful _ _ parses parses
      | error error =>
        unfold typeOfText
        rw [parses]
        exact .throw _ _
  | .object [(key, inner)], _, location, h => by
    cases h with
    | here h => exact (suits _ _ h).2 leaves _ _ location imitates careful
    | object h =>
      cases h with
      | cons _ first last =>
      cases last
      have keeps : KeepsSound leaves (typeOfValue ensureModel leaves (location.child key) inner) :=
        fun _ _ _ sound gives => (makes_of_typeOfValue careful inner sound gives).sound
      cases keyForm key with
      | array is =>
        subst is
        rw [typeOfValue_array, typeOfValue_array]
        exact (imitates_typeOfValue suits imitates careful inner _ first).bind keeps
          fun _ => .refl _ _
      | nullable is =>
        subst is
        rw [typeOfValue_nullable, typeOfValue_nullable]
        exact (imitates_typeOfValue suits imitates careful inner _ first).bind keeps
          fun _ => .refl _ _
      | union is =>
        subst is
        cases first with
        | here h =>
          -- Only a list holds the members of a union, and lists are not rewritten.
          rw [typeOfValue_union_of_ne (suits _ _ h).1]
          exact .throw _ _
        | @array items others items_rewritten =>
          rw [typeOfValue_union, typeOfValue_union]
          exact (imitates_typesOfItems suits imitates careful items _ 0 items_rewritten).bind
            (fun _ _ _ sound gives => (precedes_of_typesOfItems careful items sound gives).1.sound)
            fun _ => .refl _ _
        | _ =>
          rw [typeOfValue_union_of_ne (by simp)]
          exact .throw _ _
      | unknown directive unknown =>
        rw [typeOfValue_unknown directive unknown]
        exact .throw _ _
      | name plain =>
        rw [typeOfValue_members (plain_of_name plain inner),
          typeOfValue_members (plain_of_name plain _)]
        exact imitates_objectOf (fun _ _ _ sound gives =>
            (precedes_of_propertiesOfMembers careful [(key, inner)] sound gives).1.sound)
          (imitates_propertiesOfMembers suits imitates careful [(key, inner)] location []
            (.cons key first .nil))
  | .object [], _, location, h => by
    cases h with
    | here h => exact (suits _ _ h).2 leaves _ _ location imitates careful
    | object h =>
      cases h
      rw [typeOfValue_members (by simp), typeOfValue_members (by simp)]
      exact imitates_objectOf (fun _ _ _ sound gives =>
          (precedes_of_propertiesOfMembers careful [] sound gives).1.sound)
        (imitates_propertiesOfMembers suits imitates careful [] location [] .nil)
  | .object ((key, value) :: (key', value') :: rest), _, location, h => by
    cases h with
    | here h => exact (suits _ _ h).2 leaves _ _ location imitates careful
    | object h =>
      cases h with
      | cons _ first more =>
      cases more with
      | cons _ second others =>
      rw [typeOfValue_members (by simp), typeOfValue_members (by simp)]
      exact imitates_objectOf (fun _ _ _ sound gives =>
          (precedes_of_propertiesOfMembers careful _ sound gives).1.sound)
        (imitates_propertiesOfMembers suits imitates careful
          ((key, value) :: (key', value') :: rest) location []
          (.cons key first (.cons key' second others)))

theorem imitates_typesOfItems (suits : Suits rewrites)
    (imitates : ∀ name, Imitates leaves (ensureModel name) (ensureModel' name))
    (careful : Careful ensureModel leaves) : ∀ (items : List Json) {others : List Json}
      (location : Location) (index : Nat), RewrittenItems rewrites items others →
    Imitates leaves (typesOfItems ensureModel leaves location index items)
      (typesOfItems ensureModel' leaves location index others)
  | [], _, location, index, h => by
    cases h
    rw [typesOfItems, typesOfItems]
    exact .refl _ _
  | item :: rest, _, location, index, h => by
    cases h with
    | cons first more =>
      rw [typesOfItems, typesOfItems]
      exact (imitates_typeOfValue suits imitates careful item _ first).bind
        (fun _ _ _ sound gives => (makes_of_typeOfValue careful item sound gives).sound) fun _ =>
          (imitates_typesOfItems suits imitates careful rest location _ more).bind
            (fun _ _ _ sound gives => (precedes_of_typesOfItems careful rest sound gives).1.sound)
            fun _ => .refl _ _

theorem imitates_propertiesOfMembers (suits : Suits rewrites)
    (imitates : ∀ name, Imitates leaves (ensureModel name) (ensureModel' name))
    (careful : Careful ensureModel leaves) : ∀ (members : List (String × Json))
      {others : List (String × Json)} (location : Location) (seen : List String),
    RewrittenMembers rewrites members others →
    Imitates leaves (propertiesOfMembers ensureModel leaves location seen members)
      (propertiesOfMembers ensureModel' leaves location seen others)
  | [], _, location, seen, h => by
    cases h
    rw [propertiesOfMembers, propertiesOfMembers]
    exact .refl _ _
  | (key, value) :: rest, _, location, seen, h => by
    cases h with
    | cons _ first more =>
      cases labelForm key seen with
      | empty empty =>
        rw [propertiesOfMembers_of_empty empty]
        exact .throw _ _
      | taken named taken =>
        rw [propertiesOfMembers_of_taken named taken]
        exact .throw _ _
      | new named new =>
        rw [propertiesOfMembers_of_new named new, propertiesOfMembers_of_new named new]
        exact (imitates_typeOfValue suits imitates careful value _ first).bind
          (fun _ _ _ sound gives => (makes_of_typeOfValue careful value sound gives).sound)
          fun _ => (imitates_propertiesOfMembers suits imitates careful rest location _ more).bind
            (fun _ _ _ sound gives =>
              (precedes_of_propertiesOfMembers careful rest sound gives).1.sound)
            fun _ => .refl _ _

end

end

/-- It is enough to compare both lowerings where models are defined in one way. -/
theorem suits_of_imitates {rewrites : Json → Json → Prop}
    (noList : ∀ value other, rewrites value other → ∀ items, value ≠ .array items)
    (imitates : ∀ value other, rewrites value other →
      ∀ (leaves : Entries TypeId) (ensureModel : String → Lowering Unit) (location : Location),
        Careful ensureModel leaves → Imitates leaves
          (typeOfValue ensureModel leaves location value)
          (typeOfValue ensureModel leaves location other)) : Suits rewrites := by
  refine fun value other h => ⟨noList value other h,
    fun leaves ensureModel ensureModel' location models careful before id after sound gives => ?_⟩
  have nothing : Suits (fun _ _ => False) := nofun
  exact imitates_typeOfValue nothing models careful other location (.refl _ other) sound
    (imitates value other h leaves ensureModel location careful sound gives)

/-! ## Documents -/

section

open Json

variable {rewrites : Json → Json → Prop} {values values' : Entries Json}

/-- A model counts as under way on both sides alike while its value is lowered. -/
theorem imitates_ensureModelStep (suits : Suits rewrites)
    (related : RewrittenMembers rewrites values values')
    {defineOther defineOther' : String → Lowering Unit}
    (imitates : ∀ name, Imitates leaves (defineOther name) (defineOther' name))
    (careful : Careful defineOther leaves) (name : String) :
    Imitates leaves (ensureModelStep values leaves defineOther name)
      (ensureModelStep values' leaves defineOther' name) := by
  rintro before ⟨⟩ after sound h
  rw [gives_ensureModelStep_iff] at h ⊢
  cases declared : before.declared.lookup name with
  | none => simpa only [declared] using h
  | some definition =>
    rcases related.lookup name with ⟨none, none'⟩ | ⟨value, other, found, found', rewritten⟩
    · simpa only [declared, none, none'] using h
    · simp only [declared, found, found'] at h ⊢
      split at h
      next defined =>
        rw [if_pos defined]
        exact h
      next undefined =>
        rw [if_neg undefined]
        obtain ⟨entered, body, middle, gives, defines⟩ := h
        exact ⟨entered, body, middle, imitates_typeOfValue suits imitates careful value _ rewritten
          (sound.withUnderway _) gives, defines⟩

theorem imitates_ensureModel (suits : Suits rewrites)
    (related : RewrittenMembers rewrites values values') : ∀ (levels : Nat) (name : String),
    Imitates leaves (ensureModel values leaves levels name) (ensureModel values' leaves levels name)
  | 0 => imitates_ensureModelStep suits related (fun _ => .refl leaves _)
      fun _ _ _ sound h => precedes_of_pure sound h
  | levels + 1 => imitates_ensureModelStep suits related (imitates_ensureModel suits related levels)
      (careful_ensureModel levels)

theorem imitates_forM {step step' : String → Lowering Unit}
    (imitates : ∀ name, Imitates leaves (step name) (step' name)) (careful : Careful step leaves) :
    ∀ names : List String, Imitates leaves (names.forM step) (names.forM step')
  | [] => .refl leaves _
  | name :: rest => (imitates name).bind
      (fun _ _ _ sound gives => (careful name _ _ sound gives).sound)
      fun _ => imitates_forM imitates careful rest

end

end Lowering

namespace Document

open Lowering

variable {rewrites : Json → Json → Prop} {document other : Document}

theorem lowerAll_of_rewritten (suits : Suits rewrites)
    (rewritten : Document.Rewritten rewrites document other)
    {result : Entries ModelId × Entries TypeId} {after : LoweringState}
    (h : Gives (lowerAll document) .start result after) :
    Gives (lowerAll other) .start result after := by
  obtain ⟨leaves, first, addsLeaves, h⟩ := gives_bind_iff.1 h
  obtain ⟨models, second, addsModels, h⟩ := gives_bind_iff.1 h
  obtain ⟨_, third, declares, h⟩ := gives_bind_iff.1 h
  obtain ⟨_, fourth, ensures, h⟩ := gives_bind_iff.1 h
  have keys : other.models.keys = document.models.keys := rewritten.models.keys_eq
  obtain ⟨sound, _⟩ := sound_of_addLeaves document.leaves sound_start addsLeaves
  obtain ⟨sound, handles⟩ := sound_of_addModels document.models.keys sound addsModels
  obtain ⟨sound, _⟩ := sound_of_declare sound
    (fun model hmodel => (handles model.2).2 (.inr ⟨model, hmodel, rfl⟩)) declares
  unfold lowerAll
  rw [rewritten.leaves, keys]
  exact gives_bind_iff.2 ⟨leaves, first, addsLeaves, gives_bind_iff.2 ⟨models, second, addsModels,
    gives_bind_iff.2 ⟨_, third, declares, gives_bind_iff.2 ⟨_, fourth,
      imitates_forM (imitates_ensureModel suits rewritten.models _) (careful_ensureModel _)
        document.models.keys sound ensures, h⟩⟩⟩⟩

/-- A document lowers to what one lowers to that differs in entries whose lowering it imitates. -/
theorem lower_of_rewritten (suits : Suits rewrites)
    (rewritten : Document.Rewritten rewrites document other) {lowered : Lowered}
    (h : document.lower = .ok lowered) : other.lower = .ok lowered := by
  obtain ⟨result, after, hints, mode, gives, hint, choice, rfl⟩ := lower_eq_ok_iff.1 h
  refine lower_eq_ok_iff.2 ⟨result, after, hints, mode,
    lowerAll_of_rewritten suits rewritten gives, ?_, ?_, ?_⟩
  · rw [← hint, Document.hint, Document.hint, rewritten.hints]
  · rw [← choice, modeChoice, modeChoice, rewritten.mode]
  · rw [rewritten.root]

end Document

end ModelForms
