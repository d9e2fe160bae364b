import ModelForms.Proofs.Document.DefiningModels
import ModelForms.Proofs.Document.Schedules

/-!
# Lowering follows the schedule

While models are lowered, the names that are done are those of the models with a body
(`LoweringState.Finished`).  Lowering a value takes them from one step of its schedule to the next
(`Lowering.follows_typeOfValue`), and defining a model is one such step
(`Lowering.schedules_ensureModel`).  Where a schedule has no end the lowering fails, and it fails
because too many models would be under way only where the schedule has no end.

The induction is the one that shows that lowering is faithful.  What the operands mean has to be
known for it, since that tells which models an operand requires.
-/

namespace ModelForms

/-- The names that are done are those of the models with a body. -/
def LoweringState.Finished (state : LoweringState) (ground : Groundwork) (done : List String) :
    Prop :=
  ∀ definition name, ground.reserved.name? definition = some name →
    (state.catalog.models.isDefined definition = true ↔ name ∈ done)

/-- A model that gets its body is done. -/
theorem LoweringState.Finished.define {ground : Groundwork} {state : LoweringState}
    {done : List String} {definition : ModelId} {name : String}
    (finished : state.Finished ground done)
    (reserved : state.catalog.models.contains definition = true)
    (named : ground.reserved.name? definition = some name) (guard : Guard ModelId) (body : TypeId) :
    ((state.withGuard guard).withBody definition body).Finished ground (name :: done) := by
  intro other otherName otherNamed
  show (state.catalog.models.define definition body).2.isDefined other = true ↔ _
  rw [Definitions.isDefined, Definitions.body?_define reserved, List.mem_cons]
  split
  next same =>
    subst same
    have same : otherName = name := Option.some.inj (otherNamed.symm.trans named)
    simp [same]
  next different =>
    have other : otherName ≠ name := by
      rintro rfl
      exact different (Definitions.eq_of_name?_eq ground.distinct otherNamed named)
    rw [or_iff_right other]
    exact finished _ _ otherNamed

namespace Lowering

open Relation Glossary

variable {α β : Type} {ground : Groundwork} {before : LoweringState} {done : List String}
  {schedule : Option (List String)}

/-- The error says that too many models would be under way. -/
def IsTooDeep (error : DocumentError) : Prop :=
  ∃ name, error = .invalidEntry (modelLocation name) .composedTooDeeply

/-- A lowering keeps to a schedule.  Where it succeeds the schedule has an end, which tells the
models that have a body now, and where it fails because too many models would be under way the
schedule has no end. -/
def Follows (ground : Groundwork) (action : Lowering α) (before : LoweringState)
    (schedule : Option (List String)) : Prop :=
  Settles action before (fun _ after => ∃ done, schedule = some done ∧ after.Finished ground done)
    fun error => IsTooDeep error → schedule = none

theorem follows_pure {a : α} (finished : before.Finished ground done) :
    Follows ground (pure a) before (some done) :=
  settles_pure ⟨done, rfl, finished⟩

theorem follows_throw {error : DocumentError} (other : ¬ IsTooDeep error) :
    Follows ground (throw error : Lowering α) before schedule :=
  settles_throw fun deep => (other deep).elim

theorem Follows.bind {action : Lowering α} {next : α → Lowering β}
    {good : α → LoweringState → Prop} {bad : DocumentError → Prop}
    {more : List String → Option (List String)} (settles : Settles action before good bad)
    (first : Follows ground action before schedule)
    (rest : ∀ result middle done, good result middle → middle.Finished ground done →
      Follows ground (next result) middle (more done)) :
    Follows ground (action >>= next) before (schedule >>= more) := by
  refine (settles.and first).bind ?_ ?_
  · rintro error ⟨_, none⟩ deep
    rw [none deep]
    rfl
  · rintro result middle ⟨made, done, rfl, finished⟩
    exact rest result middle done made finished

/-! ## Steps that define no model -/

/-- A lowering that leaves the models as they are, and fails for none being under way. -/
def IsPlain (action : Lowering α) : Prop :=
  ∀ before, Settles action before
    (fun _ after => after.catalog.models = before.catalog.models) fun error => ¬ IsTooDeep error

theorem IsPlain.follows {action : Lowering α} (plain : IsPlain action)
    (finished : before.Finished ground done) : Follows ground action before (some done) := by
  refine (plain before).imp (fun _ after same => ⟨done, rfl, ?_⟩) fun _ other deep =>
    (other deep).elim
  unfold LoweringState.Finished at finished ⊢
  rwa [same]

theorem isPlain_pure {a : α} : IsPlain (pure a : Lowering α) := fun _ => settles_pure rfl

theorem isPlain_throw {error : DocumentError} (other : ¬ IsTooDeep error) :
    IsPlain (throw error : Lowering α) :=
  fun _ => settles_throw other

theorem IsPlain.bind {action : Lowering α} {next : α → Lowering β} (first : IsPlain action)
    (rest : ∀ a, IsPlain (next a)) : IsPlain (action >>= next) := fun before =>
  (first before).bind (fun _ other => other) fun result middle same =>
    (rest result middle).imp (fun _ _ same' => same'.trans same) fun _ other => other

/-- Nothing is scheduled for what follows. -/
theorem Follows.bind_plain {action : Lowering α} {next : α → Lowering β}
    (first : Follows ground action before schedule) (rest : ∀ a, IsPlain (next a)) :
    Follows ground (action >>= next) before schedule := by
  refine Settles.bind first (fun _ h => h) ?_
  rintro result middle ⟨done, rfl, finished⟩
  exact (rest result).follows finished

theorem isPlain_interning {action : Interning α} : IsPlain (interning action) :=
  fun _ => settles_modifyGet rfl

theorem isPlain_get_bind {next : LoweringState → Lowering α} (rest : ∀ a, IsPlain (next a)) :
    IsPlain (get >>= next) := fun before =>
  settles_get_bind_iff.2 (rest before before)

theorem isPlain_models_bind {next : Definitions → Lowering α} (rest : ∀ a, IsPlain (next a)) :
    IsPlain (models >>= next) := fun before =>
  settles_models_bind_iff.2 (rest before.catalog.models before)

theorem isPlain_composing {compose : Definitions → Interning (Option TypeId)}
    {failure : DocumentError} (other : ¬ IsTooDeep failure) :
    IsPlain (composing compose failure) := by
  refine isPlain_models_bind fun models => isPlain_interning.bind fun outcome => ?_
  cases outcome with
  | none => exact isPlain_throw other
  | some id => exact isPlain_pure

section

variable {site : ExprSite} {name : String}

theorem isPlain_fail {fault : ExprFault} : IsPlain (site.fail fault : Lowering α) :=
  isPlain_throw (by simp [IsTooDeep])

theorem isPlain_partialOf {operand : TypeId} : IsPlain (partialOf site operand) :=
  isPlain_composing (by simp [IsTooDeep])

theorem isPlain_selectionOf {operand : TypeId} {keys : List String} :
    IsPlain (selectionOf site name operand keys) :=
  isPlain_composing (by simp [IsTooDeep])

theorem isPlain_extensionOf {base extra : TypeId} : IsPlain (extensionOf site base extra) :=
  isPlain_composing (by simp [IsTooDeep])

theorem isPlain_lookupName : IsPlain (lookupName site name) := by
  refine isPlain_get_bind fun state => ?_
  split
  next => exact isPlain_interning
  next =>
    split
    next => exact isPlain_pure
    next => exact isPlain_throw (by simp [IsTooDeep])

theorem follows_refuseArguments {count : Nat} :
    Follows ground (refuseArguments site name count : Lowering α) before schedule := by
  unfold refuseArguments
  split <;> exact follows_throw (by simp [IsTooDeep])

theorem isPlain_mapM {step : α → Lowering β} (each : ∀ a, IsPlain (step a)) (list : List α) :
    IsPlain (list.mapM step) := by
  induction list with
  | nil => exact isPlain_pure
  | cons first rest ih =>
    rw [List.mapM_cons]
    exact (each first).bind fun _ => ih.bind fun _ => isPlain_pure

theorem isPlain_keyNames (keys : TypeExpr) : IsPlain (keyNames site keys) := by
  unfold keyNames
  split
  next => exact isPlain_interning.bind fun _ => isPlain_pure
  next => exact isPlain_pure
  next =>
    refine isPlain_mapM (fun member => ?_) _
    split
    next => exact isPlain_interning.bind fun _ => isPlain_pure
    next => exact isPlain_fail
  next => exact isPlain_fail

end

/-! ## Operands -/

/-- Defining a model is a step of a schedule. -/
def Schedules (ground : Groundwork) (ensureModel : String → Lowering Unit)
    (step : List String → String → Option (List String)) (keys : List ModelId)
    (demanded : String → Prop) : Prop :=
  ∀ name before done, before.Faithful ground → before.underway.keys = keys → demanded name →
    name ∈ ground.reserved.names → before.Finished ground done →
    Follows ground (ensureModel name) before (step done name)

section

variable {ensureModel : String → Lowering Unit} {keys : List ModelId} {demanded : String → Prop}
  {step : List String → String → Option (List String)} {id : TypeId}

/-- Following the chain of aliases of an operand defines the models on it one after another. -/
theorem follows_ensureChain (defines : Defines ground ensureModel keys demanded)
    (schedules : Schedules ground ensureModel step keys demanded)
    (short : ¬ ground.glossary.HasLongAliases) :
    ∀ (fuel levels : Nat) {visited : List ModelId} {id : TypeId} {before : LoweringState}
      {done : List String},
      OnChain ground keys demanded before visited id →
      ground.reserved.size + 1 ≤ fuel + visited.length →
      levels + visited.length = Limits.modelDepth + 1 →
      (∀ name, before.catalog.namedTerm id = .reference name →
        (name :: visited.map ground.nameOf).IsChain fun a b => ground.glossary.Alias b a) →
      before.Finished ground done →
      Follows ground (ensureChain ensureModel fuel visited id) before
        ((ground.glossary.aliasesFrom levels (before.catalog.namedTerm id)).foldlM step done)
  | 0, _, _, _, _, _, chain, enough, _, _, _ => by
    have bound := chain.length_le
    omega
  | fuel + 1, levels, visited, id, before, done, chain, enough, counted, linked, finished => by
    cases reference : before.catalog.types.referenced? id with
    | none =>
      have ends : ground.glossary.aliasesFrom levels (before.catalog.namedTerm id) = [] := by
        refine aliasesFrom_of_ne levels fun name is => ?_
        obtain ⟨definition, reference'⟩ := chain.faithful.exists_referenced? chain.known is
        cases reference.symm.trans reference'
      unfold Follows
      rw [ensureChain, settles_get_bind_iff, reference, ends]
      exact follows_pure finished
    | some definition =>
      obtain ⟨name, named, is, demanded⟩ := chain.exists_name reference
      have term := chain.faithful.namedTerm_reference reference
      rw [is] at term
      have links := linked _ term
      by_cases back : definition ∈ visited
      · -- a chain of aliases that comes back never ends
        have cycle := (links.imp fun _ _ h => TransGen.single h).rel_cons
          (List.mem_map.2 ⟨definition, back, is⟩)
        exact absurd (hasLongAliases_of_cycle (transGen_swap.1 cycle)) short
      · cases levels with
        | zero =>
          refine absurd ⟨(visited.map ground.nameOf).reverse, ?_,
            List.isChain_reverse.2 links.tail⟩ short
          rw [List.length_reverse, List.length_map]
          omega
        | succ levels =>
          have stepping := schedules name before done chain.faithful chain.same demanded
            (Definitions.mem_names_of_name? (chain.faithful.nameOf?_eq definition ▸ named)) finished
          refine settles_ensureChain_onwards reference back named
            (((defines name before chain.faithful chain.same demanded).and stepping).imp
              (fun _ _ stepped => stepped) ?_) ?_
          · rintro error ⟨_, none⟩ deep
            rw [term, aliasesFrom, List.foldlM_cons, none deep]
            rfl
          · rintro middle ⟨⟨advances, defined⟩, later, isLater, finished⟩
            rw [chain.faithful.nameOf?_eq] at named
            obtain ⟨body, defined⟩ := defined definition named
            have means := advances.faithful.bodies definition body defined
            rw [is] at means
            refine ⟨body, defined, ?_⟩
            rw [term, aliasesFrom_reference levels means, List.foldlM_cons, isLater]
            refine follows_ensureChain defines schedules short fuel levels
              (chain.onto reference back advances defined) ?_ ?_ (fun next reaches => ?_) finished
            · rw [List.length_cons]
              omega
            · rw [List.length_cons]
              omega
            · rw [reaches] at means
              rw [List.map_cons, is]
              exact List.isChain_cons_cons.2 ⟨means, links⟩

/-- Preparing an operand defines the models that it requires. -/
theorem follows_prepareOperand (defines : Defines ground ensureModel keys demanded)
    (schedules : Schedules ground ensureModel step keys demanded)
    (short : ¬ ground.glossary.HasLongAliases) {operand : TypeExpr} {origin : LoweringState}
    (made : Denotes ground origin (fun listing => ground.glossary.exprMeaning listing operand) id
      before)
    (same : before.underway.keys = keys)
    (demands : ∀ name, ground.glossary.Names operand name → demanded name)
    (finished : before.Finished ground done) :
    Follows ground (prepareOperand ensureModel id) before
      ((ground.glossary.requiredBy operand).foldlM step done) := by
  unfold prepareOperand Follows
  rw [settles_models_bind_iff, requiredBy_eq made.means]
  exact follows_ensureChain defines schedules short _ _ (.start made same demands)
    (by simp [made.faithful.size_eq]) rfl (fun _ _ => .singleton _) finished

/-- An operand is lowered and prepared, and then something follows. -/
theorem follows_operand {action : Lowering TypeId} {next : TypeId → Lowering β}
    {operand : TypeExpr} {names : List String} (more : List String)
    (defines : Defines ground ensureModel keys demanded)
    (schedules : Schedules ground ensureModel step keys demanded)
    (short : ¬ ground.glossary.HasLongAliases) (same : before.underway.keys = keys)
    (demands : ∀ name, ground.glossary.Names operand name → demanded name)
    (lowers : Settles action before
      (Denotes ground before fun listing => ground.glossary.exprMeaning listing operand)
      (ground.glossary.Fails fun listing => ground.glossary.exprMeaning listing operand))
    (follows : Follows ground action before (names.foldlM step done))
    (rest : ∀ id middle done, Denotes ground before
        (fun listing => ground.glossary.exprMeaning listing operand) id middle →
      middle.Prepared ground id → middle.Finished ground done →
      Follows ground (next id) middle (more.foldlM step done)) :
    Follows ground (action >>= fun id => prepareOperand ensureModel id >>= fun _ => next id) before
      ((names ++ (ground.glossary.requiredBy operand ++ more)).foldlM step done) := by
  rw [List.foldlM_append]
  refine Follows.bind lowers follows fun id middle done made finished => ?_
  rw [List.foldlM_append]
  refine Follows.bind (settles_prepareOperand defines made (made.keys.trans same) demands)
    (follows_prepareOperand defines schedules short made (made.keys.trans same) demands finished) ?_
  rintro _ after done ⟨advances, prepared⟩ finished
  refine rest id after done ⟨made.toAdvances.trans advances, advances.types.knows made.knows, ?_⟩
    prepared finished
  rw [made.faithful.namedTerm_eq advances made.knows]
  exact made.means

/-- Something is lowered, and then more. -/
theorem follows_cons {γ : Type} {first : Lowering α} {others : Lowering β} {f : α → β → γ}
    {names more : List String} {good : α → LoweringState → Prop} {bad : DocumentError → Prop}
    (settles : Settles first before good bad)
    (follows : Follows ground first before (names.foldlM step done))
    (rest : ∀ a middle done, good a middle → middle.Finished ground done →
      Follows ground others middle (more.foldlM step done)) :
    Follows ground (first >>= fun a => others >>= fun b => pure (f a b)) before
      ((names ++ more).foldlM step done) := by
  rw [List.foldlM_append]
  exact Follows.bind settles follows fun a middle done made finished =>
    (rest a middle done made finished).bind_plain fun _ => isPlain_pure

end

/-! ## Type expressions -/

section

variable {ensureModel : String → Lowering Unit} {keys : List ModelId} {demanded : String → Prop}
  {step : List String → String → Option (List String)} {site : ExprSite}

mutual

theorem follows_typeOfExpr (defines : Defines ground ensureModel keys demanded)
    (schedules : Schedules ground ensureModel step keys demanded)
    (short : ¬ ground.glossary.HasLongAliases) (sameLeaves : site.leaves = ground.leaves) :
    ∀ (expr : TypeExpr) {before : LoweringState} {done : List String}, Grammar.Proper expr →
    before.Faithful ground → before.underway.keys = keys →
    Demands ground (operandsOfExpr expr) demanded → before.Finished ground done →
    Follows ground (typeOfExpr ensureModel site expr) before
      ((ground.glossary.requirementsOfExpr expr).foldlM step done)
  | .keyword _, _, _, _, _, _, _, finished => by
    rw [typeOfExpr, requirementsOfExpr]
    exact follows_pure finished
  | .string _, _, _, _, _, _, _, finished | .number _, _, _, _, _, _, _, finished
  | .boolean _, _, _, _, _, _, _, finished => by
    rw [typeOfExpr, requirementsOfExpr]
    exact isPlain_interning.follows finished
  | .array element, _, _, proper, faithful, same, demands, finished => by
    cases proper with
    | array proper =>
      rw [typeOfExpr, requirementsOfExpr]
      exact (follows_typeOfExpr defines schedules short sameLeaves element proper faithful same
        demands finished).bind_plain fun _ => isPlain_interning
  | .union members, _, _, proper, faithful, same, demands, finished => by
    cases proper with
    | union _ proper =>
      rw [typeOfExpr, requirementsOfExpr]
      exact (follows_typesOfExprs defines schedules short sameLeaves members proper faithful same
        demands finished).bind_plain fun _ => isPlain_interning
  | .intersection [], _, _, proper, _, _, _, _ => by
    cases proper with
    | intersection several => simp at several
  | .intersection (first :: rest), _, _, proper, faithful, same, demands, finished => by
    cases proper with
    | intersection _ proper =>
      obtain ⟨properFirst, proper⟩ := List.forall_mem_cons.1 proper
      simp only [operandsOfExpr] at demands
      obtain ⟨demandsFirst, insideFirst, demandsRest⟩ := demands_operands_cons_iff.1 demands
      rw [typeOfExpr, requirementsOfExpr, requirementsOfOperands]
      refine follows_operand _ defines schedules short same demandsFirst
        (settles_typeOfExpr defines sameLeaves first properFirst faithful same insideFirst)
        (follows_typeOfExpr defines schedules short sameLeaves first properFirst faithful same
          insideFirst finished) fun base middle done made prepared finished => ?_
      exact follows_intersectionOf defines schedules short sameLeaves rest proper made.faithful
        (made.keys.trans same) made.knows prepared demandsRest finished
  | .reference name [], _, _, _, _, _, _, finished => by
    rw [typeOfExpr]
    unfold requirementsOfExpr
    split
    next => exact isPlain_fail.follows finished
    next => exact isPlain_lookupName.follows finished
  | .reference name [operand], _, done, proper, faithful, same, demands, finished => by
    cases proper with
    | reference proper =>
      have proper := proper operand (List.mem_singleton_self operand)
      simp only [operandsOfExpr] at demands
      rw [typeOfExpr, requirementsOfExpr]
      split
      next is =>
        subst is
        rw [if_neg (by decide)] at demands ⊢
        exact (follows_typeOfExpr defines schedules short sameLeaves operand proper faithful same
          demands finished).bind_plain fun _ => isPlain_interning
      next notArray =>
        split
        next is =>
          subst is
          rw [if_pos rfl] at demands
          obtain ⟨demandsOperand, demands⟩ := demands_cons_iff.1 demands
          rw [← List.append_nil (ground.glossary.requiredBy operand)]
          exact follows_operand [] defines schedules short same demandsOperand
            (settles_typeOfExpr defines sameLeaves operand proper faithful same demands)
            (follows_typeOfExpr defines schedules short sameLeaves operand proper faithful same
              demands finished)
            fun id middle done made prepared finished => isPlain_partialOf.follows finished
        next => exact follows_refuseArguments
  | .reference name [operand, keyed], _, done, proper, faithful, same, demands, finished => by
    cases proper with
    | reference proper =>
      have proper := proper operand List.mem_cons_self
      simp only [operandsOfExpr] at demands
      obtain ⟨demandsOperand, demands⟩ := demands_cons_iff.1 demands
      rw [typeOfExpr, requirementsOfExpr]
      split
      next selects =>
        rw [← List.append_nil (ground.glossary.requiredBy operand)]
        exact follows_operand [] defines schedules short same demandsOperand
          (settles_typeOfExpr defines sameLeaves operand proper faithful same demands)
          (follows_typeOfExpr defines schedules short sameLeaves operand proper faithful same
            demands finished) fun id middle done made prepared finished =>
          ((isPlain_keyNames keyed).bind fun _ => isPlain_selectionOf).follows finished
      next => exact follows_refuseArguments
  | .reference name (_ :: _ :: _ :: _), _, _, _, _, _, _, _ => by
    rw [typeOfExpr]
    · exact follows_refuseArguments
    all_goals simp

theorem follows_typesOfExprs (defines : Defines ground ensureModel keys demanded)
    (schedules : Schedules ground ensureModel step keys demanded)
    (short : ¬ ground.glossary.HasLongAliases) (sameLeaves : site.leaves = ground.leaves) :
    ∀ (exprs : List TypeExpr) {before : LoweringState} {done : List String},
    (∀ expr ∈ exprs, Grammar.Proper expr) → before.Faithful ground →
    before.underway.keys = keys → Demands ground (operandsOfExprs exprs) demanded →
    before.Finished ground done →
    Follows ground (typesOfExprs ensureModel site exprs) before
      ((ground.glossary.requirementsOfExprs exprs).foldlM step done)
  | [], _, _, _, _, _, _, finished => by
    rw [typesOfExprs, requirementsOfExprs]
    exact follows_pure finished
  | expr :: rest, _, _, proper, faithful, same, demands, finished => by
    obtain ⟨properFirst, proper⟩ := List.forall_mem_cons.1 proper
    rw [operandsOfExprs] at demands
    obtain ⟨demandsFirst, demandsRest⟩ := demands_append_iff.1 demands
    rw [typesOfExprs, requirementsOfExprs]
    exact follows_cons (settles_typeOfExpr defines sameLeaves expr properFirst faithful same
        demandsFirst)
      (follows_typeOfExpr defines schedules short sameLeaves expr properFirst faithful same
        demandsFirst finished) fun id middle done made finished =>
      follows_typesOfExprs defines schedules short sameLeaves rest proper made.faithful
        (made.keys.trans same) demandsRest finished

theorem follows_intersectionOf (defines : Defines ground ensureModel keys demanded)
    (schedules : Schedules ground ensureModel step keys demanded)
    (short : ¬ ground.glossary.HasLongAliases) (sameLeaves : site.leaves = ground.leaves) :
    ∀ (exprs : List TypeExpr) {base : TypeId} {before : LoweringState} {done : List String},
    (∀ expr ∈ exprs, Grammar.Proper expr) → before.Faithful ground →
    before.underway.keys = keys → before.catalog.types.Knows base → before.Prepared ground base →
    Demands ground (exprs ++ operandsOfExprs exprs) demanded → before.Finished ground done →
    Follows ground (intersectionOf ensureModel site base exprs) before
      ((ground.glossary.requirementsOfOperands exprs).foldlM step done)
  | [], _, _, _, _, _, _, _, _, _, finished => by
    rw [intersectionOf, requirementsOfOperands]
    exact follows_pure finished
  | expr :: rest, base, _, _, proper, faithful, same, known, prepared, demands, finished => by
    obtain ⟨properFirst, proper⟩ := List.forall_mem_cons.1 proper
    obtain ⟨demandsFirst, insideFirst, demandsRest⟩ := demands_operands_cons_iff.1 demands
    rw [intersectionOf, requirementsOfOperands]
    refine follows_operand _ defines schedules short same demandsFirst
      (settles_typeOfExpr defines sameLeaves expr properFirst faithful same insideFirst)
      (follows_typeOfExpr defines schedules short sameLeaves expr properFirst faithful same
        insideFirst finished) fun extra middle done made preparedExtra finished => ?_
    refine ((settles_extensionOf made.faithful (made.types.knows known)
      (prepared.advances faithful known made.toAdvances) made.knows preparedExtra).and
        (isPlain_extensionOf.follows finished)).bind (fun _ h deep => ?_) ?_
    · cases h.2 deep
    · rintro merged later ⟨composed, _, is, finished⟩
      cases is
      obtain ⟨_, _, _, _, object⟩ := yields_mergedMeaning_iff.1 composed.means
      exact follows_intersectionOf defines schedules short sameLeaves rest proper composed.faithful
        (composed.keys.trans (made.keys.trans same)) composed.knows
        (composed.faithful.prepared_of_namedTerm composed.knows object) demandsRest finished

end

/-! ## Values -/

theorem follows_typeOfText (defines : Defines ground ensureModel keys demanded)
    (schedules : Schedules ground ensureModel step keys demanded)
    (short : ¬ ground.glossary.HasLongAliases) {location : Location} {text : String}
    (faithful : before.Faithful ground) (same : before.underway.keys = keys)
    (demands : Demands ground (operandsOfValue (.string text)) demanded)
    (finished : before.Finished ground done) :
    Follows ground (typeOfText ensureModel ground.leaves location text) before
      ((ground.glossary.requirementsOfValue (.string text)).foldlM step done) := by
  unfold operandsOfValue at demands
  unfold typeOfText requirementsOfValue
  cases parses : TypeExpr.parse text with
  | error error => exact follows_throw (by simp [IsTooDeep])
  | ok expr =>
    rw [parses] at demands
    exact follows_typeOfExpr defines schedules short rfl expr (TypeExpr.proper_of_parse parses)
      faithful same demands finished

mutual

/-- Lowering a value defines the models that it requires, in order. -/
theorem follows_typeOfValue (defines : Defines ground ensureModel keys demanded)
    (schedules : Schedules ground ensureModel step keys demanded)
    (short : ¬ ground.glossary.HasLongAliases) :
    ∀ (value : Json) {location : Location} {before : LoweringState} {done : List String},
    before.Faithful ground → before.underway.keys = keys →
    Demands ground (operandsOfValue value) demanded → before.Finished ground done →
    Follows ground (typeOfValue ensureModel ground.leaves location value) before
      ((ground.glossary.requirementsOfValue value).foldlM step done)
  | .null, _, _, _, _, _, _, _ | .bool _, _, _, _, _, _, _, _ | .number _, _, _, _, _, _, _, _
  | .array _, _, _, _, _, _, _, _ => by
    rw [typeOfValue]
    exact follows_throw (by simp [IsTooDeep])
  | .string text, _, _, _, faithful, same, demands, finished => by
    rw [typeOfValue]
    exact follows_typeOfText defines schedules short faithful same demands finished
  | .object [], _, _, _, faithful, same, demands, finished => by
    unfold operandsOfValue at demands
    unfold requirementsOfValue
    rw [typeOfValue_members (by simp)]
    exact (follows_propertiesOfMembers defines schedules short [] faithful same demands
      finished).bind_plain fun _ => isPlain_interning
  | .object [(key, inner)], _, _, _, faithful, same, demands, finished => by
    unfold operandsOfValue at demands
    unfold requirementsOfValue
    have inside : Demands ground (operandsOfValue inner) demanded := by
      unfold operandsOfMembers at demands
      exact (demands_append_iff.1 demands).1
    have alone : ground.glossary.requirementsOfMembers [(key, inner)]
        = ground.glossary.requirementsOfValue inner := by
      simp [requirementsOfMembers]
    cases keyForm key with
    | array is =>
      subst is
      rw [typeOfValue_array, alone]
      exact (follows_typeOfValue defines schedules short inner faithful same inside
        finished).bind_plain fun _ => isPlain_interning
    | nullable is =>
      subst is
      rw [typeOfValue_nullable, alone]
      exact (follows_typeOfValue defines schedules short inner faithful same inside
        finished).bind_plain fun _ => isPlain_interning
    | union is =>
      subst is
      match inner with
      | .array items =>
        unfold operandsOfValue at inside
        rw [typeOfValue_union, alone, requirementsOfValue]
        exact (follows_typesOfItems defines schedules short items faithful same inside
          finished).bind_plain fun _ => isPlain_interning
      | .null | .bool _ | .number _ | .string _ | .object _ =>
        rw [typeOfValue_union_of_ne (by simp)]
        exact follows_throw (by simp [IsTooDeep])
    | unknown directive unknown =>
      rw [typeOfValue_unknown directive unknown]
      exact follows_throw (by simp [IsTooDeep])
    | name plain =>
      rw [typeOfValue_members (plain_of_name plain inner)]
      exact (follows_propertiesOfMembers defines schedules short [(key, inner)] faithful same
        demands finished).bind_plain fun _ => isPlain_interning
  | .object (first :: second :: rest), _, _, _, faithful, same, demands, finished => by
    unfold operandsOfValue at demands
    unfold requirementsOfValue
    rw [typeOfValue_members (by simp)]
    exact (follows_propertiesOfMembers defines schedules short (first :: second :: rest) faithful
      same demands finished).bind_plain fun _ => isPlain_interning

theorem follows_typesOfItems (defines : Defines ground ensureModel keys demanded)
    (schedules : Schedules ground ensureModel step keys demanded)
    (short : ¬ ground.glossary.HasLongAliases) :
    ∀ (items : List Json) {location : Location} {index : Nat} {before : LoweringState}
      {done : List String}, before.Faithful ground → before.underway.keys = keys →
    Demands ground (operandsOfItems items) demanded → before.Finished ground done →
    Follows ground (typesOfItems ensureModel ground.leaves location index items) before
      ((ground.glossary.requirementsOfItems items).foldlM step done)
  | [], _, _, _, _, _, _, _, finished => by
    rw [typesOfItems]
    exact follows_pure finished
  | item :: rest, _, _, _, _, faithful, same, demands, finished => by
    unfold operandsOfItems at demands
    unfold requirementsOfItems
    obtain ⟨demandsFirst, demandsRest⟩ := demands_append_iff.1 demands
    rw [typesOfItems]
    exact follows_cons (settles_typeOfValue defines item faithful same demandsFirst)
      (follows_typeOfValue defines schedules short item faithful same demandsFirst finished)
      fun id middle done made finished => follows_typesOfItems defines schedules short rest
        made.faithful (made.keys.trans same) demandsRest finished

theorem follows_propertiesOfMembers (defines : Defines ground ensureModel keys demanded)
    (schedules : Schedules ground ensureModel step keys demanded)
    (short : ¬ ground.glossary.HasLongAliases) :
    ∀ (members : List (String × Json)) {location : Location} {seen : List String}
      {before : LoweringState} {done : List String}, before.Faithful ground →
    before.underway.keys = keys → Demands ground (operandsOfMembers members) demanded →
    before.Finished ground done →
    Follows ground (propertiesOfMembers ensureModel ground.leaves location seen members) before
      ((ground.glossary.requirementsOfMembers members).foldlM step done)
  | [], _, _, _, _, _, _, _, finished => by
    rw [propertiesOfMembers]
    exact follows_pure finished
  | (key, value) :: rest, _, seen, _, _, faithful, same, demands, finished => by
    unfold operandsOfMembers at demands
    unfold requirementsOfMembers
    obtain ⟨demandsFirst, demandsRest⟩ := demands_append_iff.1 demands
    cases labelForm key seen with
    | empty empty =>
      rw [propertiesOfMembers_of_empty empty]
      exact follows_throw (by simp [IsTooDeep])
    | taken named taken =>
      rw [propertiesOfMembers_of_taken named taken]
      exact follows_throw (by simp [IsTooDeep])
    | new named new =>
      rw [propertiesOfMembers_of_new named new]
      exact follows_cons (settles_typeOfValue defines value faithful same demandsFirst)
        (follows_typeOfValue defines schedules short value faithful same demandsFirst finished)
        fun id middle done made finished => follows_propertiesOfMembers defines schedules short
          rest made.faithful (made.keys.trans same) demandsRest finished

end

end

/-! ## Models -/

/-- A model that is not done is finished after those that it requires. -/
theorem schedules_ensureModelStep {values : Entries Json} {keys : List ModelId}
    {defineOther : String → Lowering Unit}
    (same : ∀ name, ground.glossary.valueOf name = values.lookup name)
    (short : ¬ ground.glossary.HasLongAliases) (few : ¬ ground.glossary.IsCrowded)
    (acyclic : ∀ name, ¬ TransGen ground.glossary.ComposedFrom name name)
    (others : ∀ definition, keys.length < Limits.modelDepth →
      Defines ground defineOther (definition :: keys) (ground.Next (definition :: keys)))
    (schedules : ∀ definition, keys.length < Limits.modelDepth →
      Schedules ground defineOther
        (finish ground.glossary.requirementsOf (Limits.modelDepth - (keys.length + 1)))
        (definition :: keys) (ground.Next (definition :: keys))) :
    Schedules ground (ensureModelStep values ground.leaves defineOther)
      (finish ground.glossary.requirementsOf (Limits.modelDepth - keys.length)) keys
      (ground.Next keys) := by
  rintro name before done faithful rfl next known finished
  obtain ⟨value, is⟩ := Option.isSome_iff_exists.1 ((ground.models name).1 known)
  obtain ⟨definition, found⟩ := Definitions.exists_find?_of_mem (faithful.names ▸ known)
  have reserved := Definitions.contains_of_find? found
  have named := Definitions.name?_eq_some_of_find? found
  rw [faithful.name?_eq] at named
  have called := faithful.nameOf_of_find? found
  have next : ground.Next before.underway.keys (ground.nameOf definition) := called ▸ next
  unfold Follows
  rw [settles_ensureModelStep_iff, faithful.lookup_declared, found, ← same, is]
  simp only
  split
  next defined =>
    rw [finish_of_mem ((finished definition name named).1 defined)]
    exact ⟨done, rfl, finished⟩
  next undefined =>
    have new : name ∉ done := mt (finished definition name named).2 undefined
    have undefined : before.catalog.models.body? definition = none := by
      simpa [Definitions.isDefined] using undefined
    cases admission : (before.underway.enter definition).1 with
    | cycle => exact fun deep => by simp [IsTooDeep] at deep
    | tooDeep =>
      have full := Guard.maxDepth_le_of_tooDeep admission
      rw [faithful.tracks.maxDepth, Guard.depth] at full
      rw [Nat.sub_eq_zero_of_le full, finish_zero new]
      exact fun _ => rfl
    | tooMany =>
      have entered : definition ∉ before.underway.keys := fun entered =>
        acyclic _ (faithful.tracks.cycle next entered)
      exact absurd (faithful.tracks.isCrowded_of_attempts faithful.names reserved undefined entered
        (Guard.maxAttempts_lt_of_tooMany admission)) few
    | entered =>
      have keys := Guard.keys_enter_of_eq admission
      have tracks := faithful.tracks.enter next reserved undefined admission
      have room : before.underway.keys.length < Limits.modelDepth :=
        faithful.tracks.maxDepth ▸ (Guard.room_of_enter admission).1
      have demands : Demands ground (operandsOfValue value)
          (ground.Next (definition :: before.underway.keys)) := by
        intro operand mem name names innermost first
        cases first
        exact ⟨value, called ▸ is, operand, mem, names⟩
      have requires : ground.glossary.requirementsOf name
          = ground.glossary.requirementsOfValue value := by
        rw [requirementsOf, is, Option.elim_some]
      rw [show Limits.modelDepth - before.underway.keys.length
        = Limits.modelDepth - (before.underway.keys.length + 1) + 1 by omega, finish_succ new,
        requires]
      refine ((settles_typeOfValue (others definition room) value (faithful.withGuard tracks) keys
        demands).and (follows_typeOfValue (others definition room) (schedules definition room) short
          value (faithful.withGuard tracks) keys demands finished)).imp ?_ ?_
      · rintro id after ⟨made, done, isDone, finished⟩
        refine settles_modifyGet ⟨name :: done, ?_, ?_⟩
        · rw [isDone]
          rfl
        · refine finished.define (made.faithful.tracks.reserved definition ?_) named _ id
          rw [made.keys]
          exact keys ▸ List.mem_cons_self
      · rintro error ⟨_, none⟩ deep
        rw [none deep]
        rfl

end Lowering

end ModelForms
