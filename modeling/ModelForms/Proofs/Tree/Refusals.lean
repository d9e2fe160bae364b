import ModelForms.Proofs.Tree.Failures
import ModelForms.Proofs.Tree.Visits

/-!
# What expansions refuse

`Catalog.Refuses` gives the reason for each error of an expansion: the position that the error
names is one that the expansion gets to, and this is what stands there.  The reasons speak of the
models as they were at the start, and no guard and no counter occurs in them.

An expansion fails for such a reason only (`Expansion.justifies_node`).  The invariant is that of
all models which the guard holds, a group lies around the position; each member of a group and the
elements of an array keep it.

So an error about a model that contains itself is no false alarm.  A group for the model lies around
the position that the error names, and there is no finite tree for the root
(`DerivedForm.not_expands_of_cyclicModel`).
-/

namespace ModelForms

namespace Catalog

/-- What an error is about stands at a position that an expansion gets to from a root. -/
inductive Refuses (catalog : Catalog) (root : TypeId) (rootHint : Hint) : DerivationError → Prop
  | unresolved {path : FieldPath} {declared : TypeId} {hint : Hint} {definition : ModelId}
      (visits : catalog.Visits root rootHint path.steps declared hint)
      (shape : catalog.shape declared = .unresolved definition) :
      Refuses catalog root rootHint
        (.unresolvedModel (catalog.models.describe definition) path)
  | unplanned {path : FieldPath} {declared : TypeId} {hint : Hint} {kind : NodeKind}
      {found : String} (visits : catalog.Visits root rootHint path.steps declared hint)
      (asked : hint.kind? = some kind)
      (noPlan : NodePlan.ofClass? (catalog.shape declared) (some kind) = none) :
      Refuses catalog root rootHint (.hintMismatch path kind found)
  | strange {path : FieldPath} {declared : TypeId} {hint : Hint} {properties : List Property}
      {field : String} (visits : catalog.Visits root rootHint path.steps declared hint)
      (group : NodePlan.ofClass? (catalog.shape declared) hint.kind? = some (.group properties))
      (strange : Expansion.strangeField? properties hint = some field) :
      Refuses catalog root rootHint (.unknownHintField path field)
  | cyclic {path : FieldPath} {declared : TypeId} {hint : Hint} {properties : List Property}
      {definition : ModelId} (visits : catalog.Visits root rootHint path.steps declared hint)
      (group : NodePlan.ofClass? (catalog.shape declared) hint.kind? = some (.group properties))
      (named : catalog.namedModel? declared = some definition)
      (around : catalog.ExpandedAround root rootHint path.steps declared hint definition)
      (undescribed : hint.describesBelow = false) :
      Refuses catalog root rootHint (.cyclicModel (catalog.models.describe definition) path)
  | tooDeep {path : FieldPath} {declared : TypeId} {hint : Hint} {limit : Nat}
      (visits : catalog.Visits root rootHint path.steps declared hint) :
      Refuses catalog root rootHint (.tooDeep path limit)

theorem Refuses.of_plan {catalog : Catalog} {later : TypeTable} {root declared stripped : TypeId}
    {rootHint hint : Hint} {path : FieldPath} {error : DerivationError}
    (visits : catalog.Visits root rootHint path.steps declared hint)
    (class_eq : (⟨later, catalog.models⟩ : Catalog).classify stripped = catalog.shape declared)
    (h : (⟨later, catalog.models⟩ : Catalog).plan stripped hint path = .error error) :
    catalog.Refuses root rootHint error := by
  unfold plan at h
  split at h
  next => cases h
  next notControl =>
    rw [class_eq] at h
    cases shape : catalog.shape declared with
    | unresolved definition =>
      rw [shape] at h
      cases h
      exact .unresolved visits shape
    | _ =>
      rw [shape] at h
      cases asked : hint.kind? with
      | none =>
        rw [asked] at h
        cases h
      | some kind =>
        rw [asked] at h notControl
        cases kind with
        | control => exact absurd rfl notControl
        | group | array =>
          cases h
          all_goals exact .unplanned visits asked (by rw [shape]; rfl)

end Catalog

namespace Expansion

/-- A state that an expansion over some types comes to. -/
structure Sound (expansion : Expansion) (types : TypeTable) (state : ExpansionState) : Prop
    extends state.Ready where
  wellFormed : (expansion.upon state.types).WellFormed
  grows : types.GrowsTo state.types

/-- A group for each model that is being expanded lies around a position. -/
def Within (catalog : Catalog) (root : TypeId) (rootHint : Hint) (keys : List ModelId)
    (path : FieldPath) (declared : TypeId) (hint : Hint) : Prop :=
  ∀ definition ∈ keys, catalog.ExpandedAround root rootHint path.steps declared hint definition

/-- Nodes are refused for reasons that are there at the start. -/
def Justifies (expansion : Expansion) (types : TypeTable) (root : TypeId) (rootHint : Hint)
    (below : Maker) : Prop :=
  ∀ ⦃path : FieldPath⦄ ⦃declared : TypeId⦄ ⦃hint : Hint⦄ ⦃nullable : Bool⦄
    ⦃state : ExpansionState⦄ ⦃error : DerivationError⦄, expansion.Sound types state →
    (expansion.upon types).Visits root rootHint path.steps declared hint →
    Within (expansion.upon types) root rootHint state.guard.keys path declared hint →
    Fails (below path declared hint nullable) state error →
    (expansion.upon types).Refuses root rootHint error

section

variable {expansion : Expansion} {types : TypeTable} {root : TypeId} {rootHint : Hint}
  {below : Maker} {path : FieldPath} {declared : TypeId} {hint : Hint} {state : ExpansionState}
  {error : DerivationError} {properties : List Property}

theorem Sound.withGuard (sound : expansion.Sound types state) {guard : Guard ModelId}
    (attempts : guard.attempts ≤ guard.maxAttempts) (counted : guard.maxAttempts < Guard.maxCount) :
    expansion.Sound types (state.withGuard guard) :=
  ⟨⟨sound.level, attempts, counted⟩, sound.wellFormed, sound.grows⟩

theorem Sound.deeper (sound : expansion.Sound types state)
    (room : state.depth.level < state.depth.maxLevel) : expansion.Sound types state.deeper :=
  ⟨⟨room, sound.attempts, sound.counted⟩, sound.wellFormed, sound.grows⟩

theorem Sound.withTypes (sound : expansion.Sound types state) {later : TypeTable}
    (wf : (expansion.upon later).WellFormed) (grows : state.types.GrowsTo later) :
    expansion.Sound types (state.withTypes later) :=
  ⟨sound.toReady.withTypes later, wf, sound.grows.trans grows⟩

theorem Within.field {keys : List ModelId}
    (within : Within (expansion.upon types) root rootHint keys path declared hint)
    (group : NodePlan.ofClass? ((expansion.upon types).shape declared) hint.kind?
      = some (.group properties)) {p : Property} (mem : p ∈ properties) :
    Within (expansion.upon types) root rootHint keys (path.field p.name) p.type
      (hint.field p.name) :=
  fun definition entered => (within definition entered).field group mem

/-- The nodes of the members are made in states that the nodes before them leave, with the same
models entered. -/
theorem Justifies.members (wf : (expansion.upon types).WellFormed) (known : types.Knows root)
    (follows : expansion.Follows below)
    (justifies : expansion.Justifies types root rootHint below)
    (sound : expansion.Sound types state)
    (visits : ∀ p ∈ properties, (expansion.upon types).Visits root rootHint
      (path.field p.name).steps p.type (hint.field p.name))
    (within : ∀ p ∈ properties, Within (expansion.upon types) root rootHint state.guard.keys
      (path.field p.name) p.type (hint.field p.name))
    (h : Fails (expansion.members below path hint properties) state error) :
    (expansion.upon types).Refuses root rootHint error := by
  induction properties generalizing state with
  | nil => exact absurd h not_fails_pure
  | cons p rest ih =>
    have visitsFirst := visits p List.mem_cons_self
    rcases (fails_members_cons_iff rfl).1 h with failed | ⟨node, middle, made, failed⟩
    · exact justifies sound visitsFirst (within p List.mem_cons_self) failed
    · obtain ⟨named, later, expands, fits, rfl⟩ := follows sound.toReady made
      have settled := expands.settles sound.wellFormed
        (sound.grows.knows (visitsFirst.knows wf known))
      have soundNext : expansion.Sound types (state.advance later named) :=
        ⟨sound.toReady.advance fits, settled.wellFormed, sound.grows.trans settled.adds.growsTo⟩
      exact ih soundNext (fun q hq => visits q (List.mem_cons_of_mem p hq))
        (fun q hq => within q (List.mem_cons_of_mem p hq)) failed

theorem Justifies.group (wf : (expansion.upon types).WellFormed) (known : types.Knows root)
    (follows : expansion.Follows below)
    (justifies : expansion.Justifies types root rootHint below)
    (sound : expansion.Sound types state)
    (visits : (expansion.upon types).Visits root rootHint path.steps declared hint)
    (group : NodePlan.ofClass? ((expansion.upon types).shape declared) hint.kind?
      = some (.group properties))
    (within : ∀ p ∈ properties, Within (expansion.upon types) root rootHint state.guard.keys
      (path.field p.name) p.type (hint.field p.name))
    (h : Fails (expansion.group below path hint properties) state error) :
    (expansion.upon types).Refuses root rootHint error := by
  unfold Expansion.group at h
  split at h
  next field strange =>
    cases fails_throw_iff.1 h
    exact .strange visits group strange
  next =>
    rcases fails_bind_iff.1 h with failed | ⟨_, _, _, failed⟩
    · exact justifies.members wf known follows sound (fun p hp => .field visits group hp) within
        failed
    · exact absurd failed not_fails_pure

/-- Around the members of a group lies the group too, if its model is entered for them. -/
theorem Justifies.withinModel (wf : (expansion.upon types).WellFormed) (known : types.Knows root)
    (follows : expansion.Follows below)
    (justifies : expansion.Justifies types root rootHint below)
    (sound : expansion.Sound types state)
    (visits : (expansion.upon types).Visits root rootHint path.steps declared hint)
    (group : NodePlan.ofClass? ((expansion.upon types).shape declared) hint.kind?
      = some (.group properties))
    (within : Within (expansion.upon types) root rootHint state.guard.keys path declared hint)
    (h : Fails (expansion.withinModel path declared hint
      (expansion.group below path hint properties)) state error) :
    (expansion.upon types).Refuses root rootHint error := by
  have names := (Catalog.GrowsTo.of_types sound.grows expansion.models).namedModel?_eq wf
    (visits.knows wf known)
  have around {p : Property} (hp : p ∈ properties) := within.field group hp
  rw [fails_withinModel_iff, names] at h
  cases named : (expansion.upon types).namedModel? declared with
  | none =>
    rw [named] at h
    exact justifies.group wf known follows sound visits group (fun _ => around) h
  | some definition =>
    rw [named] at h
    simp only at h
    split at h
    next guard entering =>
      obtain ⟨attempts, rfl⟩ := Guard.enter_eq_entered sound.counted sound.attempts entering
      have sound' : expansion.Sound types (state.withGuard
          { state.guard.attempted with keys := definition :: state.guard.keys }) :=
        sound.withGuard attempts sound.counted
      refine justifies.group wf known follows sound' visits group (fun p hp other entered => ?_) h
      rcases List.mem_cons.1 entered with rfl | entered
      · exact visits.expandedAround group named hp
      · exact around hp other entered
    next guard entering =>
      obtain ⟨attempts, rfl⟩ := Guard.enter_eq_cycle sound.counted sound.attempts entering
      have sound' : expansion.Sound types (state.withGuard state.guard.attempted) :=
        sound.withGuard attempts sound.counted
      rcases h with ⟨_, h⟩ | ⟨undescribed, rfl⟩
      · exact justifies.group wf known follows sound' visits group (fun _ => around) h
      · have inside := Guard.mem_keys_of_cycle (congrArg Prod.fst entering)
        exact .cyclic visits group named (within _ inside) undescribed
    next =>
      subst h
      exact .tooDeep visits

/-- If what lies below a node is refused with reason, so is the node. -/
theorem Justifies.nodeStep (wf : (expansion.upon types).WellFormed) (known : types.Knows root)
    (follows : expansion.Follows below)
    (justifies : expansion.Justifies types root rootHint below) :
    expansion.Justifies types root rootHint (expansion.nodeStep below) := by
  intro path declared hint nullable state error sound visits within h
  have knownStart := visits.knows wf known
  cases strips : Interning.withoutNullish expansion.models declared state.types with
  | mk stripped later =>
  obtain ⟨wf', adds, class_eq⟩ :=
    stripped_spec strips sound.wellFormed (sound.grows.knows knownStart)
  have toLater := Catalog.GrowsTo.of_types (sound.grows.trans adds.growsTo) expansion.models
  rw [toLater.shape_eq wf knownStart] at class_eq
  rcases (fails_nodeStep_iff strips).1 h with ⟨room, h⟩ | ⟨_, rfl⟩
  case inr => exact .tooDeep visits
  have sound' := (sound.deeper room).withTypes wf' adds.growsTo
  split at h
  next unplanned hplan =>
    subst h
    exact .of_plan visits class_eq hplan
  next plan hplan =>
  have planned := Catalog.plan_eq_ok_iff.1 hplan
  rw [class_eq] at planned
  cases plan with
  | control => exact absurd h not_fails_pure
  | group properties =>
    exact justifies.withinModel wf known follows sound' visits planned within h
  | array element =>
    rcases fails_bind_iff.1 h with failed | ⟨_, _, decides, h⟩
    · exact absurd failed not_fails_decide
    obtain ⟨rfl, rfl⟩ := gives_decide_iff.1 decides
    rcases fails_bind_iff.1 h with failed | ⟨_, _, _, failed⟩
    · exact justifies sound' (.element visits planned)
        (fun definition entered => (within definition entered).element planned) failed
    · exact absurd failed not_fails_pure

/-- An expansion refuses a position for what stands there at the start. -/
theorem justifies_node (wf : (expansion.upon types).WellFormed) (known : types.Knows root) :
    ∀ levels : Nat, expansion.Justifies types root rootHint (expansion.node levels)
  | 0 => by
    refine .nodeStep wf known (fun _ _ _ _ _ _ _ _ h => absurd h not_gives_throw) ?_
    intro path declared hint nullable state error _ visits _ h
    cases fails_throw_iff.1 h
    exact .tooDeep visits
  | levels + 1 => .nodeStep wf known (follows_node expansion levels) (justifies_node wf known levels)

end

end Expansion

namespace DerivedForm

open Expansion

variable {models : Definitions} {mode : Mode} {hint : Hint} {model : TypeId}
  {types after : TypeTable} {error : DerivationError}

theorem checkRoot_ne_cyclicModel {catalog : Catalog} {name : String} {path : FieldPath} :
    checkRoot catalog hint model ≠ .error (.cyclicModel name path) := by
  unfold checkRoot
  repeat' split
  all_goals simp

/-- A form that cannot be derived is refused at the root, or for what stands at a position that the
expansion gets to. -/
theorem refuses_of_derive (wf : Catalog.WellFormed ⟨types, models⟩)
    (h : derive models mode hint model types = (.error error, after)) :
    checkRoot ⟨types, models⟩ hint model = .error error
      ∨ types.Knows model ∧ Catalog.Refuses ⟨types, models⟩ model hint error := by
  cases hroot : checkRoot ⟨types, models⟩ hint model with
  | error refused =>
    cases h.symm.trans (derive_of_refused hroot)
    exact Or.inl rfl
  | ok _ =>
    unfold derive expand at h
    rw [hroot] at h
    obtain ⟨_, _, properties, object⟩ := checkRoot_eq_ok_iff.1 hroot
    have known : types.Knows model := Catalog.knows_of_classify_eq_object object
    have sound : Sound ⟨models, mode⟩ types (.start types) := ⟨ready_start types, wf, .refl types⟩
    have fails : Fails (node ⟨models, mode⟩ WalkKind.expansion.maxDepth .root model hint false)
        (.start types) error := by
      revert h
      unfold Fails
      simp only
      cases (node ⟨models, mode⟩ WalkKind.expansion.maxDepth .root model hint false).run.run
          (.start types) with
      | mk outcome last =>
        intro h
        cases outcome with
        | ok made => cases h
        | error failed =>
          cases h
          rfl
    exact Or.inr ⟨known, justifies_node wf known _ sound .here
      (fun definition entered => by cases entered) fails⟩

/-- An error about a model that contains itself is no false alarm.  The model that it names is that
of the position it names, and a group for that model lies around the position.  There is no finite
tree for the root by the rules, and none either if a hint may speak of fields that are not there. -/
theorem not_expands_of_cyclicModel {name : String} {path : FieldPath}
    (wf : Catalog.WellFormed ⟨types, models⟩)
    (h : derive models mode hint model types = (.error (.cyclicModel name path), after)) :
    (∃ definition declared here, name = models.describe definition
        ∧ Catalog.Visits ⟨types, models⟩ model hint path.steps declared here
        ∧ Catalog.namedModel? ⟨types, models⟩ declared = some definition
        ∧ Catalog.ExpandedAround ⟨types, models⟩ model hint path.steps declared here definition)
      ∧ (∀ nullable node named last,
        ¬ Expands ⟨models, mode⟩ types model hint nullable node named last)
      ∧ ∀ later, Catalog.GrowsTo ⟨types, models⟩ later → later.WellFormed →
        ∀ nullable node, ¬ later.Yields mode model hint nullable node := by
  rcases refuses_of_derive wf h with refused | ⟨known, refused⟩
  · exact absurd refused checkRoot_ne_cyclicModel
  cases refused with
  | @cyclic _ declared here properties definition visits group named around undescribed =>
  have endless (later : Catalog) (grows : Catalog.GrowsTo ⟨types, models⟩ later)
      (wf' : later.WellFormed) (nullable : Bool) (node : TreeNode) :
      ¬ later.Yields mode model hint nullable node := by
    have knownHere := visits.knows wf known
    rw [← grows.shape_eq wf knownHere] at group
    rw [← grows.namedModel?_eq wf knownHere] at named
    exact (visits.growsTo grows wf known).not_yields wf' group named (around.growsTo grows wf known)
      undescribed
  refine ⟨⟨definition, declared, here, rfl, visits, named, around⟩, ?_, endless⟩
  intro nullable node named' last expands
  have settled := expands.settles wf known
  exact endless _ settled.grows settled.wellFormed nullable node (settled.holds _ (.refl _))

/-- Without a hint, the friends of a person are persons again. -/
theorem not_expands_of_cyclicModel_person :
    derive Catalog.person.models ⟨.never, .declared⟩ .unspecified ⟨100⟩ Catalog.person.types
        = (.error (.cyclicModel "Person" ⟨[.field "friends", .element]⟩), Catalog.person.types)
      ∧ ∀ nullable node named last,
        ¬ Expands ⟨Catalog.person.models, ⟨.never, .declared⟩⟩ Catalog.person.types ⟨100⟩
          .unspecified nullable node named last := by
  have cyclic : derive Catalog.person.models ⟨.never, .declared⟩ .unspecified ⟨100⟩
      Catalog.person.types
        = (.error (.cyclicModel "Person" ⟨[.field "friends", .element]⟩), Catalog.person.types) :=
    rfl
  exact ⟨cyclic, (not_expands_of_cyclicModel (by decide) cyclic).2.1⟩

end DerivedForm

end ModelForms
