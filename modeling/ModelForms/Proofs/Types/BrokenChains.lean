import Mathlib.Data.List.Chain
import Mathlib.Logic.Relation
import ModelForms.Proofs.Types.Aliases

/-!
# Why a chain of aliases breaks

`Catalog.resolve` follows a chain of aliases under a guard.  A chain that starts at a model breaks
for one of three reasons: a model on it has no body, it comes back to a model, or it is longer than
the guard allows (`Catalog.breaks_of_resolve`).  A chain that ends is no longer than that
(`Catalog.length_le_of_resolve`).
-/

namespace ModelForms

namespace Catalog

open Relation

variable {catalog : Catalog} {start definition other : ModelId} {id target : TypeId}

/-- The body of a model is a reference to another. -/
def Links (catalog : Catalog) (definition other : ModelId) : Prop :=
  ∃ body, catalog.models.body? definition = some body ∧ catalog.types.referenced? body = some other

/-- Why the chain of aliases that starts at a model has no end that is found. -/
inductive Breaks (catalog : Catalog) (start : ModelId) : Prop
  | missing {definition : ModelId} (reaches : ReflTransGen catalog.Links start definition)
      (none : catalog.models.body? definition = none)
  | cycle {definition : ModelId} (reaches : ReflTransGen catalog.Links start definition)
      (cycle : TransGen catalog.Links definition definition)
  | long {chain : List ModelId} (head : chain.head? = some start)
      (links : chain.IsChain catalog.Links) (long : chain.length = Limits.modelDepth + 1)

/-- A guard of the models on a chain up to the model that comes next. -/
structure Along (catalog : Catalog) (start definition : ModelId) (guard : Guard ModelId) :
    Prop where
  reaches : ReflTransGen catalog.Links start definition
  links : (definition :: guard.keys).IsChain fun a b => catalog.Links b a
  last : (definition :: guard.keys).getLast? = some start
  depth : guard.depth ≤ Limits.modelDepth
  maxDepth : guard.maxDepth = Limits.modelDepth
  attempts : guard.attempts ≤ guard.depth
  maxAttempts : guard.maxAttempts = Limits.expansionSteps

theorem along_forWalk (catalog : Catalog) (definition : ModelId) :
    catalog.Along definition definition (Guard.forWalk .aliases) where
  reaches := .refl
  links := .singleton _
  last := rfl
  depth := Nat.zero_le _
  maxDepth := rfl
  attempts := Nat.le_refl _
  maxAttempts := rfl

/-- The next model is entered, and the chain goes on at the one that its body refers to. -/
theorem Along.enter {guard : Guard ModelId} (along : catalog.Along start definition guard)
    (entered : (guard.enter definition).1 = .entered) (links : catalog.Links definition other) :
    catalog.Along start other (guard.enter definition).2 := by
  have keys := Guard.keys_enter_of_eq entered
  obtain ⟨room, maxDepth⟩ := Guard.room_of_enter entered
  obtain ⟨attempts, _, maxAttempts⟩ := Guard.attempts_enter_of_eq entered
  have depth : (guard.enter definition).2.depth = guard.depth + 1 := by
    simp [Guard.depth, keys]
  have before := along.attempts
  have bound := along.maxDepth
  exact ⟨along.reaches.tail links, keys ▸ List.isChain_cons_cons.2 ⟨links, along.links⟩,
    by rw [keys, List.getLast?_cons_cons]; exact along.last, by omega, by omega, by omega,
    maxAttempts.trans along.maxAttempts⟩

/-- A model that cannot be entered breaks the chain. -/
theorem Along.breaks {guard : Guard ModelId} (along : catalog.Along start definition guard)
    (denied : (guard.enter definition).1 ≠ .entered) : catalog.Breaks start := by
  cases admission : (guard.enter definition).1 with
  | entered => exact absurd admission denied
  | cycle =>
    have mem := Guard.mem_keys_of_cycle admission
    have back := (along.links.imp fun _ _ h => TransGen.single h).rel_cons mem
    exact .cycle along.reaches (transGen_swap.1 back)
  | tooDeep =>
    have full := Guard.maxDepth_le_of_tooDeep admission
    have depth := along.depth
    have maxDepth := along.maxDepth
    refine @Breaks.long _ _ (definition :: guard.keys).reverse ?_ ?_ ?_
    · rw [List.head?_reverse]
      exact along.last
    · rw [List.isChain_reverse]
      exact along.links
    · rw [List.length_reverse, List.length_cons]
      unfold Guard.depth at *
      omega
  | tooMany =>
    have many := Guard.maxAttempts_lt_of_tooMany admission
    have attempts := along.attempts
    have depth := along.depth
    have maxAttempts := along.maxAttempts
    unfold Limits.modelDepth at depth
    unfold Limits.expansionSteps at maxAttempts
    omega

theorem breaks_of_followStep
    {onwards : TypeId → StateM (Guard ModelId) (Except ModelId TypeId)} {guard : Guard ModelId}
    {broken : ModelId}
    (ih : ∀ body guard broken other, catalog.types.referenced? body = some other →
      catalog.Along start other guard → (onwards body guard).1 = .error broken →
      catalog.Breaks start)
    (ends : ∀ body guard broken, catalog.types.referenced? body = none →
      (onwards body guard).1 ≠ .error broken)
    (reference : catalog.types.referenced? id = some definition)
    (along : catalog.Along start definition guard)
    (h : (catalog.followStep onwards id guard).1 = .error broken) : catalog.Breaks start := by
  rw [followStep_some reference] at h
  split at h
  next entered =>
    cases defined : catalog.models.body? definition with
    | none => exact .missing along.reaches defined
    | some body =>
      simp only [defined] at h
      cases next : catalog.types.referenced? body with
      | none => exact absurd h (ends body _ broken next)
      | some other =>
        exact ih body _ broken other next (along.enter entered ⟨body, defined, next⟩) h
  next denied => exact along.breaks denied

theorem breaks_of_follow : ∀ (levels : Nat) {id : TypeId} {guard : Guard ModelId}
    {definition broken : ModelId}, catalog.types.referenced? id = some definition →
    catalog.Along start definition guard → (catalog.follow levels id guard).1 = .error broken →
    catalog.Breaks start
  | 0, _, _, _, _, reference, along, h =>
    breaks_of_followStep (fun _ _ _ _ _ _ h => by cases h) (fun _ _ _ _ h => by cases h) reference
      along h
  | levels + 1, _, _, _, _, reference, along, h =>
    breaks_of_followStep (fun _ _ _ _ reference along h =>
        breaks_of_follow levels reference along h)
      (fun body guard _ ends h => by rw [follow_none ends levels guard] at h; cases h)
      reference along h

/-- A chain that starts at a model and is not followed to its end breaks for a reason. -/
theorem breaks_of_resolve {broken : ModelId}
    (reference : catalog.types.referenced? id = some definition)
    (h : catalog.resolve id = .error broken) : catalog.Breaks definition :=
  breaks_of_follow _ reference (along_forWalk catalog definition) h

/-! ## Chains that end -/

/-- Every model on a chain with an end has a body. -/
theorem LeadsTo.exists_body (leads : catalog.LeadsTo id target)
    (ends : catalog.types.referenced? target = none)
    (reference : catalog.types.referenced? id = some start)
    (reaches : ReflTransGen catalog.Links start definition) :
    ∃ body, catalog.models.body? definition = some body := by
  induction leads generalizing start with
  | here =>
    rw [reference] at ends
    cases ends
  | @onwards _ body _ _ reference' defined _ ih =>
    cases reference.symm.trans reference'
    rcases reaches.cases_head with rfl | ⟨next, ⟨body', defined', reference⟩, reaches⟩
    · exact ⟨body, defined⟩
    · cases defined.symm.trans defined'
      exact ih ends reference reaches

theorem length_le_of_followStep
    {onwards : TypeId → StateM (Guard ModelId) (Except ModelId TypeId)} {guard : Guard ModelId}
    {chain : List ModelId}
    (ih : ∀ body entered next rest, entered.depth = guard.depth + 1 →
      guard.depth < guard.maxDepth → entered.maxDepth = guard.maxDepth →
      catalog.types.referenced? body = some next → (next :: rest).IsChain catalog.Links →
      (onwards body entered).1 = .ok target →
      (next :: rest).length + entered.depth ≤ guard.maxDepth)
    (reference : catalog.types.referenced? id = some definition)
    (links : (definition :: chain).IsChain catalog.Links)
    (h : (catalog.followStep onwards id guard).1 = .ok target) :
    (definition :: chain).length + guard.depth ≤ guard.maxDepth := by
  rw [followStep_some reference] at h
  split at h
  next entered =>
    have keys := Guard.keys_enter_of_eq entered
    obtain ⟨room, maxDepth⟩ := Guard.room_of_enter entered
    have depth : (guard.enter definition).2.depth = guard.depth + 1 := by
      simp [Guard.depth, keys]
    cases chain with
    | nil =>
      simp only [List.length_singleton]
      omega
    | cons next rest =>
      obtain ⟨⟨body, defined, reference⟩, links⟩ := List.isChain_cons_cons.1 links
      simp only [defined] at h
      have := ih body _ next rest depth room maxDepth reference links h
      simp only [List.length_cons] at this ⊢
      omega
  next => cases h

theorem length_le_of_follow : ∀ (levels : Nat) {id : TypeId} {guard : Guard ModelId}
    {definition : ModelId} {chain : List ModelId}, guard.maxDepth ≤ guard.depth + levels →
    catalog.types.referenced? id = some definition →
    (definition :: chain).IsChain catalog.Links → (catalog.follow levels id guard).1 = .ok target →
    (definition :: chain).length + guard.depth ≤ guard.maxDepth
  | 0, _, _, _, _, enough, reference, links, h =>
    length_le_of_followStep (fun _ _ _ _ _ room _ _ _ _ => absurd room (by omega)) reference links h
  | levels + 1, _, _, _, _, enough, reference, links, h =>
    length_le_of_followStep (fun _ _ _ _ depth _ same reference links h =>
      same ▸ length_le_of_follow levels (by omega) reference links h) reference links h

/-- A chain that is followed to its end is no longer than the guard allows. -/
theorem length_le_of_resolve {chain : List ModelId}
    (reference : catalog.types.referenced? id = some definition)
    (links : (definition :: chain).IsChain catalog.Links) (h : catalog.resolve id = .ok target) :
    (definition :: chain).length ≤ Limits.modelDepth :=
  length_le_of_follow WalkKind.aliases.maxDepth (Nat.le_add_left _ _) reference links h

end Catalog

end ModelForms
