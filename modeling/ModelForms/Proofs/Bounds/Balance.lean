import ModelForms.Bounds.Depth
import ModelForms.Proofs.Runs

/-!
# Balance

A walk is in balance if it leaves what it enters, innermost first, and leaves nothing else.  What
tells this of a guard is its `Guard.standing`: the keys that are entered, and whether a leave was
ever made that was not due.  Attempts and bounds that were hit do not count.  A counter has a
standing of the same kind.  Once a stray leave is made it stays in the standing, so a walk that ends
in the standing that it started in made none on the way.

`Keeps` says that a computation ends with what a view of the state showed at the start, whether it
fails or not.  It has a rule for each way of putting computations together.  Only entering something
changes a standing, and leaving it again restores the standing from before
(`Guard.standing_leave`, `Depth.standing_leave`).
-/

namespace ModelForms

/-! ## Standings -/

namespace Guard

variable {κ : Type} [DecidableEq κ] {key : κ} {guard after : Guard κ}

/-- What a guard says about balance. -/
def standing (guard : Guard κ) : List κ × Bool := (guard.keys, guard.strayLeave)

theorem standing_enter_of_ne (h : (guard.enter key).1 ≠ .entered) :
    (guard.enter key).2.standing = guard.standing := by
  rw [standing, standing, keys_enter_of_ne h, strayLeave_enter]

/-- Whatever happens after a key is entered, if it keeps the standing then leaving the key brings
back the standing from before. -/
theorem standing_leave (h : (guard.enter key).1 = .entered)
    (same : after.standing = (guard.enter key).2.standing) :
    (after.leave key).standing = guard.standing := by
  obtain ⟨keys, stray⟩ := Prod.mk.inj same
  obtain ⟨keys', stray'⟩ := leave_enter h
  have left : (after.leave key).standing = ((guard.enter key).2.leave key).standing := by
    simp only [standing, leave, keys, stray]
  rw [left, standing, standing, keys', stray']

/-- A leave that was not due is never forgotten. -/
theorem strayLeave_leave (h : guard.strayLeave = true) : (guard.leave key).strayLeave = true := by
  simp [leave, h]

omit [DecidableEq κ] in
theorem fault?_eq_none_iff : guard.fault? = none ↔ guard.standing = ([], false) := by
  unfold fault? standing
  cases guard.strayLeave <;> cases guard.keys <;> simp

end Guard

namespace Depth

variable {depth after : Depth}

/-- What a counter says about balance. -/
def standing (depth : Depth) : Nat × Bool := (depth.level, depth.strayLeave)

theorem standing_enter_of_false (h : depth.enter.1 = false) :
    depth.enter.2.standing = depth.standing := by
  have stray : depth.enter.2.strayLeave = depth.strayLeave := by
    unfold enter
    split <;> rfl
  rw [standing, standing, level_enter_of_false h, stray]

/-- Whatever happens after a level is entered, if it keeps the standing then leaving the level
brings back the standing from before. -/
theorem standing_leave (h : depth.enter.1 = true) (same : after.standing = depth.enter.2.standing) :
    after.leave.standing = depth.standing := by
  obtain ⟨level, stray⟩ := Prod.mk.inj same
  have left : after.leave.standing = depth.enter.2.leave.standing := by
    simp only [standing, leave, level, stray]
  rw [left, leave_enter h]

/-- A leave that was not due is never forgotten. -/
theorem strayLeave_leave (h : depth.strayLeave = true) : depth.leave.strayLeave = true := by
  simp [leave, h]

theorem fault?_eq_none_iff : depth.fault? = none ↔ depth.standing = (0, false) := by
  unfold fault? standing
  cases depth.strayLeave <;> simp

end Depth

/-! ## What a computation keeps -/

/-- A computation ends with what a view showed of the state at the start. -/
def Keeps {σ ω α : Type} (view : σ → ω) (action : StateM σ α) : Prop :=
  ∀ state, view (action state).2 = view state

namespace Keeps

variable {ε σ ω α β : Type} {view : σ → ω}

theorem pure (a : α) : Keeps view (Pure.pure a : StateM σ α) := fun _ => rfl

theorem modify {f : σ → σ} (same : ∀ state, view (f state) = view state) :
    Keeps view (modifyGet fun state => (PUnit.unit, f state) : StateM σ PUnit) := same

theorem bind {action : StateM σ α} {next : α → StateM σ β} (first : Keeps view action)
    (rest : ∀ a, Keeps view (next a)) : Keeps view (action >>= next) :=
  fun state => (rest _ _).trans (first state)

theorem allM {p : α → StateM σ Bool} {xs : List α} (each : ∀ x ∈ xs, Keeps view (p x)) :
    Keeps view (xs.allM p) := by
  induction xs with
  | nil => exact .pure true
  | cons x rest ih =>
    obtain ⟨here, there⟩ := List.forall_mem_cons.1 each
    refine bind here fun yes => ?_
    cases yes with
    | true => exact ih there
    | false => exact .pure false

theorem anyM {p : α → StateM σ Bool} {xs : List α} (each : ∀ x ∈ xs, Keeps view (p x)) :
    Keeps view (xs.anyM p) := by
  induction xs with
  | nil => exact .pure false
  | cons x rest ih =>
    obtain ⟨here, there⟩ := List.forall_mem_cons.1 each
    refine bind here fun yes => ?_
    cases yes with
    | true => exact .pure true
    | false => exact ih there

/-! ### Computations that may fail -/

theorem run_pure (a : α) : Keeps view (Pure.pure a : ExceptT ε (StateM σ) α).run := fun _ => rfl

theorem run_throw (error : ε) : Keeps view (throw error : ExceptT ε (StateM σ) α).run :=
  fun _ => rfl

theorem run_throw_bind (error : ε) {next : α → ExceptT ε (StateM σ) β} :
    Keeps view (throw error >>= next).run := fun _ => rfl

theorem run_get : Keeps view (get : ExceptT ε (StateM σ) σ).run := fun _ => rfl

theorem run_modifyGet {f : σ → α × σ} (same : ∀ state, view (f state).2 = view state) :
    Keeps view (modifyGet f : ExceptT ε (StateM σ) α).run := same

theorem run_bind {action : ExceptT ε (StateM σ) α} {next : α → ExceptT ε (StateM σ) β}
    (first : Keeps view action.run) (rest : ∀ a, Keeps view (next a).run) :
    Keeps view (action >>= next).run := by
  intro state
  have here := first state
  show view ((action >>= next).run.run state).2 = view state
  rw [ModelForms.run_bind]
  cases outcome : action.run.run state with
  | mk result middle =>
  rw [show action.run state = _ from outcome] at here
  cases result with
  | ok a => exact (rest a middle).trans here
  | error error => exact here

theorem run_forM {step : α → ExceptT ε (StateM σ) PUnit} (each : ∀ x, Keeps view (step x).run) :
    ∀ xs : List α, Keeps view (xs.forM step).run
  | [] => run_pure _
  | x :: rest => run_bind (each x) fun _ => run_forM each rest

theorem run_mapM {step : α → ExceptT ε (StateM σ) β} (each : ∀ x, Keeps view (step x).run)
    (xs : List α) : Keeps view (xs.mapM step).run := by
  induction xs with
  | nil => exact run_pure _
  | cons x rest ih =>
    rw [List.mapM_cons]
    exact run_bind (each x) fun _ => run_bind ih fun _ => run_pure _

theorem run_foldlM {step : β → α → ExceptT ε (StateM σ) β}
    (each : ∀ b x, Keeps view (step b x).run) (xs : List α) (start : β) :
    Keeps view (xs.foldlM step start).run := by
  induction xs generalizing start with
  | nil => exact run_pure _
  | cons x rest ih => exact run_bind (each start x) ih

end Keeps

end ModelForms
