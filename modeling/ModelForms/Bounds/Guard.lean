import ModelForms.Bounds.Limits

/-!
# Guards

A guard keeps the keys that a walk is inside of.  Entering a key that is already there is a cycle.
The number of keys is bounded, and so is the number of attempts since the last reset, of which a
32-bit counter is kept.  A bound that was hit is remembered.

Each key that was entered is due to be left, innermost first.  A guard remembers a leave that was
not due, so `Guard.fault?` can tell after a walk whether the walk entered and left in balance.
`leave_enter` says that entering and leaving restores the keys.
-/

namespace ModelForms

/-- What became of an attempt to enter a key. -/
inductive Admission where
  | entered
  /-- The key is already entered. -/
  | cycle
  /-- As many keys are entered as may be. -/
  | tooDeep
  /-- As many attempts were made as may be. -/
  | tooMany
deriving DecidableEq, Repr

/-- Whether an attempt hit a bound. -/
def Admission.isExceeded : Admission → Bool
  | .tooDeep | .tooMany => true
  | _ => false

/-- How a walk fails to enter and leave in balance. -/
inductive Imbalance where
  /-- A key was left that is not the innermost one. -/
  | outOfOrder
  /-- Keys are still entered at the end. -/
  | keysEntered (count : Nat)
  /-- A level was left at the outermost level. -/
  | aboveOutermost
  /-- The walk ends at a level that is not the outermost. -/
  | levelsEntered (depth : Nat)
deriving DecidableEq, Repr

/-- The text that reports an imbalance. -/
def Imbalance.message : Imbalance → String
  | .outOfOrder => "RecursionGuard::leave() out of order or without a matching enter()"
  | .keysEntered count => "RecursionGuard dropped with " ++ toString count ++ " keys still entered"
  | .aboveOutermost => "DepthCounter::leave() at depth 0"
  | .levelsEntered depth => "DepthCounter dropped at depth " ++ toString depth

/-- The keys that a walk is inside of, and what it may still enter. -/
structure Guard (κ : Type) where
  /-- The entered keys, innermost first. -/
  keys : List κ
  /-- The attempts since the last reset. -/
  attempts : Nat
  /-- The number of keys that may be entered at a time. -/
  maxDepth : Nat
  /-- The number of attempts that may be made. -/
  maxAttempts : Nat
  /-- Whether an attempt hit a bound. -/
  exceeded : Bool
  /-- Whether a key was left that was not the innermost one. -/
  strayLeave : Bool
deriving Repr

namespace Guard

variable {κ : Type} [DecidableEq κ]

/-- The largest number that the counter of attempts holds. -/
def maxCount : Nat := (1 <<< 32) - 1

/-- A guard at the start of a walk. -/
def new (maxDepth maxAttempts : Nat) : Guard κ := ⟨[], 0, maxDepth, maxAttempts, false, false⟩

/-- A guard for a kind of walk. -/
def forWalk (kind : WalkKind) : Guard κ := new kind.maxDepth Limits.expansionSteps

/-- The number of entered keys. -/
def depth (guard : Guard κ) : Nat := guard.keys.length

/-- The entered keys, outermost first. -/
def path (guard : Guard κ) : List κ := guard.keys.reverse

/-- Whether a key is entered. -/
def isEntered (key : κ) (guard : Guard κ) : Bool := guard.keys.contains key

/-- Tries to enter a key.  The bounds come before the cycle, so a cycle that is found at a bound is
reported as the bound. -/
def enter (key : κ) (guard : Guard κ) : Admission × Guard κ :=
  let guard := { guard with attempts := min (guard.attempts + 1) maxCount }
  if guard.maxAttempts < guard.attempts then (.tooMany, { guard with exceeded := true })
  else if guard.maxDepth ≤ guard.depth then (.tooDeep, { guard with exceeded := true })
  else if guard.isEntered key then (.cycle, guard)
  else (.entered, { guard with keys := key :: guard.keys })

/-- Leaves the innermost key, which is due to be the given one. -/
def leave (key : κ) (guard : Guard κ) : Guard κ :=
  { guard with
    keys := guard.keys.tail
    strayLeave := guard.strayLeave || guard.keys.head? != some key }

/-- The value of a computation made with a key entered, or why the key could not be entered. -/
def scope {α : Type} (key : κ) (result : Unit → α) (guard : Guard κ) :
    Except Admission α × Guard κ :=
  match guard.enter key with
  | (.entered, guard) => (.ok (result ()), guard.leave key)
  | (denied, guard) => (.error denied, guard)

/-- The entered keys from the outermost occurrence of a key on, outermost first. -/
def cycleAt? (key : κ) (guard : Guard κ) : Option (List κ) :=
  if guard.isEntered key then some (guard.path.dropWhile (· ≠ key)) else none

/-- The guard as it was at the start. -/
def reset (guard : Guard κ) : Guard κ := new guard.maxDepth guard.maxAttempts

/-- What is out of balance when the walk ends with this guard. -/
def fault? (guard : Guard κ) : Option Imbalance :=
  if guard.strayLeave then some .outOfOrder
  else if guard.keys.isEmpty then none
  else some (.keysEntered guard.depth)

/-! ## Entering and leaving -/

/-- A key that could not be entered leaves the keys as they were. -/
theorem keys_enter_of_ne {key : κ} {guard : Guard κ} (h : (guard.enter key).1 ≠ .entered) :
    (guard.enter key).2.keys = guard.keys := by
  unfold enter at h ⊢
  grind

/-- A key that was entered is the innermost one. -/
theorem keys_enter_of_eq {key : κ} {guard : Guard κ} (h : (guard.enter key).1 = .entered) :
    (guard.enter key).2.keys = key :: guard.keys := by
  unfold enter at h ⊢
  grind

/-- A key is entered only where there is room for it, and the room stays the same. -/
theorem room_of_enter {key : κ} {guard : Guard κ} (h : (guard.enter key).1 = .entered) :
    guard.depth < guard.maxDepth ∧ (guard.enter key).2.maxDepth = guard.maxDepth := by
  unfold enter depth at *
  grind

theorem mem_keys_of_cycle {key : κ} {guard : Guard κ} (h : (guard.enter key).1 = .cycle) :
    key ∈ guard.keys := by
  unfold enter isEntered at h
  grind

theorem not_mem_keys_of_eq {key : κ} {guard : Guard κ} (h : (guard.enter key).1 = .entered) :
    key ∉ guard.keys := by
  unfold enter isEntered at h
  grind

theorem maxDepth_le_of_tooDeep {key : κ} {guard : Guard κ}
    (h : (guard.enter key).1 = .tooDeep) : guard.maxDepth ≤ guard.depth := by
  unfold enter depth at *
  grind

theorem maxAttempts_lt_of_tooMany {key : κ} {guard : Guard κ}
    (h : (guard.enter key).1 = .tooMany) : guard.maxAttempts < guard.attempts + 1 := by
  unfold enter at h
  grind

/-- Each key that is entered counts as an attempt, and there is room for it. -/
theorem attempts_enter_of_eq {key : κ} {guard : Guard κ} (h : (guard.enter key).1 = .entered) :
    (guard.enter key).2.attempts = min (guard.attempts + 1) maxCount
      ∧ (guard.enter key).2.attempts ≤ guard.maxAttempts
      ∧ (guard.enter key).2.maxAttempts = guard.maxAttempts := by
  unfold enter at *
  grind

/-- Entering a key remembers nothing about leaves. -/
theorem strayLeave_enter (key : κ) (guard : Guard κ) :
    (guard.enter key).2.strayLeave = guard.strayLeave := by
  unfold enter
  grind

/-- Leaving a key that was just entered restores the keys, and the leave was due. -/
theorem leave_enter {key : κ} {guard : Guard κ} (h : (guard.enter key).1 = .entered) :
    ((guard.enter key).2.leave key).keys = guard.keys
      ∧ ((guard.enter key).2.leave key).strayLeave = guard.strayLeave := by
  simp [leave, keys_enter_of_eq h, strayLeave_enter]

example : ((new 1 9 : Guard Nat).enter 5).1 = .entered := by decide
example : (((new 2 9 : Guard Nat).enter 5).2.enter 5).1 = .cycle := by decide
example : (((new 1 9 : Guard Nat).enter 5).2.enter 5).1 = .tooDeep := by decide

end Guard

end ModelForms
