import Mathlib.Data.List.Nodup
import ModelForms.Bounds.Guard

/-!
# Calls of a guard

A guard is called in any order: to enter a key, to leave the innermost one, to make a computation
with a key entered, and to start again.  `GuardRun` is a guard together with what its attempts to
enter a key came to since it was last reset.

What an attempt comes to has four cases (`Guard.Enters`), and only one of them changes the keys.
From this follows what every call keeps (`GuardRun.Sound`), and from that what is true of a guard at
any time: no key is entered twice, the keys are no more than the bound allows, an attempt is granted
only within both bounds, and a bound that was hit is remembered until the reset
(`GuardRun.orderly_of_calls`).
-/

namespace ModelForms

namespace Guard

variable {κ : Type} [DecidableEq κ] {key : κ} {guard : Guard κ}

/-! ## One attempt -/

/-- The guard with one more attempt counted. -/
def counted (guard : Guard κ) : Guard κ :=
  { guard with attempts := min (guard.attempts + 1) maxCount }

/-- The cases of an attempt to enter a key, with the guard that it leaves. -/
inductive Enters (key : κ) (guard : Guard κ) : Admission → Guard κ → Prop
  | tooMany (spent : guard.maxAttempts < guard.counted.attempts) :
      Enters key guard .tooMany { guard.counted with exceeded := true }
  | tooDeep (left : guard.counted.attempts ≤ guard.maxAttempts)
      (full : guard.maxDepth ≤ guard.depth) :
      Enters key guard .tooDeep { guard.counted with exceeded := true }
  | cycle (left : guard.counted.attempts ≤ guard.maxAttempts) (room : guard.depth < guard.maxDepth)
      (again : key ∈ guard.keys) : Enters key guard .cycle guard.counted
  | entered (left : guard.counted.attempts ≤ guard.maxAttempts)
      (room : guard.depth < guard.maxDepth) (new : key ∉ guard.keys) :
      Enters key guard .entered { guard.counted with keys := key :: guard.keys }

theorem enters {admission : Admission} {after : Guard κ}
    (outcome : guard.enter key = (admission, after)) : guard.Enters key admission after := by
  simp only [enter] at outcome
  split at outcome
  next spent =>
    cases outcome
    exact .tooMany spent
  next left =>
    have left := Nat.le_of_not_lt left
    split at outcome
    next full =>
      cases outcome
      exact .tooDeep left full
    next room =>
      have room := Nat.lt_of_not_le room
      split at outcome
      next again =>
        cases outcome
        exact .cycle left room (List.contains_iff_mem.1 again)
      next new =>
        cases outcome
        exact .entered left room fun mem => new (List.contains_iff_mem.2 mem)

/-- A key is entered if there is room for it and it is new. -/
theorem enter_eq_entered_iff {entered : Guard κ} :
    guard.enter key = (.entered, entered)
      ↔ min (guard.attempts + 1) maxCount ≤ guard.maxAttempts ∧ guard.depth < guard.maxDepth
        ∧ guard.isEntered key = false
        ∧ entered = { guard with
            attempts := min (guard.attempts + 1) maxCount
            keys := key :: guard.keys } := by
  unfold enter depth isEntered
  grind

theorem enter_fst_eq_entered_iff : (guard.enter key).1 = .entered
    ↔ key ∉ guard.keys ∧ guard.depth < guard.maxDepth
      ∧ guard.counted.attempts ≤ guard.maxAttempts := by
  have entered_iff : guard.isEntered key = false ↔ key ∉ guard.keys := by
    rw [isEntered, ← Bool.not_eq_true, List.contains_iff_mem]
  constructor
  · intro granted
    obtain ⟨left, room, new, _⟩ := enter_eq_entered_iff.1 (Prod.ext granted rfl)
    exact ⟨entered_iff.1 new, room, left⟩
  · rintro ⟨new, room, left⟩
    rw [enter_eq_entered_iff.2 ⟨left, room, entered_iff.2 new, rfl⟩]

/-- A computation with a key entered leaves the guard of the attempt, without the key if that was
granted. -/
theorem scope_snd {α : Type} (key : κ) (result : Unit → α) (guard : Guard κ) :
    (guard.scope key result).2 = if (guard.enter key).1 = .entered
      then (guard.enter key).2.leave key else (guard.enter key).2 := by
  unfold scope
  split
  next entered => rw [entered, if_pos rfl]
  next denied outcome => rw [outcome, if_neg fun same => denied same]

end Guard

/-! ## Calls -/

/-- A call of a guard. -/
inductive GuardCall (κ : Type) where
  | enter (key : κ)
  /-- Leaves the innermost key. -/
  | leave
  | scope (key : κ)
  | reset
deriving Repr

/-- A guard, and what the attempts to enter a key came to since the last reset, the latest first. -/
structure GuardRun (κ : Type) where
  guard : Guard κ
  admissions : List Admission

namespace GuardRun

variable {κ : Type} {maxDepth maxAttempts : Nat} {run : GuardRun κ}

/-- A new guard. -/
def start (maxDepth maxAttempts : Nat) : GuardRun κ := ⟨.new maxDepth maxAttempts, []⟩

/-- What every call keeps.  The counter stops at the largest number that it holds. -/
structure Sound (maxDepth maxAttempts : Nat) (run : GuardRun κ) : Prop where
  room : run.guard.maxDepth = maxDepth
  supply : run.guard.maxAttempts = maxAttempts
  distinct : run.guard.keys.Nodup
  depth_le : run.guard.depth ≤ maxDepth
  attempts : run.guard.attempts = min run.admissions.length Guard.maxCount
  exceeded : run.guard.exceeded = run.admissions.any Admission.isExceeded

theorem sound_start : (start maxDepth maxAttempts : GuardRun κ).Sound maxDepth maxAttempts where
  room := rfl
  supply := rfl
  distinct := List.nodup_nil
  depth_le := Nat.zero_le maxDepth
  attempts := (Nat.zero_min _).symm
  exceeded := rfl

/-- One more attempt is counted. -/
theorem Sound.attempts_counted (sound : run.Sound maxDepth maxAttempts) :
    run.guard.counted.attempts = min (run.admissions.length + 1) Guard.maxCount := by
  show min (run.guard.attempts + 1) Guard.maxCount = _
  rw [sound.attempts]
  omega

variable [DecidableEq κ]

/-- The run after one more call.  A computation with a key entered makes an attempt, too.  Where no
key is entered, none is left. -/
def call (run : GuardRun κ) : GuardCall κ → GuardRun κ
  | .enter key => ⟨(run.guard.enter key).2, (run.guard.enter key).1 :: run.admissions⟩
  | .leave =>
      match run.guard.keys with
      | [] => run
      | key :: _ => ⟨run.guard.leave key, run.admissions⟩
  | .scope key =>
      ⟨(run.guard.scope key fun _ => ()).2, (run.guard.enter key).1 :: run.admissions⟩
  | .reset => ⟨run.guard.reset, []⟩

namespace Sound

variable (sound : run.Sound maxDepth maxAttempts)

include sound

theorem enter (key : κ) : (run.call (.enter key)).Sound maxDepth maxAttempts := by
  have attempts := sound.attempts_counted
  obtain ⟨admission, after, outcome⟩ :
      ∃ admission after, run.guard.enter key = (admission, after) := ⟨_, _, rfl⟩
  rw [GuardRun.call, outcome]
  cases Guard.enters outcome with
  | tooMany | tooDeep =>
    exact ⟨sound.room, sound.supply, sound.distinct, sound.depth_le, attempts, rfl⟩
  | cycle =>
    exact ⟨sound.room, sound.supply, sound.distinct, sound.depth_le, attempts,
      sound.exceeded⟩
  | entered _ room new =>
    exact ⟨sound.room, sound.supply, sound.distinct.cons new, sound.room ▸ room,
      attempts, sound.exceeded⟩

/-- Leaving takes a key out and does nothing else that counts. -/
theorem leave (key : κ) : Sound maxDepth maxAttempts ⟨run.guard.leave key, run.admissions⟩ where
  room := sound.room
  supply := sound.supply
  distinct := sound.distinct.tail
  depth_le := by
    have shorter := List.length_tail ▸ Nat.sub_le run.guard.keys.length 1
    exact Nat.le_trans shorter sound.depth_le
  attempts := sound.attempts
  exceeded := sound.exceeded

theorem scope (key : κ) : (run.call (.scope key)).Sound maxDepth maxAttempts := by
  have entered := sound.enter key
  rw [call, Guard.scope_snd]
  split
  next => exact entered.leave key
  next => exact entered

theorem reset : (run.call .reset).Sound maxDepth maxAttempts := by
  rw [call, Guard.reset, sound.room, sound.supply]
  exact sound_start

theorem call (call : GuardCall κ) : (run.call call).Sound maxDepth maxAttempts := by
  cases call with
  | enter key => exact sound.enter key
  | leave =>
    rw [GuardRun.call]
    split
    next => exact sound
    next => exact sound.leave _
  | scope key => exact sound.scope key
  | reset => exact sound.reset

theorem calls (calls : List (GuardCall κ)) :
    (calls.foldl GuardRun.call run).Sound maxDepth maxAttempts := by
  induction calls generalizing run with
  | nil => exact sound
  | cons first rest ih => exact ih (sound.call first)

end Sound

/-! ## At any time -/

/-- What there is to say of a guard with two bounds, whatever calls were made before. -/
structure Orderly (maxDepth maxAttempts : Nat) (run : GuardRun κ) : Prop where
  distinct : run.guard.path.Nodup
  length_le : run.guard.path.length ≤ maxDepth
  /-- An attempt that is not granted changes no keys. -/
  path_enter : ∀ key, (run.guard.enter key).1 ≠ .entered →
    (run.guard.enter key).2.path = run.guard.path
  /-- Neither does a computation with a key entered, granted or not. -/
  path_scope : ∀ (key : κ) {α : Type} (result : Unit → α),
    (run.guard.scope key result).2.path = run.guard.path
  /-- An attempt is granted to a new key, where there is room for it and attempts are left. -/
  entered_iff : ∀ key, (run.guard.enter key).1 = .entered
    ↔ key ∉ run.guard.path ∧ run.guard.path.length < maxDepth
      ∧ run.admissions.length + 1 ≤ maxAttempts
  /-- What is remembered is whether an attempt since the last reset hit a bound. -/
  exceeded_iff : run.guard.exceeded = true
    ↔ ∃ admission ∈ run.admissions, admission = .tooDeep ∨ admission = .tooMany

theorem Sound.orderly (sound : run.Sound maxDepth maxAttempts)
    (counts : maxAttempts < Guard.maxCount) : run.Orderly maxDepth maxAttempts := by
  constructor
  case distinct => exact List.nodup_reverse.2 sound.distinct
  case length_le =>
    rw [Guard.path, List.length_reverse]
    exact sound.depth_le
  case path_enter => exact fun key denied => congrArg List.reverse (Guard.keys_enter_of_ne denied)
  case path_scope =>
    intro key α result
    rw [Guard.scope_snd]
    split
    next entered => exact congrArg List.reverse (Guard.leave_enter entered).1
    next denied => exact congrArg List.reverse (Guard.keys_enter_of_ne denied)
  case entered_iff =>
    intro key
    have left_iff : run.guard.counted.attempts ≤ run.guard.maxAttempts
        ↔ run.admissions.length + 1 ≤ maxAttempts := by
      rw [sound.attempts_counted, sound.supply]
      omega
    rw [Guard.enter_fst_eq_entered_iff, left_iff, Guard.path, List.mem_reverse, List.length_reverse,
      ← sound.room]
    rfl
  case exceeded_iff =>
    rw [sound.exceeded, List.any_eq_true]
    refine exists_congr fun admission => and_congr_right fun _ => ?_
    cases admission <;> simp [Admission.isExceeded]

/-- Whatever calls a guard has had, no key is entered twice, and the keys are no more than the bound
allows.  An attempt that is not granted leaves the keys as they were, and so does a computation
with a key entered.  An attempt is granted to a new key, with room for it, and as often since the
last reset as the other bound allows, and to no other.  The guard remembers exactly whether an
attempt since then hit a bound. -/
theorem orderly_of_calls (counts : maxAttempts < Guard.maxCount) (calls : List (GuardCall κ)) :
    (calls.foldl call (start maxDepth maxAttempts)).Orderly maxDepth maxAttempts :=
  (sound_start.calls calls).orderly counts

/-- Within two keys and six attempts, the same key twice, one too many, and a computation that may
not be made. -/
def visits : List (GuardCall Nat) :=
  [.enter 7, .reset, .enter 1, .enter 1, .leave, .enter 1, .enter 2, .scope 3]

theorem orderly_of_calls_visits :
    6 < Guard.maxCount ∧ (visits.foldl call (start 2 6)).Orderly 2 6
      ∧ (visits.foldl call (start 2 6)).guard.path = [1, 2]
      ∧ (visits.foldl call (start 2 6)).admissions
        = [.tooDeep, .entered, .entered, .cycle, .entered]
      ∧ (visits.foldl call (start 2 6)).guard.exceeded = true := by
  have counts : 6 < Guard.maxCount := by decide
  exact ⟨counts, orderly_of_calls counts visits, by decide, by decide, by decide⟩

end GuardRun

end ModelForms
