import ModelForms.Bounds.Guard

/-!
# Depth counters

A depth counter bounds a walk that may meet the same key again.  It counts the levels that the walk
is inside of and remembers whether the bound was hit.  Like a guard it remembers a leave that was
not due.
-/

namespace ModelForms

/-- The levels that a walk is inside of. -/
structure Depth where
  /-- The number of levels. -/
  level : Nat
  /-- The number of levels that may be entered. -/
  maxLevel : Nat
  /-- Whether the bound was hit. -/
  exceeded : Bool
  /-- Whether a level was left at the outermost level. -/
  strayLeave : Bool
deriving DecidableEq, Repr

namespace Depth

/-- A counter at the outermost level. -/
def new (maxLevel : Nat) : Depth := ⟨0, maxLevel, false, false⟩

/-- A counter for a kind of walk. -/
def forWalk (kind : WalkKind) : Depth := new kind.maxDepth

/-- Tries to go one level deeper and says whether that was possible. -/
def enter (depth : Depth) : Bool × Depth :=
  if depth.maxLevel ≤ depth.level then (false, { depth with exceeded := true })
  else (true, { depth with level := depth.level + 1 })

/-- Goes back one level. -/
def leave (depth : Depth) : Depth :=
  { depth with
    level := depth.level - 1
    strayLeave := depth.strayLeave || depth.level == 0 }

/-- What is out of balance when the walk ends with this counter. -/
def fault? (depth : Depth) : Option Imbalance :=
  if depth.strayLeave then some .aboveOutermost
  else if depth.level = 0 then none
  else some (.levelsEntered depth.level)

/-- Leaving a level that was just entered restores the counter. -/
theorem leave_enter {depth : Depth} (h : depth.enter.1 = true) : depth.enter.2.leave = depth := by
  unfold enter at h ⊢
  split
  · simp_all
  · simp [leave]

/-- A level that could not be entered leaves the level as it was. -/
theorem level_enter_of_false {depth : Depth} (h : depth.enter.1 = false) :
    depth.enter.2.level = depth.level := by
  unfold enter at h ⊢
  split
  · rfl
  · simp_all

end Depth

end ModelForms
