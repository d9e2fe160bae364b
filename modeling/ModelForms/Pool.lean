/-!
# Pools

A pool holds different values, each at its number, and an index that leads from a value back to its
number, so a value that is there already is found without looking through the others.
-/

namespace ModelForms

/-- Different values, each at its number, and the numbers of the values. -/
structure Pool (α : Type) where
  /-- The values in the order of their numbers. -/
  items : List α
  /-- The index, with what was added last in front. -/
  index : List (α × Nat)
deriving Repr

namespace Pool

variable {α : Type} [DecidableEq α]

/-- A pool without values. -/
def empty : Pool α := ⟨[], []⟩

/-- The value at a number. -/
def get? (pool : Pool α) (number : Nat) : Option α := pool.items[number]?

/-- The number of a value. -/
def find? (pool : Pool α) (value : α) : Option Nat := pool.index.lookup value

/-- Adds a value without asking whether it is there. -/
def insert (value : α) (pool : Pool α) : Nat × Pool α :=
  let number := pool.items.length
  (number, ⟨pool.items ++ [value], (value, number) :: pool.index⟩)

/-- The number of a value, which is added if it is new. -/
def intern (value : α) (pool : Pool α) : Nat × Pool α :=
  match pool.find? value with
  | some number => (number, pool)
  | none => pool.insert value

/-- The pool of one value. -/
def seeded (value : α) : Pool α := (empty.insert value).2

end Pool

end ModelForms
