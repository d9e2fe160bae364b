import ModelForms.Proofs.Document.Dependencies

/-!
# Schedules

Lowering the value of a model defines the models that compositions in it need first: for each
operand these are the models on its chain of aliases.  Which ones these are, and in which order they
come, is told here by what the operands mean (`Glossary.requirementsOf`), with no table of types and
no handles.

`finish` goes through models in this order and keeps nothing but the names that are done.  It fails
where more models would be under way than there is room for.
-/

namespace ModelForms

/-! ## Orders -/

/-- The names that are done when a name is: first come the names that it requires, and there is room
for so many names under way. -/
def finish (requires : String → List String) :
    (room : Nat) → (done : List String) → String → Option (List String)
  | 0, done, name => if name ∈ done then some done else none
  | room + 1, done, name =>
      if name ∈ done then some done
      else do return name :: (← (requires name).foldlM (finish requires room) done)

section

variable {requires : String → List String} {room : Nat} {done : List String} {name : String}

theorem finish_of_mem (mem : name ∈ done) : finish requires room done name = some done := by
  cases room <;> exact if_pos mem

theorem finish_zero (new : name ∉ done) : finish requires 0 done name = none :=
  if_neg new

theorem finish_succ (new : name ∉ done) :
    finish requires (room + 1) done name
      = (requires name).foldlM (finish requires room) done >>= fun done => some (name :: done) :=
  if_neg new

end

namespace Glossary

/-! ## What is required -/

section

open Classical in
/-- What a meaning comes to, if anything. -/
noncomputable def result? {α : Type} (glossary : Glossary) (meaning : Listing → Option α) :
    Option α :=
  if yields : ∃ a, glossary.Yields meaning a then some yields.choose else none

theorem result?_eq_some_iff {α : Type} {glossary : Glossary} {meaning : Listing → Option α} {a : α}
    (steady : Steady meaning) : glossary.result? meaning = some a ↔ glossary.Yields meaning a := by
  unfold result?
  split
  next yields =>
    rw [Option.some.injEq]
    constructor
    · rintro rfl
      exact yields.choose_spec
    · exact fun is => yields.choose_spec.unique steady is
  next none => exact ⟨(nomatch ·), fun is => (none ⟨a, is⟩).elim⟩

end

variable (glossary : Glossary)

/-- What a type expression means, if anything. -/
noncomputable def termOfExpr? (expr : TypeExpr) : Option NamedTerm :=
  glossary.result? fun listing => glossary.exprMeaning listing expr

/-- What a model means, if anything. -/
noncomputable def termOf? (name : String) : Option NamedTerm := do
  let value ← glossary.valueOf name
  glossary.result? fun listing => glossary.valueMeaning listing value

/-- The models on the chain of aliases that starts at a type, up to a number. -/
noncomputable def aliasesFrom : (levels : Nat) → NamedTerm → List String
  | levels + 1, .reference name => name :: (glossary.termOf? name).elim [] (aliasesFrom levels)
  | _, _ => []

/-- The models that an operand of a composition requires. -/
noncomputable def requiredBy (operand : TypeExpr) : List String :=
  (glossary.termOfExpr? operand).elim [] (glossary.aliasesFrom (Limits.modelDepth + 1))

mutual

/-- The models that the compositions in a type expression require, in the order of lowering. -/
noncomputable def requirementsOfExpr : TypeExpr → List String
  | .keyword _ | .string _ | .number _ | .boolean _ => []
  | .array element => requirementsOfExpr element
  | .union members => requirementsOfExprs members
  | .intersection members => requirementsOfOperands members
  | .reference name args =>
      match args with
      | [operand] =>
          if name = "Partial" then requirementsOfExpr operand ++ glossary.requiredBy operand
          else requirementsOfExpr operand
      | [operand, _] => requirementsOfExpr operand ++ glossary.requiredBy operand
      | _ => []
termination_by structural expr => expr

/-- The models that the compositions in type expressions require. -/
noncomputable def requirementsOfExprs : List TypeExpr → List String
  | [] => []
  | expr :: rest => requirementsOfExpr expr ++ requirementsOfExprs rest
termination_by structural exprs => exprs

/-- The models that operands require, and the compositions in them. -/
noncomputable def requirementsOfOperands : List TypeExpr → List String
  | [] => []
  | expr :: rest =>
      requirementsOfExpr expr ++ (glossary.requiredBy expr ++ requirementsOfOperands rest)
termination_by structural exprs => exprs

end

mutual

/-- The models that the compositions in a value require, in the order of lowering. -/
noncomputable def requirementsOfValue : Json → List String
  | .string text =>
      match TypeExpr.parse text with
      | .ok expr => glossary.requirementsOfExpr expr
      | .error _ => []
  | .array items => requirementsOfItems items
  | .object members => requirementsOfMembers members
  | .null | .bool _ | .number _ => []
termination_by structural value => value

/-- The models that the compositions in the items of an array require. -/
noncomputable def requirementsOfItems : List Json → List String
  | [] => []
  | item :: rest => requirementsOfValue item ++ requirementsOfItems rest
termination_by structural items => items

/-- The models that the compositions in the members of an object require. -/
noncomputable def requirementsOfMembers : List (String × Json) → List String
  | [] => []
  | (_, value) :: rest => requirementsOfValue value ++ requirementsOfMembers rest
termination_by structural members => members

end

/-- The models that the compositions in the value of a model require. -/
noncomputable def requirementsOf (name : String) : List String :=
  (glossary.valueOf name).elim [] glossary.requirementsOfValue

variable {glossary} {expr : TypeExpr} {name : String} {term : NamedTerm}

theorem termOfExpr?_eq_some_iff :
    glossary.termOfExpr? expr = some term ↔ glossary.ExprMeans expr term :=
  result?_eq_some_iff (steady_exprMeaning expr)

theorem termOf?_eq_some_iff : glossary.termOf? name = some term ↔ glossary.Means name term := by
  unfold termOf? Means
  rw [Option.bind_eq_bind, Option.bind_eq_some_iff]
  exact exists_congr fun value => and_congr_right fun _ =>
    result?_eq_some_iff (steady_valueMeaning value)

theorem requiredBy_eq (means : glossary.ExprMeans expr term) :
    glossary.requiredBy expr = glossary.aliasesFrom (Limits.modelDepth + 1) term := by
  rw [requiredBy, termOfExpr?_eq_some_iff.2 means, Option.elim_some]

theorem aliasesFrom_of_ne (levels : Nat) (other : ∀ name, term ≠ .reference name) :
    glossary.aliasesFrom levels term = [] := by
  cases levels with
  | zero => rfl
  | succ levels =>
    cases term with
    | reference name => exact absurd rfl (other name)
    | _ => rfl

theorem aliasesFrom_reference (levels : Nat) (means : glossary.Means name term) :
    glossary.aliasesFrom (levels + 1) (.reference name)
      = name :: glossary.aliasesFrom levels term := by
  rw [aliasesFrom, termOf?_eq_some_iff.2 means, Option.elim_some]

end Glossary

/-- The models of a document that are done when all are, in reverse order of completion. -/
noncomputable def Document.schedule (document : Document) : Option (List String) :=
  document.models.keys.foldlM (finish document.glossary.requirementsOf Limits.modelDepth) []

end ModelForms
