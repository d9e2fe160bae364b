import ModelForms.Proofs.Document.Lowerable
import ModelForms.Proofs.Document.RegroupedMeanings

/-!
# Regrouped documents are lowered alike

An operand that is a group is taken apart with no effect on the schedule: what `&` makes is an
object, so as an operand it requires no model, and the models that its own operands require come in
the same order.  With the meanings of all values this leaves everything the same that decides
whether a document is lowered (`Document.Regroups.lowers_iff`).
-/

namespace ModelForms

namespace Glossary

open Grammar TypeExpr

variable {glossary other : Glossary}

theorem requirementsOfExprs_append (exprs more : List TypeExpr) :
    glossary.requirementsOfExprs (exprs ++ more)
      = glossary.requirementsOfExprs exprs ++ glossary.requirementsOfExprs more := by
  induction exprs with
  | nil => rfl
  | cons expr rest ih =>
    rw [List.cons_append, requirementsOfExprs, requirementsOfExprs, ih, List.append_assoc]

theorem requirementsOfOperands_append (exprs more : List TypeExpr) :
    glossary.requirementsOfOperands (exprs ++ more)
      = glossary.requirementsOfOperands exprs ++ glossary.requirementsOfOperands more := by
  induction exprs with
  | nil => rfl
  | cons expr rest ih =>
    simp only [List.cons_append, requirementsOfOperands, ih, List.append_assoc]

theorem requirementsOfExprs_alternatives (expr : TypeExpr) :
    glossary.requirementsOfExprs expr.alternatives = glossary.requirementsOfExpr expr := by
  cases expr with
  | union members => rw [alternatives, requirementsOfExpr]
  | _ =>
    rw [alternatives_eq_of_ne (by simp), requirementsOfExprs, requirementsOfExprs, List.append_nil]

/-- What `&` makes is no reference. -/
theorem requiredBy_intersection {members : List TypeExpr} (several : 2 ≤ members.length) :
    glossary.requiredBy (.intersection members) = [] := by
  cases is : glossary.termOfExpr? (.intersection members) with
  | none => rw [requiredBy, is, Option.elim_none]
  | some term =>
    obtain ⟨levels, means⟩ := termOfExpr?_eq_some_iff.1 is
    have object : ∀ name, term ≠ .reference name := by
      simp only [exprMeaning_intersection several] at means
      obtain ⟨lists, _, object⟩ := Option.bind_eq_some_iff.1 means
      rintro name rfl
      cases object
    rw [requiredBy_eq ⟨levels, means⟩, aliasesFrom_of_ne _ object]

theorem requirementsOfOperands_operands {expr : TypeExpr}
    (several : ∀ members, expr = .intersection members → 2 ≤ members.length) :
    glossary.requirementsOfOperands expr.operands
      = glossary.requirementsOfExpr expr ++ glossary.requiredBy expr := by
  cases expr with
  | intersection members =>
    rw [operands, requirementsOfExpr, requiredBy_intersection (several members rfl),
      List.append_nil]
  | _ =>
    rw [operands_eq_of_ne (by simp), requirementsOfOperands, requirementsOfOperands,
      List.append_nil]

namespace Regroups

theorem refl (glossary : Glossary) : Regroups glossary glossary where
  values name := by
    cases is : glossary.valueOf name with
    | none => exact .inl ⟨rfl, rfl⟩
    | some value => exact .inr ⟨value, value, rfl, rfl, .refl _ value⟩
  leaves := rfl

section

variable (regroups : Regroups glossary other)

include regroups

theorem termOf?_eq (name : String) : other.termOf? name = glossary.termOf? name :=
  Option.ext fun term => by
    rw [termOf?_eq_some_iff, termOf?_eq_some_iff, regroups.means_iff]

theorem aliasesFrom_eq (levels : Nat) :
    other.aliasesFrom levels = glossary.aliasesFrom levels := by
  induction levels with
  | zero => rfl
  | succ levels ih =>
    funext term
    cases term with
    | reference name => rw [aliasesFrom, aliasesFrom, regroups.termOf?_eq, ih]
    | _ => rfl

theorem requiredBy_ungroup {expr : TypeExpr} (proper : Proper expr) :
    other.requiredBy (ungroup false expr) = glossary.requiredBy expr := by
  have same : other.termOfExpr? (ungroup false expr) = glossary.termOfExpr? expr :=
    Option.ext fun term => by
      rw [termOfExpr?_eq_some_iff, termOfExpr?_eq_some_iff]
      refine exists_congr fun levels => ?_
      simp only [regroups.listedWithin_eq, exprMeaning_ungroup regroups.sameNames expr proper]
  rw [requiredBy, requiredBy, same, regroups.aliasesFrom_eq]

end

mutual

/-- An expression requires the same models, in the same order, without groups in its chains. -/
theorem requirementsOfExpr_ungroup (regroups : Regroups glossary other) :
    ∀ expr : TypeExpr, Proper expr →
    other.requirementsOfExpr (ungroup false expr) = glossary.requirementsOfExpr expr
  | .keyword _, _ | .string _, _ | .number _, _ | .boolean _, _ => rfl
  | .array element, proper => by
    cases proper with
    | array proper =>
      rw [ungroup, requirementsOfExpr, requirementsOfExpr,
        requirementsOfExpr_ungroup regroups element proper]
  | .union members, proper => by
    cases proper with
    | union _ proper =>
      rw [ungroup, requirementsOfExpr, requirementsOfExpr,
        requirementsOfExprs_ungroup regroups members proper]
  | .intersection members, proper => by
    cases proper with
    | intersection _ proper =>
      rw [ungroup, requirementsOfExpr, requirementsOfExpr,
        requirementsOfOperands_ungroup regroups members proper]
  | .reference name [], _ => by
    unfold ungroup
    simp only [ungroupEach, requirementsOfExpr]
  | .reference name [operand], proper => by
    cases proper with
    | reference proper =>
      have proper := proper operand (List.mem_singleton_self operand)
      unfold ungroup
      simp only [ungroupEach, requirementsOfExpr,
        requirementsOfExpr_ungroup regroups operand proper, regroups.requiredBy_ungroup proper]
  | .reference name [operand, keys], proper => by
    cases proper with
    | reference proper =>
      have proper := proper operand List.mem_cons_self
      unfold ungroup
      simp only [requirementsOfExpr, requirementsOfExpr_ungroup regroups operand proper,
        regroups.requiredBy_ungroup proper]
  | .reference name (_ :: _ :: _ :: _), _ => by
    unfold ungroup
    simp only [ungroupEach, requirementsOfExpr]
termination_by structural expr => expr

theorem requirementsOfExprs_ungroup (regroups : Regroups glossary other) :
    ∀ members : List TypeExpr, (∀ m ∈ members, Proper m) →
    other.requirementsOfExprs (ungroupUnion false members) = glossary.requirementsOfExprs members
  | [], _ => rfl
  | member :: rest, proper => by
    obtain ⟨properFirst, proper⟩ := List.forall_mem_cons.1 proper
    rw [ungroupUnion, requirementsOfExprs_append, requirementsOfExprs_alternatives,
      requirementsOfExpr_ungroup regroups member properFirst,
      requirementsOfExprs_ungroup regroups rest proper, requirementsOfExprs]
termination_by structural members => members

theorem requirementsOfOperands_ungroup (regroups : Regroups glossary other) :
    ∀ members : List TypeExpr, (∀ m ∈ members, Proper m) →
    other.requirementsOfOperands (ungroupIntersection false members)
      = glossary.requirementsOfOperands members
  | [], _ => rfl
  | member :: rest, proper => by
    obtain ⟨properFirst, proper⟩ := List.forall_mem_cons.1 proper
    rw [ungroupIntersection, requirementsOfOperands_append,
      requirementsOfOperands_operands fun members is => two_le_of_ungroup_eq properFirst is,
      requirementsOfExpr_ungroup regroups member properFirst,
      regroups.requiredBy_ungroup properFirst, requirementsOfOperands_ungroup regroups rest proper,
      requirementsOfOperands, List.append_assoc]
termination_by structural members => members

end

/-- Expressions that are the same without groups require the same models in the same order. -/
theorem requirementsOfExpr_eq (regroups : Regroups glossary other) {expr expr' : TypeExpr}
    (proper : Proper expr) (proper' : Proper expr')
    (same : expr.ungroup false = expr'.ungroup false) :
    other.requirementsOfExpr expr' = glossary.requirementsOfExpr expr := by
  rw [← regroups.requirementsOfExpr_ungroup expr proper, same]
  exact ((Regroups.refl other).requirementsOfExpr_ungroup expr' proper').symm

open Json

mutual

/-- Values that differ in how chains are grouped require the same models in the same order. -/
theorem requirementsOfValue_eq (regroups : Regroups glossary other) :
    ∀ {value regrouped : Json}, Rewritten (Regrouped false) value regrouped →
    other.requirementsOfValue regrouped = glossary.requirementsOfValue value
  | _, _, .here (.texts parses parses' same) => by
    simp only [requirementsOfValue, parses, parses']
    exact regroups.requirementsOfExpr_eq (TypeExpr.proper_of_parse parses)
      (TypeExpr.proper_of_parse parses') same
  | _, _, .null | _, _, .bool _ | _, _, .number _ => rfl
  | _, _, .string text => by
    unfold requirementsOfValue
    cases parses : TypeExpr.parse text with
    | error error => rfl
    | ok expr =>
      have proper := TypeExpr.proper_of_parse parses
      exact regroups.requirementsOfExpr_eq proper proper rfl
  | _, _, .array h => by
    rw [requirementsOfValue, requirementsOfValue, requirementsOfItems_eq regroups h]
  | _, _, .object h => by
    rw [requirementsOfValue, requirementsOfValue, requirementsOfMembers_eq regroups h]

theorem requirementsOfItems_eq (regroups : Regroups glossary other) :
    ∀ {items regrouped : List Json}, RewrittenItems (Regrouped false) items regrouped →
    other.requirementsOfItems regrouped = glossary.requirementsOfItems items
  | _, _, .nil => rfl
  | _, _, .cons first rest => by
    rw [requirementsOfItems, requirementsOfItems, requirementsOfValue_eq regroups first,
      requirementsOfItems_eq regroups rest]

theorem requirementsOfMembers_eq (regroups : Regroups glossary other) :
    ∀ {members regrouped : List (String × Json)},
    RewrittenMembers (Regrouped false) members regrouped →
    other.requirementsOfMembers regrouped = glossary.requirementsOfMembers members
  | _, _, .nil => rfl
  | _, _, .cons _ first rest => by
    rw [requirementsOfMembers, requirementsOfMembers, requirementsOfValue_eq regroups first,
      requirementsOfMembers_eq regroups rest]

end

section

variable (regroups : Regroups glossary other)

include regroups

theorem requirementsOf_eq : other.requirementsOf = glossary.requirementsOf := by
  funext name
  unfold requirementsOf
  rcases regroups.values name with ⟨none, none'⟩ | ⟨value, value', is, is', rewritten⟩
  · rw [none, none', Option.elim_none, Option.elim_none]
  · rw [is, is', Option.elim_some, Option.elim_some, regroups.requirementsOfValue_eq rewritten]

theorem alias_eq : other.Alias = glossary.Alias :=
  funext fun _ => funext fun _ => propext regroups.means_iff

theorem hasLongAliases_iff : other.HasLongAliases ↔ glossary.HasLongAliases := by
  rw [HasLongAliases, HasLongAliases, regroups.alias_eq]

theorem isSome_valueOf_iff (name : String) :
    (other.valueOf name).isSome = (glossary.valueOf name).isSome := by
  rcases regroups.values name with ⟨none, none'⟩ | ⟨value, value', is, is', _⟩
  · rw [none, none']
  · rw [is, is', Option.isSome_some, Option.isSome_some]

theorem isCrowded_iff : other.IsCrowded ↔ glossary.IsCrowded := by
  simp only [IsCrowded, regroups.isSome_valueOf_iff]

end

end Regroups

end Glossary

theorem Regrouped.symm {inKeys : Bool} {value other : Json} (h : Regrouped inKeys value other) :
    Regrouped inKeys other value := by
  cases h with
  | texts parses parses' same => exact .texts parses' parses same.symm

theorem Json.Rewritten.regrouped_symm {inKeys : Bool} {value other : Json}
    (h : Json.Rewritten (Regrouped inKeys) value other) :
    Json.Rewritten (Regrouped inKeys) other value := by
  have swap : (fun other value => Regrouped inKeys value other) = Regrouped inKeys :=
    funext fun _ => funext fun _ => propext ⟨.symm, .symm⟩
  exact swap ▸ h.symm

theorem Glossary.Regroups.symm {glossary other : Glossary} (regroups : Regroups glossary other) :
    Regroups other glossary where
  values name := by
    rcases regroups.values name with ⟨none, none'⟩ | ⟨value, value', is, is', rewritten⟩
    · exact .inl ⟨none', none⟩
    · exact .inr ⟨value', value, is', is, rewritten.regrouped_symm⟩
  leaves := regroups.leaves.symm

namespace Document

variable {document other : Document}

/-- The documents differ in how chains in the values of their models are grouped. -/
structure Regroups (document other : Document) : Prop where
  keys : other.models.keys = document.models.keys
  glossaries : Glossary.Regroups document.glossary other.glossary
  hints : other.hints = document.hints
  mode : other.mode = document.mode

namespace Regroups

theorem symm (regroups : document.Regroups other) : other.Regroups document :=
  ⟨regroups.keys.symm, regroups.glossaries.symm, regroups.hints.symm, regroups.mode.symm⟩

variable (regroups : document.Regroups other)

include regroups

theorem schedule_eq : other.schedule = document.schedule := by
  rw [schedule, schedule, regroups.keys, regroups.glossaries.requirementsOf_eq]

theorem lowerable (lowerable : document.Lowerable) : other.Lowerable := by
  have leaves : other.leaves = document.leaves := regroups.glossaries.leaves
  refine ⟨⟨?_, ?_, ?_⟩, fun name declared => ?_, ?_, ?_, ?_, ?_, ?_⟩
  · exact leaves ▸ lowerable.namesApart.leaves
  · rw [leaves, regroups.keys]
    exact lowerable.namesApart.untaken
  · rw [leaves, regroups.keys]
    exact lowerable.namesApart.models
  · simpa only [regroups.glossaries.means_iff] using
      lowerable.meaningful name (regroups.keys ▸ declared)
  · exact mt regroups.glossaries.hasLongAliases_iff.1 lowerable.short
  · exact mt regroups.glossaries.isCrowded_iff.1 lowerable.few
  · exact regroups.schedule_eq ▸ lowerable.scheduled
  · rw [hint, regroups.hints]
    exact lowerable.hints
  · rw [modeChoice, regroups.mode]
    exact lowerable.mode

/-- A document is lowered in any grouping of the chains in it, or in none. -/
theorem lowers_iff :
    (∃ lowered, other.lower = .ok lowered) ↔ ∃ lowered, document.lower = .ok lowered := by
  rw [exists_lower_iff, exists_lower_iff]
  exact ⟨regroups.symm.lowerable, regroups.lowerable⟩

/-- The models of a document have the same structure in any grouping. -/
theorem exists_structure? {lowered result : Lowered} (h : document.lower = .ok lowered)
    (h' : other.lower = .ok result) {name : String} (declared : name ∈ document.models.keys) :
    ∃ term, lowered.structure? name = some term ∧ result.structure? name = some term := by
  obtain ⟨term, is, means⟩ := exists_structure?_of_lower h declared
  obtain ⟨term', is', means'⟩ := exists_structure?_of_lower h' (regroups.keys.symm ▸ declared)
  cases means.unique (regroups.glossaries.means_iff.1 means')
  exact ⟨term, is, is'⟩

end Regroups

end Document

end ModelForms
