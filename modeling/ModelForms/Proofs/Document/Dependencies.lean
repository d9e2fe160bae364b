import Mathlib.Data.List.Chain
import Mathlib.Logic.Relation
import ModelForms.Proofs.Document.Meaning
import ModelForms.Proofs.Expr.Parsing

/-!
# Which models depend on which

A model is an alias of another if its value means a reference to it and nothing else.  It is
composed from another if an operand of a composition anywhere in its value names the other,
directly or through aliases.

A composition is of no meaning unless its operands list properties, and a model lists properties
over more levels than its value needs for a meaning.  So where every model has a meaning no model
is composed from itself (`Glossary.not_transGen_composedFrom`).
-/

namespace ModelForms

/-- Going around a cycle gives chains of any length. -/
theorem exists_isChain_of_cycle {α : Type} {r : α → α → Prop} (n : Nat) {a : α}
    (cycle : Relation.TransGen r a a) :
    ∃ rest : List α, rest.length = n ∧ (a :: rest).IsChain r := by
  induction n generalizing a with
  | zero => exact ⟨[], rfl, .singleton a⟩
  | succ n ih =>
    obtain ⟨b, step, back⟩ := Relation.TransGen.head'_iff.1 cycle
    obtain ⟨rest, length, links⟩ := ih (Relation.TransGen.tail' back step)
    exact ⟨b :: rest, congrArg Nat.succ length, List.isChain_cons_cons.2 ⟨step, links⟩⟩

/-- What occurs twice on a chain is on a cycle. -/
theorem exists_cycle_of_not_nodup {α : Type} {r : α → α → Prop} {chain : List α}
    (links : chain.IsChain r) (twice : ¬ chain.Nodup) :
    ∃ a ∈ chain, Relation.TransGen r a a := by
  induction chain with
  | nil => exact absurd .nil twice
  | cons a rest ih =>
    by_cases mem : a ∈ rest
    · exact ⟨a, List.mem_cons_self, (links.imp fun _ _ => Relation.TransGen.single).rel_cons mem⟩
    · have twice : ¬ rest.Nodup := fun distinct => twice (List.nodup_cons.2 ⟨mem, distinct⟩)
      obtain ⟨b, mem, cycle⟩ := ih links.tail twice
      exact ⟨b, List.mem_cons_of_mem a mem, cycle⟩

namespace Glossary

open Relation Lowering

/-! ## Operands -/

mutual

/-- The operands of the compositions in a type expression. -/
def operandsOfExpr : TypeExpr → List TypeExpr
  | .keyword _ | .string _ | .number _ | .boolean _ => []
  | .array element => operandsOfExpr element
  | .union members => operandsOfExprs members
  | .intersection members => members ++ operandsOfExprs members
  | .reference name args =>
      match args with
      | [operand] =>
          if name = "Partial" then operand :: operandsOfExpr operand else operandsOfExpr operand
      | [operand, _] => operand :: operandsOfExpr operand
      | _ => []
termination_by structural expr => expr

/-- The operands of the compositions in type expressions. -/
def operandsOfExprs : List TypeExpr → List TypeExpr
  | [] => []
  | expr :: rest => operandsOfExpr expr ++ operandsOfExprs rest
termination_by structural exprs => exprs

end

mutual

/-- The operands of the compositions in a value. -/
def operandsOfValue : Json → List TypeExpr
  | .string text =>
      match TypeExpr.parse text with
      | .ok expr => operandsOfExpr expr
      | .error _ => []
  | .array items => operandsOfItems items
  | .object members => operandsOfMembers members
  | .null | .bool _ | .number _ => []
termination_by structural value => value

/-- The operands of the compositions in the items of an array. -/
def operandsOfItems : List Json → List TypeExpr
  | [] => []
  | item :: rest => operandsOfValue item ++ operandsOfItems rest
termination_by structural items => items

/-- The operands of the compositions in the members of an object. -/
def operandsOfMembers : List (String × Json) → List TypeExpr
  | [] => []
  | (_, value) :: rest => operandsOfValue value ++ operandsOfMembers rest
termination_by structural members => members

end

/-! ## Dependencies -/

variable (glossary : Glossary)

/-- The value of a model is nothing but the name of another. -/
def Alias (name target : String) : Prop := glossary.Means name (.reference target)

/-- An operand names a model, directly or through aliases. -/
def Names (operand : TypeExpr) (target : String) : Prop :=
  ∃ name, glossary.ExprMeans operand (.reference name) ∧ ReflTransGen glossary.Alias name target

/-- An operand in the value of a model names another. -/
def ComposedFrom (name target : String) : Prop :=
  ∃ value, glossary.valueOf name = some value
    ∧ ∃ operand ∈ operandsOfValue value, glossary.Names operand target

/-- A model is an alias of another or composed from it. -/
def DependsOn (name target : String) : Prop :=
  glossary.Alias name target ∨ glossary.ComposedFrom name target

/-- Models of which each is an alias of the next, more than are followed. -/
def HasLongAliases : Prop :=
  ∃ chain : List String, chain.length = Limits.modelDepth + 1 ∧ chain.IsChain glossary.Alias

variable {glossary : Glossary} {listing : Listing} {name target : String}

theorem DependsOn.of_alias (h : glossary.Alias name target) :
    glossary.DependsOn name target :=
  .inl h

theorem DependsOn.of_composedFrom (h : glossary.ComposedFrom name target) :
    glossary.DependsOn name target :=
  .inr h

/-- Only a model depends on others. -/
theorem DependsOn.exists_value (h : glossary.DependsOn name target) :
    ∃ value, glossary.valueOf name = some value := by
  rcases h with ⟨value, is, _⟩ | ⟨value, is, _⟩ <;> exact ⟨value, is⟩

/-! ## Names and objects -/

/-- The name that a value is, if it is nothing else. -/
def nameOf? : Json → Option String
  | .string text =>
      match TypeExpr.parse text with
      | .ok (.reference name []) => some name
      | _ => none
  | _ => none

theorem eq_of_nameOf? {value : Json} (h : nameOf? value = some name) :
    ∃ text, value = .string text ∧ TypeExpr.parse text = .ok (.reference name []) := by
  unfold nameOf? at h
  split at h
  next text =>
    split at h
    next parses =>
      cases h
      exact ⟨text, rfl, parses⟩
    next => cases h
  next => cases h

/-- A model whose value is a name depends on the model with this name and on nothing else. -/
theorem DependsOn.eq_of_name {value : Json} {other : String}
    (h : glossary.DependsOn name target) (is : glossary.valueOf name = some value)
    (named : nameOf? value = some other) : target = other := by
  obtain ⟨text, rfl, parses⟩ := eq_of_nameOf? named
  rcases h with ⟨_, is', means⟩ | ⟨_, is', operand, mem, _⟩
  · cases is.symm.trans is'
    obtain ⟨_, parses', means⟩ := valueMeans_text_iff.1 means
    cases parses.symm.trans parses'
    have means := exprMeans_name_iff.1 means
    unfold nameMeaning at means
    split at means
    next => cases means
    next =>
      split at means
      next =>
        cases means
        rfl
      next => split at means <;> cases means
  · cases is.symm.trans is'
    unfold operandsOfValue at mem
    rw [parses] at mem
    simp [operandsOfExpr] at mem

/-- A model that lists properties depends on another only through the compositions in it. -/
theorem not_dependsOn_of_members {members : List (String × Json)}
    (is : glossary.valueOf name = some (.object members))
    (plain : ∀ key inner, members = [(key, inner)] → isDirective key = false)
    (simple : operandsOfMembers members = []) : ¬ glossary.DependsOn name target := by
  rintro (⟨_, is', means⟩ | ⟨_, is', operand, mem, _⟩)
  · cases is.symm.trans is'
    obtain ⟨_, _, impossible⟩ := (valueMeans_members_iff plain).1 means
    cases impossible
  · cases is.symm.trans is'
    unfold operandsOfValue at mem
    rw [simple] at mem
    cases mem

/-! ## Operands list properties -/

/-- An operand that means a type with properties. -/
def IsListed (glossary : Glossary) (listing : Listing) (operand : TypeExpr) : Prop :=
  ∃ term properties, glossary.exprMeaning listing operand = some term
    ∧ term.properties? listing = some properties

mutual

theorem isListed_of_exprMeaning : ∀ (expr : TypeExpr) {term : NamedTerm}, Grammar.Proper expr →
    glossary.exprMeaning listing expr = some term →
    ∀ operand ∈ operandsOfExpr expr, glossary.IsListed listing operand
  | .keyword _, _, _, _ | .string _, _, _, _ | .number _, _, _, _ | .boolean _, _, _, _ => by
    simp [operandsOfExpr]
  | .array element, _, proper, h => by
    cases proper with
    | array proper =>
      simp only [exprMeaning] at h
      obtain ⟨_, means, _⟩ := Option.bind_eq_some_iff.1 h
      simpa only [operandsOfExpr] using isListed_of_exprMeaning element proper means
  | .union members, _, proper, h => by
    cases proper with
    | union _ proper =>
      simp only [exprMeaning] at h
      obtain ⟨_, means, _⟩ := Option.bind_eq_some_iff.1 h
      simpa only [operandsOfExpr] using isListed_of_exprMeanings members proper means
  | .intersection [], _, proper, _ | .intersection [_], _, proper, _ => by
    cases proper with
    | intersection several => simp at several
  | .intersection (first :: second :: rest), _, proper, h => by
    cases proper with
    | intersection _ proper =>
      obtain ⟨properFirst, proper⟩ := List.forall_mem_cons.1 proper
      simp only [exprMeaning] at h
      obtain ⟨base, means, h⟩ := Option.bind_eq_some_iff.1 h
      have others := isListed_of_intersectionMeaning (second :: rest) proper h
      rw [List.forall_mem_append] at others
      simp only [intersectionMeaning] at h
      obtain ⟨_, _, h⟩ := Option.bind_eq_some_iff.1 h
      obtain ⟨properties, lists, _⟩ := Option.bind_eq_some_iff.1 h
      simp only [operandsOfExpr]
      rw [operandsOfExprs]
      exact List.forall_mem_append.2 ⟨List.forall_mem_cons.2
        ⟨⟨base, properties, means, lists⟩, others.1⟩, List.forall_mem_append.2
          ⟨isListed_of_exprMeaning first properFirst means, others.2⟩⟩
  | .reference name [], _, _, _ => by
    simp [operandsOfExpr]
  | .reference name [operand], _, proper, h => by
    cases proper with
    | reference proper =>
      have proper := proper operand (List.mem_singleton_self operand)
      simp only [exprMeaning] at h
      simp only [operandsOfExpr]
      split at h
      next same =>
        subst same
        obtain ⟨_, means, _⟩ := Option.bind_eq_some_iff.1 h
        rw [if_neg (by decide)]
        exact isListed_of_exprMeaning operand proper means
      next =>
        split at h
        next partly =>
          obtain ⟨term, means, h⟩ := Option.bind_eq_some_iff.1 h
          obtain ⟨properties, lists, _⟩ := Option.bind_eq_some_iff.1 h
          rw [if_pos partly]
          exact List.forall_mem_cons.2
            ⟨⟨term, properties, means, lists⟩, isListed_of_exprMeaning operand proper means⟩
        next => cases h
  | .reference name [operand, keys], _, proper, h => by
    cases proper with
    | reference proper =>
      have proper := proper operand List.mem_cons_self
      simp only [exprMeaning] at h
      simp only [operandsOfExpr]
      split at h
      next =>
        obtain ⟨term, means, h⟩ := Option.bind_eq_some_iff.1 h
        obtain ⟨properties, lists, _⟩ := Option.bind_eq_some_iff.1 h
        exact List.forall_mem_cons.2
          ⟨⟨term, properties, means, lists⟩, isListed_of_exprMeaning operand proper means⟩
      next => cases h
  | .reference name (_ :: _ :: _ :: _), _, _, _ => by
    simp [operandsOfExpr]

theorem isListed_of_exprMeanings : ∀ (exprs : List TypeExpr) {terms : List NamedTerm},
    (∀ expr ∈ exprs, Grammar.Proper expr) → glossary.exprMeanings listing exprs = some terms →
    ∀ operand ∈ operandsOfExprs exprs, glossary.IsListed listing operand
  | [], _, _, _ => by
    simp [operandsOfExprs]
  | expr :: rest, _, proper, h => by
    obtain ⟨properFirst, proper⟩ := List.forall_mem_cons.1 proper
    simp only [exprMeanings] at h
    obtain ⟨_, means, h⟩ := Option.bind_eq_some_iff.1 h
    obtain ⟨_, others, _⟩ := Option.bind_eq_some_iff.1 h
    simp only [operandsOfExprs]
    exact List.forall_mem_append.2 ⟨isListed_of_exprMeaning expr properFirst means,
      isListed_of_exprMeanings rest proper others⟩

/-- The operands of `&` after the first one. -/
theorem isListed_of_intersectionMeaning : ∀ (exprs : List TypeExpr) {base term : NamedTerm},
    (∀ expr ∈ exprs, Grammar.Proper expr) →
    glossary.intersectionMeaning listing base exprs = some term →
    ∀ operand ∈ exprs ++ operandsOfExprs exprs, glossary.IsListed listing operand
  | [], _, _, _, _ => by
    simp [operandsOfExprs]
  | expr :: rest, base, _, proper, h => by
    obtain ⟨properFirst, proper⟩ := List.forall_mem_cons.1 proper
    simp only [intersectionMeaning] at h
    obtain ⟨term, means, h⟩ := Option.bind_eq_some_iff.1 h
    obtain ⟨_, _, h⟩ := Option.bind_eq_some_iff.1 h
    obtain ⟨extra, lists, h⟩ := Option.bind_eq_some_iff.1 h
    have others := isListed_of_intersectionMeaning rest proper h
    rw [List.forall_mem_append] at others
    simp only [operandsOfExprs]
    exact List.forall_mem_append.2 ⟨List.forall_mem_cons.2 ⟨⟨term, extra, means, lists⟩, others.1⟩,
      List.forall_mem_append.2 ⟨isListed_of_exprMeaning expr properFirst means, others.2⟩⟩

end

mutual

theorem isListed_of_valueMeaning : ∀ (value : Json) {term : NamedTerm},
    glossary.valueMeaning listing value = some term →
    ∀ operand ∈ operandsOfValue value, glossary.IsListed listing operand
  | .null, _, _ | .bool _, _, _ | .number _, _, _ => by
    simp [operandsOfValue]
  | .array _, _, h => by
    unfold valueMeaning at h
    cases h
  | .string text, _, h => by
    unfold valueMeaning textMeaning at h
    unfold operandsOfValue
    cases parses : TypeExpr.parse text with
    | ok expr =>
      rw [parses] at h
      exact isListed_of_exprMeaning expr (TypeExpr.proper_of_parse parses) h
    | error error =>
      rw [parses] at h
      cases h
  | .object [(key, inner)], _, h => by
    have inside {term : NamedTerm} (h : glossary.valueMeaning listing inner = some term) :
        ∀ operand ∈ operandsOfMembers [(key, inner)], glossary.IsListed listing operand := by
      simpa [operandsOfMembers] using isListed_of_valueMeaning inner h
    unfold operandsOfValue
    cases keyForm key with
    | array is =>
      subst is
      rw [valueMeaning_array] at h
      obtain ⟨_, means, _⟩ := Option.bind_eq_some_iff.1 h
      exact inside means
    | nullable is =>
      subst is
      rw [valueMeaning_nullable] at h
      obtain ⟨_, means, _⟩ := Option.bind_eq_some_iff.1 h
      exact inside means
    | union is =>
      subst is
      match inner, h with
      | .array items, h =>
        rw [valueMeaning_union] at h
        obtain ⟨_, means, _⟩ := Option.bind_eq_some_iff.1 h
        simpa [operandsOfMembers, operandsOfValue] using isListed_of_itemMeanings items means
      | .null, h | .bool _, h | .number _, h | .string _, h | .object _, h => cases h
    | unknown directive unknown =>
      rw [valueMeaning_unknown directive unknown] at h
      cases h
    | name plain =>
      rw [valueMeaning_members (plain_of_name plain inner)] at h
      obtain ⟨_, means, _⟩ := Option.bind_eq_some_iff.1 h
      exact isListed_of_memberMeanings [(key, inner)] means
  | .object [], _, _ => by
    simp [operandsOfValue, operandsOfMembers]
  | .object (first :: second :: rest), _, h => by
    unfold operandsOfValue
    rw [valueMeaning_members (by simp)] at h
    obtain ⟨_, means, _⟩ := Option.bind_eq_some_iff.1 h
    exact isListed_of_memberMeanings (first :: second :: rest) means

theorem isListed_of_itemMeanings : ∀ (items : List Json) {terms : List NamedTerm},
    glossary.itemMeanings listing items = some terms →
    ∀ operand ∈ operandsOfItems items, glossary.IsListed listing operand
  | [], _, _ => by
    simp [operandsOfItems]
  | item :: rest, _, h => by
    unfold itemMeanings at h
    unfold operandsOfItems
    obtain ⟨_, means, h⟩ := Option.bind_eq_some_iff.1 h
    obtain ⟨_, others, _⟩ := Option.bind_eq_some_iff.1 h
    exact List.forall_mem_append.2
      ⟨isListed_of_valueMeaning item means, isListed_of_itemMeanings rest others⟩

theorem isListed_of_memberMeanings : ∀ (members : List (String × Json)) {seen : List String}
    {properties : NamedProperties},
    glossary.memberMeanings listing seen members = some properties →
    ∀ operand ∈ operandsOfMembers members, glossary.IsListed listing operand
  | [], _, _, _ => by
    simp [operandsOfMembers]
  | (_, value) :: rest, _, _, h => by
    unfold memberMeanings at h
    unfold operandsOfMembers
    simp only at h
    split at h
    next => cases h
    next =>
      obtain ⟨_, means, h⟩ := Option.bind_eq_some_iff.1 h
      obtain ⟨_, others, _⟩ := Option.bind_eq_some_iff.1 h
      exact List.forall_mem_append.2
        ⟨isListed_of_valueMeaning value means, isListed_of_memberMeanings rest others⟩

end

/-! ## No model is composed from itself -/

/-- The value of a model has a meaning over a number of levels. -/
def MeansWithin (glossary : Glossary) (levels : Nat) (name : String) : Prop :=
  ∃ value term, glossary.valueOf name = some value
    ∧ glossary.valueMeaning (glossary.listedWithin levels) value = some term

theorem Means.meansWithin {term : NamedTerm} (h : glossary.Means name term) :
    ∃ levels, glossary.MeansWithin levels name := by
  obtain ⟨value, is, levels, means⟩ := h
  exact ⟨levels, value, term, is, means⟩

/-- A model lists properties over more levels than its value needs. -/
theorem exists_meansWithin_of_listedWithin {levels : Nat}
    (h : (glossary.listedWithin levels name).isSome = true) :
    ∃ lower < levels, glossary.MeansWithin lower name := by
  obtain ⟨properties, h⟩ := Option.isSome_iff_exists.1 h
  cases levels with
  | zero => cases h
  | succ levels =>
    obtain ⟨value, is, h⟩ := Option.bind_eq_some_iff.1 h
    obtain ⟨term, means, _⟩ := Option.bind_eq_some_iff.1 h
    exact ⟨levels, Nat.lt_succ_self levels, value, term, is, means⟩

/-- What an alias lists is listed by the model that it names. -/
theorem listedWithin_of_alias {levels : Nat} (step : glossary.Alias name target)
    (h : (glossary.listedWithin levels name).isSome = true) :
    (glossary.listedWithin levels target).isSome = true := by
  obtain ⟨properties, h⟩ := Option.isSome_iff_exists.1 h
  cases levels with
  | zero => cases h
  | succ levels =>
    obtain ⟨value, is, h⟩ := Option.bind_eq_some_iff.1 h
    obtain ⟨term, means, lists⟩ := Option.bind_eq_some_iff.1 h
    cases step.unique ⟨value, is, levels, means⟩
    exact Option.isSome_iff_exists.2 ⟨properties, listedWithin_succ levels lists⟩

/-- The models that a model is composed from need fewer levels for their meaning. -/
theorem ComposedFrom.exists_lower (h : glossary.ComposedFrom name target) {levels : Nat}
    (means : glossary.MeansWithin levels name) :
    ∃ lower < levels, glossary.MeansWithin lower target := by
  obtain ⟨value, is, operand, mem, first, named, aliases⟩ := h
  obtain ⟨value', term, is', means⟩ := means
  cases is.symm.trans is'
  obtain ⟨operandTerm, properties, means, lists⟩ := isListed_of_valueMeaning value means operand mem
  cases Yields.unique (steady_exprMeaning operand) named ⟨levels, means⟩
  refine exists_meansWithin_of_listedWithin ?_
  have listed : (glossary.listedWithin levels first).isSome = true :=
    Option.isSome_iff_exists.2 ⟨properties, lists⟩
  clear lists named
  induction aliases with
  | refl => exact listed
  | tail _ step ih => exact listedWithin_of_alias step ih

theorem exists_lower_of_transGen (h : TransGen glossary.ComposedFrom name target) {levels : Nat}
    (means : glossary.MeansWithin levels name) :
    ∃ lower < levels, glossary.MeansWithin lower target := by
  induction h with
  | single step => exact step.exists_lower means
  | tail _ step ih =>
    obtain ⟨middle, lt, means⟩ := ih
    obtain ⟨lower, lt', means⟩ := step.exists_lower means
    exact ⟨lower, Nat.lt_trans lt' lt, means⟩

/-- A model with a meaning is not composed from itself. -/
theorem not_transGen_composedFrom {term : NamedTerm} (means : glossary.Means name term) :
    ¬ TransGen glossary.ComposedFrom name name := by
  intro cycle
  obtain ⟨levels, within⟩ := means.meansWithin
  induction levels using Nat.strong_induction_on with
  | _ levels ih =>
    obtain ⟨lower, lt, within⟩ := exists_lower_of_transGen cycle within
    exact ih lower lt within

theorem hasLongAliases_of_cycle (cycle : TransGen glossary.Alias name name) :
    glossary.HasLongAliases := by
  obtain ⟨rest, length, links⟩ := exists_isChain_of_cycle Limits.modelDepth cycle
  exact ⟨name :: rest, congrArg Nat.succ length, links⟩

end Glossary

end ModelForms
