import ModelForms.Proofs.Document.Meaning
import ModelForms.Proofs.Expr.Parsing
import ModelForms.Proofs.Expr.Regrouping
import ModelForms.Proofs.Json.Rewriting
import ModelForms.Proofs.Types.NamedLaws

/-!
# Meanings of regrouped expressions

An expression means the same without groups in its chains, where the keys of `Omit` and `Pick` are
left as they are (`Glossary.exprMeaning_ungroup`).  For `|` the reason is that a union takes the
members of a union among its members, and for `&` that merging is associative.  What `&` makes of
its operands is told by all their properties together (`Glossary.exprMeaning_intersection`).
-/

namespace ModelForms

namespace NamedProperties

/-- The properties of several lists, merged one after another. -/
def mergeAll (lists : List NamedProperties) : NamedProperties := lists.foldl merge []

theorem merge_nil (base : NamedProperties) : base.merge [] = base := by
  rw [merge_eq, List.filter_nil, List.append_nil]
  exact List.map_id base

theorem nil_merge (extra : NamedProperties) : merge [] extra = extra := by
  simp [merge]

theorem foldl_merge (lists : List NamedProperties) (base : NamedProperties) :
    lists.foldl merge base = base.merge (mergeAll lists) := by
  unfold mergeAll
  induction lists generalizing base with
  | nil => exact (merge_nil base).symm
  | cons first rest ih =>
    rw [List.foldl_cons, List.foldl_cons, ih, ih (merge [] first), nil_merge, merge_assoc]

theorem mergeAll_cons (first : NamedProperties) (rest : List NamedProperties) :
    mergeAll (first :: rest) = first.merge (mergeAll rest) := by
  rw [mergeAll, List.foldl_cons, nil_merge, foldl_merge]

theorem mergeAll_append (lists more : List NamedProperties) :
    mergeAll (lists ++ more) = (mergeAll lists).merge (mergeAll more) := by
  rw [mergeAll, List.foldl_append, foldl_merge]
  rfl

end NamedProperties

namespace Glossary

open Grammar NamedTerm Lowering

variable {glossary : Glossary} {listing : Listing}

/-! ## Unions in unions -/

theorem regular_of_nameMeaning {name : String} {term : NamedTerm}
    (h : glossary.nameMeaning name = some term) : Regular term := by
  unfold nameMeaning at h
  split at h
  next => cases h
  next =>
    split at h
    next =>
      cases h
      exact regular_of_ne_union (by simp)
    next =>
      split at h
      next =>
        cases h
        exact regular_of_ne_union (by simp)
      next => cases h

mutual

/-- The members of a union that an expression means are no unions. -/
theorem regular_of_exprMeaning : ∀ (expr : TypeExpr) {term : NamedTerm},
    glossary.exprMeaning listing expr = some term → Regular term
  | .keyword _, _, h | .string _, _, h | .number _, _, h | .boolean _, _, h => by
    simp only [exprMeaning] at h
    cases h
    exact regular_of_ne_union (by simp)
  | .array element, _, h => by
    simp only [exprMeaning] at h
    obtain ⟨_, _, h⟩ := Option.bind_eq_some_iff.1 h
    cases h
    exact regular_of_ne_union (by simp)
  | .union members, _, h => by
    simp only [exprMeaning] at h
    obtain ⟨terms, mean, h⟩ := Option.bind_eq_some_iff.1 h
    cases h
    exact regular_unionOf fun term mem => (regular_of_exprMeanings members mean term mem).flat
  | .intersection [], _, h => by
    simp only [exprMeaning] at h
    cases h
  | .intersection (first :: rest), _, h => by
    simp only [exprMeaning] at h
    obtain ⟨base, means, h⟩ := Option.bind_eq_some_iff.1 h
    exact regular_of_intersectionMeaning rest (regular_of_exprMeaning first means) h
  | .reference name [], _, h => by
    simp only [exprMeaning] at h
    exact regular_of_nameMeaning h
  | .reference name [operand], _, h => by
    simp only [exprMeaning] at h
    split at h
    next =>
      obtain ⟨_, _, h⟩ := Option.bind_eq_some_iff.1 h
      cases h
      exact regular_of_ne_union (by simp)
    next =>
      split at h
      next =>
        obtain ⟨_, _, h⟩ := Option.bind_eq_some_iff.1 h
        obtain ⟨_, _, h⟩ := Option.bind_eq_some_iff.1 h
        cases h
        exact regular_of_ne_union (by simp)
      next => cases h
  | .reference name [operand, keys], _, h => by
    simp only [exprMeaning] at h
    split at h
    next =>
      obtain ⟨_, _, h⟩ := Option.bind_eq_some_iff.1 h
      obtain ⟨_, _, h⟩ := Option.bind_eq_some_iff.1 h
      obtain ⟨_, _, h⟩ := Option.bind_eq_some_iff.1 h
      cases h
      exact regular_of_ne_union (by simp)
    next => cases h
  | .reference name (_ :: _ :: _ :: _), _, h => by
    simp only [exprMeaning] at h
    cases h

theorem regular_of_exprMeanings : ∀ (exprs : List TypeExpr) {terms : List NamedTerm},
    glossary.exprMeanings listing exprs = some terms → ∀ term ∈ terms, Regular term
  | [], _, h => by
    simp only [exprMeanings] at h
    cases h
    simp
  | expr :: rest, _, h => by
    simp only [exprMeanings] at h
    obtain ⟨_, means, h⟩ := Option.bind_eq_some_iff.1 h
    obtain ⟨_, others, h⟩ := Option.bind_eq_some_iff.1 h
    cases h
    exact List.forall_mem_cons.2
      ⟨regular_of_exprMeaning expr means, regular_of_exprMeanings rest others⟩

theorem regular_of_intersectionMeaning : ∀ (exprs : List TypeExpr) {base term : NamedTerm},
    Regular base → glossary.intersectionMeaning listing base exprs = some term → Regular term
  | [], _, _, regular, h => by
    simp only [intersectionMeaning] at h
    cases h
    exact regular
  | expr :: rest, _, _, _, h => by
    simp only [intersectionMeaning] at h
    obtain ⟨_, _, h⟩ := Option.bind_eq_some_iff.1 h
    obtain ⟨_, _, h⟩ := Option.bind_eq_some_iff.1 h
    obtain ⟨_, _, h⟩ := Option.bind_eq_some_iff.1 h
    exact regular_of_intersectionMeaning rest (regular_of_ne_union (by simp)) h

end

mutual

/-- The members of a union that a value means are no unions. -/
theorem regular_of_valueMeaning : ∀ (value : Json) {term : NamedTerm},
    glossary.valueMeaning listing value = some term → Regular term
  | .null, _, h | .bool _, _, h | .number _, _, h | .array _, _, h => by
    unfold valueMeaning at h
    cases h
  | .string text, _, h => by
    unfold valueMeaning textMeaning at h
    split at h
    next expr _ => exact regular_of_exprMeaning expr h
    next => cases h
  | .object [(key, inner)], _, h => by
    cases keyForm key with
    | array is =>
      subst is
      rw [valueMeaning_array] at h
      obtain ⟨_, _, h⟩ := Option.bind_eq_some_iff.1 h
      cases h
      exact regular_of_ne_union (by simp)
    | nullable is =>
      subst is
      rw [valueMeaning_nullable] at h
      obtain ⟨proper, means, h⟩ := Option.bind_eq_some_iff.1 h
      cases h
      refine regular_unionOf (List.forall_mem_cons.2 ⟨(regular_of_valueMeaning inner means).flat, ?_⟩)
      exact List.forall_mem_singleton.2 (flat_of_ne_union (by simp))
    | union is =>
      subst is
      match inner, h with
      | .array items, h =>
        rw [valueMeaning_union] at h
        obtain ⟨_, mean, h⟩ := Option.bind_eq_some_iff.1 h
        cases h
        exact regular_unionOf fun term mem => (regular_of_itemMeanings items mean term mem).flat
      | .null, h | .bool _, h | .number _, h | .string _, h | .object _, h => cases h
    | unknown directive unknown =>
      rw [valueMeaning_unknown directive unknown] at h
      cases h
    | name plain =>
      rw [valueMeaning_members (plain_of_name plain inner)] at h
      obtain ⟨_, _, h⟩ := Option.bind_eq_some_iff.1 h
      cases h
      exact regular_of_ne_union (by simp)
  | .object [], _, h | .object (_ :: _ :: _), _, h => by
    rw [valueMeaning_members (by simp)] at h
    obtain ⟨_, _, h⟩ := Option.bind_eq_some_iff.1 h
    cases h
    exact regular_of_ne_union (by simp)

theorem regular_of_itemMeanings : ∀ (items : List Json) {terms : List NamedTerm},
    glossary.itemMeanings listing items = some terms → ∀ term ∈ terms, Regular term
  | [], _, h => by
    unfold itemMeanings at h
    cases h
    simp
  | item :: rest, _, h => by
    unfold itemMeanings at h
    obtain ⟨_, means, h⟩ := Option.bind_eq_some_iff.1 h
    obtain ⟨_, others, h⟩ := Option.bind_eq_some_iff.1 h
    cases h
    exact List.forall_mem_cons.2
      ⟨regular_of_valueMeaning item means, regular_of_itemMeanings rest others⟩

end

theorem exprMeanings_append (exprs more : List TypeExpr) :
    glossary.exprMeanings listing (exprs ++ more)
      = glossary.exprMeanings listing exprs >>= fun terms =>
        glossary.exprMeanings listing more >>= fun others => pure (terms ++ others) := by
  induction exprs with
  | nil => simp [exprMeanings]
  | cons expr rest ih => simp [exprMeanings, ih, Option.bind_assoc]

/-! ## Operands of operands -/

/-- The properties that an operand lists. -/
noncomputable def operandListing (glossary : Glossary) (listing : Listing) (expr : TypeExpr) :
    Option NamedProperties :=
  glossary.exprMeaning listing expr >>= fun term => term.properties? listing

theorem mapM_operandListing_cons (expr : TypeExpr) (rest : List TypeExpr) :
    (expr :: rest).mapM (glossary.operandListing listing)
      = glossary.exprMeaning listing expr >>= fun term => term.properties? listing >>= fun first =>
        rest.mapM (glossary.operandListing listing) >>= fun lists => pure (first :: lists) := by
  simp [operandListing, Option.bind_assoc]

theorem intersectionMeaning_eq (base : NamedTerm) (expr : TypeExpr) (rest : List TypeExpr) :
    glossary.intersectionMeaning listing base (expr :: rest)
      = base.properties? listing >>= fun properties =>
        (expr :: rest).mapM (glossary.operandListing listing) >>= fun lists =>
          pure (.object (lists.foldl NamedProperties.merge properties)) := by
  induction rest generalizing base expr with
  | nil =>
    rw [mapM_operandListing_cons]
    cases means : glossary.exprMeaning listing expr with
    | none => cases base.properties? listing <;> simp [intersectionMeaning, means]
    | some term =>
      cases has : base.properties? listing <;> cases has' : term.properties? listing <;>
        simp [intersectionMeaning, means, has, has']
  | cons next rest ih =>
    rw [mapM_operandListing_cons]
    cases means : glossary.exprMeaning listing expr with
    | none => cases base.properties? listing <;> simp [intersectionMeaning, means]
    | some term =>
      cases has : base.properties? listing with
      | none => simp [intersectionMeaning, means, has]
      | some properties =>
        cases has' : term.properties? listing with
        | none => simp [intersectionMeaning, means, has, has']
        | some extra =>
          have listed : (NamedTerm.object (properties.merge extra)).properties? listing
              = some (properties.merge extra) := rfl
          have first : glossary.intersectionMeaning listing base (expr :: next :: rest)
              = glossary.intersectionMeaning listing (.object (properties.merge extra))
                (next :: rest) := by
            rw [intersectionMeaning, means, has]
            show (term.properties? listing >>= _) = _
            rw [has']
            rfl
          rw [first, ih, listed]
          simp [has', Option.bind_assoc]

/-- What `&` makes of two operands or more. -/
theorem exprMeaning_intersection {members : List TypeExpr} (several : 2 ≤ members.length) :
    glossary.exprMeaning listing (.intersection members)
      = members.mapM (glossary.operandListing listing) >>= fun lists =>
        pure (.object (NamedProperties.mergeAll lists)) := by
  match members, several with
  | first :: next :: rest, _ =>
    rw [mapM_operandListing_cons]
    simp only [exprMeaning, intersectionMeaning_eq, bind_assoc, pure_bind,
      NamedProperties.mergeAll_cons, NamedProperties.foldl_merge]

theorem operandListing_intersection {members : List TypeExpr} (several : 2 ≤ members.length) :
    glossary.operandListing listing (.intersection members)
      = members.mapM (glossary.operandListing listing) >>= fun lists =>
        pure (NamedProperties.mergeAll lists) := by
  unfold operandListing
  rw [exprMeaning_intersection several, bind_assoc]
  rfl

/-! ## Without groups -/

section

open TypeExpr

theorem exprMeaning_union (members : List TypeExpr) :
    glossary.exprMeaning listing (.union members)
      = glossary.exprMeanings listing members >>= fun terms => pure (.unionOf terms) := by
  rw [exprMeaning]

theorem alternatives_eq_of_ne {expr : TypeExpr} (other : ∀ members, expr ≠ .union members) :
    expr.alternatives = [expr] := by
  cases expr with
  | union members => exact absurd rfl (other members)
  | _ => rfl

theorem operands_eq_of_ne {expr : TypeExpr} (other : ∀ members, expr ≠ .intersection members) :
    expr.operands = [expr] := by
  cases expr with
  | intersection members => exact absurd rfl (other members)
  | _ => rfl

/-- A member of a union or the members that it stands for. -/
theorem unionOf_alternatives (expr : TypeExpr) (before : List NamedTerm)
    (next : Option (List NamedTerm)) :
    (glossary.exprMeanings listing expr.alternatives >>= fun terms => next >>= fun others =>
        pure (unionOf (before ++ (terms ++ others))))
      = glossary.exprMeaning listing expr >>= fun term => next >>= fun others =>
        pure (unionOf (before ++ term :: others)) := by
  cases expr with
  | union members =>
    rw [exprMeaning_union, TypeExpr.alternatives]
    cases mean : glossary.exprMeanings listing members with
    | none => rfl
    | some terms =>
      have flat (m : NamedTerm) (mem : m ∈ terms) := (regular_of_exprMeanings members mean m mem).flat
      cases next with
      | none => rfl
      | some others => exact congrArg some (unionOf_group flat).symm
  | _ =>
    rw [alternatives_eq_of_ne (by simp)]
    simp [exprMeanings, Option.bind_assoc]

/-- An operand of `&` or the operands that it stands for. -/
theorem merge_operands {expr : TypeExpr}
    (several : ∀ members, expr = .intersection members → 2 ≤ members.length)
    (before : NamedProperties) (next : Option (List NamedProperties)) :
    (expr.operands.mapM (glossary.operandListing listing) >>= fun lists => next >>= fun others =>
        pure (before.merge (.mergeAll (lists ++ others))))
      = glossary.operandListing listing expr >>= fun first => next >>= fun others =>
        pure (before.merge (.mergeAll (first :: others))) := by
  cases expr with
  | intersection members =>
    rw [operandListing_intersection (several members rfl), bind_assoc]
    simp only [operands, pure_bind, NamedProperties.mergeAll_append, NamedProperties.mergeAll_cons]
  | _ =>
    rw [operands_eq_of_ne (by simp), List.mapM_cons, List.mapM_nil]
    simp only [bind_assoc, pure_bind, List.singleton_append]

/-- The names mean the same in both glossaries. -/
def SameNames (glossary other : Glossary) : Prop :=
  ∀ name, other.nameMeaning name = glossary.nameMeaning name

variable {other : Glossary}

mutual

/-- An expression means the same without groups in its chains, and in every glossary in which the
names mean the same. -/
theorem exprMeaning_ungroup (same : SameNames glossary other) : ∀ expr : TypeExpr, Proper expr →
    other.exprMeaning listing (ungroup false expr) = glossary.exprMeaning listing expr
  | .keyword _, _ | .string _, _ | .number _, _ | .boolean _, _ => rfl
  | .array element, proper => by
    cases proper with
    | array proper =>
      rw [ungroup, exprMeaning, exprMeaning, exprMeaning_ungroup same element proper]
  | .union members, proper => by
    cases proper with
    | union _ proper =>
      rw [ungroup, exprMeaning_union, exprMeaning_union]
      exact unionOf_ungroup same members proper []
  | .intersection members, proper => by
    cases proper with
    | intersection several proper =>
      rw [ungroup, exprMeaning_intersection several, exprMeaning_intersection
        (Nat.le_trans several (length_ungroupIntersection false members proper))]
      have merged := congrArg (fun meaning => meaning >>= fun properties =>
        pure (NamedTerm.object properties)) (merge_ungroup same members proper [])
      simpa only [bind_assoc, pure_bind, NamedProperties.nil_merge] using merged
  | .reference name [], _ => by
    unfold ungroup
    simp only [ungroupEach, exprMeaning, same name]
  | .reference name [operand], proper => by
    cases proper with
    | reference proper =>
      have proper := proper operand (List.mem_singleton_self operand)
      have inside := exprMeaning_ungroup same operand proper
      unfold ungroup
      simp only [ungroupEach, exprMeaning, inside]
  | .reference name [operand, keys], proper => by
    cases proper with
    | reference proper =>
      have inside := exprMeaning_ungroup same operand (proper operand List.mem_cons_self)
      unfold ungroup
      simp only [exprMeaning, inside, Bool.false_eq_true, if_false]
  | .reference name (_ :: _ :: _ :: _), _ => by
    unfold ungroup
    simp only [ungroupEach, exprMeaning]
termination_by structural expr => expr

theorem unionOf_ungroup (same : SameNames glossary other) : ∀ members : List TypeExpr,
    (∀ m ∈ members, Proper m) → ∀ before : List NamedTerm,
    (other.exprMeanings listing (ungroupUnion false members) >>= fun terms =>
        pure (unionOf (before ++ terms)))
      = glossary.exprMeanings listing members >>= fun terms => pure (unionOf (before ++ terms))
  | [], _, _ => rfl
  | member :: rest, proper, before => by
    obtain ⟨properFirst, proper⟩ := List.forall_mem_cons.1 proper
    rw [ungroupUnion, exprMeanings_append]
    simp only [bind_assoc, pure_bind]
    rw [unionOf_alternatives, exprMeaning_ungroup same member properFirst]
    simp only [exprMeanings, bind_assoc, pure_bind]
    refine congrArg _ (funext fun term => ?_)
    simpa only [List.append_assoc, List.singleton_append] using
      unionOf_ungroup same rest proper (before ++ [term])
termination_by structural members => members

theorem merge_ungroup (same : SameNames glossary other) : ∀ members : List TypeExpr,
    (∀ m ∈ members, Proper m) → ∀ before : NamedProperties,
    ((ungroupIntersection false members).mapM (other.operandListing listing) >>= fun lists =>
        pure (before.merge (.mergeAll lists)))
      = members.mapM (glossary.operandListing listing) >>= fun lists =>
        pure (before.merge (.mergeAll lists))
  | [], _, _ => rfl
  | member :: rest, proper, before => by
    obtain ⟨properFirst, proper⟩ := List.forall_mem_cons.1 proper
    have inside : other.operandListing listing (ungroup false member)
        = glossary.operandListing listing member := by
      rw [operandListing, operandListing, exprMeaning_ungroup same member properFirst]
    rw [ungroupIntersection, List.mapM_append, List.mapM_cons]
    simp only [bind_assoc, pure_bind]
    rw [merge_operands fun members is => two_le_of_ungroup_eq properFirst is, inside]
    refine congrArg _ (funext fun first => ?_)
    simpa only [NamedProperties.mergeAll_cons, NamedProperties.merge_assoc] using
      merge_ungroup same rest proper (before.merge first)
termination_by structural members => members

end

/-- Expressions that are the same without groups mean the same. -/
theorem exprMeaning_of_ungroup_eq (same : SameNames glossary other)
    {expr regrouped : TypeExpr} (proper : Proper expr) (proper' : Proper regrouped)
    (h : ungroup false expr = ungroup false regrouped) :
    other.exprMeaning listing regrouped = glossary.exprMeaning listing expr := by
  rw [← exprMeaning_ungroup same expr proper, h]
  exact (exprMeaning_ungroup (fun _ => rfl) regrouped proper').symm

end

end Glossary

/-- Texts of expressions that are the same without groups in their chains. -/
inductive Regrouped (inKeys : Bool) : Json → Json → Prop
  | texts {text text' : String} {expr expr' : TypeExpr} (parses : TypeExpr.parse text = .ok expr)
      (parses' : TypeExpr.parse text' = .ok expr')
      (same : expr.ungroup inKeys = expr'.ungroup inKeys) :
      Regrouped inKeys (.string text) (.string text')

namespace Glossary

open Json

variable {glossary other : Glossary} {listing : Listing}

theorem textMeaning_of_ungroup_eq (same : SameNames glossary other) {text text' : String}
    {expr expr' : TypeExpr} (parses : TypeExpr.parse text = .ok expr)
    (parses' : TypeExpr.parse text' = .ok expr')
    (h : expr.ungroup false = expr'.ungroup false) :
    other.textMeaning listing text' = glossary.textMeaning listing text := by
  unfold textMeaning
  rw [parses, parses']
  exact exprMeaning_of_ungroup_eq same (TypeExpr.proper_of_parse parses)
    (TypeExpr.proper_of_parse parses') h

mutual

/-- Values mean the same that differ in how chains in their expressions are grouped. -/
theorem valueMeaning_of_regrouped (same : SameNames glossary other) :
    ∀ (value : Json) {regrouped : Json}, Rewritten (Regrouped false) value regrouped →
    other.valueMeaning listing regrouped = glossary.valueMeaning listing value
  | .null, _, h | .bool _, _, h | .number _, _, h => by
    cases h with
    | here h => cases h
    | _ => rfl
  | .array _, _, h => by
    cases h with
    | here h => cases h
    | array => rfl
  | .string text, _, h => by
    cases h with
    | here h =>
      cases h with
      | texts parses parses' h => exact textMeaning_of_ungroup_eq same parses parses' h
    | string =>
      cases parses : TypeExpr.parse text with
      | ok expr => exact textMeaning_of_ungroup_eq same parses parses rfl
      | error error => simp only [valueMeaning, textMeaning, parses]
  | .object [(key, inner)], _, h => by
    cases h with
    | here h => cases h
    | object h =>
      cases h with
      | cons _ first last =>
      cases last
      have value := valueMeaning_of_regrouped same inner first
      have members := memberMeanings_of_regrouped same [(key, inner)] [] (.cons key first .nil)
      unfold valueMeaning
      simp only [value, members]
      cases first with
      | here h =>
        cases h
        rfl
      | array h => simp only [itemMeanings_of_regrouped same _ h]
      | _ => rfl
  | .object [], _, h => by
    cases h with
    | here h => cases h
    | object h =>
      cases h
      rfl
  | .object ((key, value) :: (key', value') :: rest), _, h => by
    cases h with
    | here h => cases h
    | object h =>
      cases h with
      | cons _ first more =>
      cases more with
      | cons _ second others =>
      have members := memberMeanings_of_regrouped same ((key, value) :: (key', value') :: rest) []
        (.cons key first (.cons key' second others))
      unfold valueMeaning
      simp only [members]

theorem itemMeanings_of_regrouped (same : SameNames glossary other) :
    ∀ (items : List Json) {regrouped : List Json},
    RewrittenItems (Regrouped false) items regrouped →
    other.itemMeanings listing regrouped = glossary.itemMeanings listing items
  | [], _, h => by
    cases h
    rfl
  | item :: rest, _, h => by
    cases h with
    | cons first more =>
      rw [itemMeanings, itemMeanings, valueMeaning_of_regrouped same item first,
        itemMeanings_of_regrouped same rest more]

theorem memberMeanings_of_regrouped (same : SameNames glossary other) :
    ∀ (members : List (String × Json)) {regrouped : List (String × Json)} (seen : List String),
    RewrittenMembers (Regrouped false) members regrouped →
    other.memberMeanings listing seen regrouped = glossary.memberMeanings listing seen members
  | [], _, _, h => by
    cases h
    rfl
  | (key, value) :: rest, _, seen, h => by
    cases h with
    | cons _ first more =>
      simp only [memberMeanings, valueMeaning_of_regrouped same value first,
        memberMeanings_of_regrouped same rest _ more]

end

/-! ## Glossaries -/

/-- The values of the models differ in how chains in their expressions are grouped. -/
structure Regroups (glossary other : Glossary) : Prop where
  values : ∀ name, glossary.valueOf name = none ∧ other.valueOf name = none
    ∨ ∃ value value', glossary.valueOf name = some value ∧ other.valueOf name = some value'
      ∧ Rewritten (Regrouped false) value value'
  leaves : other.leaves = glossary.leaves

namespace Regroups

variable (regroups : Regroups glossary other)

include regroups

theorem sameNames : SameNames glossary other := by
  intro name
  unfold nameMeaning
  rw [regroups.leaves]
  rcases regroups.values name with ⟨none, none'⟩ | ⟨value, value', is, is', _⟩
  · rw [none, none']
  · rw [is, is', Option.isSome_some, Option.isSome_some]

theorem listedWithin_eq (levels : Nat) :
    other.listedWithin levels = glossary.listedWithin levels := by
  induction levels with
  | zero => rfl
  | succ levels ih =>
    funext name
    rw [listedWithin, listedWithin, ih]
    rcases regroups.values name with ⟨none, none'⟩ | ⟨value, value', is, is', rewritten⟩
    · rw [none, none']
      rfl
    · have same := @valueMeaning_of_regrouped glossary other (glossary.listedWithin levels)
        regroups.sameNames value value' rewritten
      rw [is, is', Option.bind_eq_bind, Option.bind_some, Option.bind_eq_bind, Option.bind_some,
        same]

theorem valueMeans_iff {value value' : Json} (rewritten : Rewritten (Regrouped false) value value')
    {term : NamedTerm} : other.ValueMeans value' term ↔ glossary.ValueMeans value term := by
  refine exists_congr fun levels => ?_
  simp only [regroups.listedWithin_eq,
    valueMeaning_of_regrouped regroups.sameNames value rewritten]

theorem means_iff {name : String} {term : NamedTerm} :
    other.Means name term ↔ glossary.Means name term := by
  unfold Means
  rcases regroups.values name with ⟨none, none'⟩ | ⟨value, value', is, is', rewritten⟩
  · simp [none, none']
  · simp [is, is', regroups.valueMeans_iff rewritten]

end Regroups

end Glossary

end ModelForms
