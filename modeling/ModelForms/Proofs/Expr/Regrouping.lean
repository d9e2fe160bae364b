import ModelForms.Proofs.Expr.Grammar

/-!
# Regrouped expressions

Parentheses leave no trace in a tree, but where they stand around a part of a chain that part is a
member of the chain with members of its own.  `TypeExpr.ungroup` takes such parts apart, at any
depth.  So two expressions are the same but for the grouping of their chains if their trees are the
same when they are ungrouped: grouping a part of a chain changes nothing in that
(`TypeExpr.ungroup_union_group`, `TypeExpr.ungroup_intersection_group`), and neither does anything
around it.

The keys of `Omit` and `Pick` are read and not lowered, so their grouping may count.  They are
ungrouped or left as they are.
-/

namespace ModelForms

namespace TypeExpr

open Grammar

/-- The members of a union, or else the type itself. -/
def alternatives : TypeExpr → List TypeExpr
  | .union members => members
  | expr => [expr]

/-- The operands of `&`, or else the type itself. -/
def operands : TypeExpr → List TypeExpr
  | .intersection members => members
  | expr => [expr]

mutual

/-- The expression without groups in its chains. -/
def ungroup (inKeys : Bool) : TypeExpr → TypeExpr
  | .keyword k => .keyword k
  | .string value => .string value
  | .number value => .number value
  | .boolean value => .boolean value
  | .array element => .array (ungroup inKeys element)
  | .union members => .union (ungroupUnion inKeys members)
  | .intersection members => .intersection (ungroupIntersection inKeys members)
  | .reference name args =>
      .reference name
        (match args with
        | [operand, keys] =>
            [ungroup inKeys operand, if inKeys then ungroup inKeys keys else keys]
        | args => ungroupEach inKeys args)
termination_by structural expr => expr

/-- The members of a union and of the unions among them. -/
def ungroupUnion (inKeys : Bool) : List TypeExpr → List TypeExpr
  | [] => []
  | member :: rest => (ungroup inKeys member).alternatives ++ ungroupUnion inKeys rest
termination_by structural members => members

/-- The operands of `&` and of those that are made by `&` themselves. -/
def ungroupIntersection (inKeys : Bool) : List TypeExpr → List TypeExpr
  | [] => []
  | member :: rest => (ungroup inKeys member).operands ++ ungroupIntersection inKeys rest
termination_by structural members => members

/-- The expressions, each without groups. -/
def ungroupEach (inKeys : Bool) : List TypeExpr → List TypeExpr
  | [] => []
  | expr :: rest => ungroup inKeys expr :: ungroupEach inKeys rest
termination_by structural exprs => exprs

end

variable {inKeys : Bool} {expr : TypeExpr} {before inner after : List TypeExpr}

theorem ungroupUnion_append : ungroupUnion inKeys (before ++ after)
    = ungroupUnion inKeys before ++ ungroupUnion inKeys after := by
  induction before with
  | nil => rfl
  | cons member rest ih =>
    rw [List.cons_append, ungroupUnion, ungroupUnion, ih, List.append_assoc]

theorem ungroupIntersection_append : ungroupIntersection inKeys (before ++ after)
    = ungroupIntersection inKeys before ++ ungroupIntersection inKeys after := by
  induction before with
  | nil => rfl
  | cons member rest ih =>
    rw [List.cons_append, ungroupIntersection, ungroupIntersection, ih, List.append_assoc]

/-- A part of a chain of alternatives may be a group. -/
theorem ungroup_union_group : ungroup inKeys (.union (before ++ .union inner :: after))
    = ungroup inKeys (.union (before ++ (inner ++ after))) := by
  simp only [ungroup, ungroupUnion_append, ungroupUnion, alternatives]

/-- A part of a chain of operands may be a group. -/
theorem ungroup_intersection_group :
    ungroup inKeys (.intersection (before ++ .intersection inner :: after))
      = ungroup inKeys (.intersection (before ++ (inner ++ after))) := by
  simp only [ungroup, ungroupIntersection_append, ungroupIntersection, operands]

/-! ## Chains stay chains -/

theorem operands_ungroup_of_ne {expr : TypeExpr}
    (other : ∀ members, expr ≠ .intersection members) :
    (ungroup inKeys expr).operands = [ungroup inKeys expr] := by
  cases expr with
  | intersection members => exact absurd rfl (other members)
  | reference =>
    unfold ungroup
    rfl
  | _ => rfl

mutual

theorem operands_ungroup_ne_nil (inKeys : Bool) : ∀ (expr : TypeExpr), Proper expr →
    (ungroup inKeys expr).operands ≠ []
  | .intersection members, proper => by
    cases proper with
    | intersection several proper =>
      have le := length_ungroupIntersection inKeys members proper
      rw [ungroup, operands]
      rintro none
      rw [none, List.length_nil] at le
      omega
  | .keyword _, _ | .string _, _ | .number _, _ | .boolean _, _ | .array _, _ | .union _, _
  | .reference _ _, _ => by
    rw [operands_ungroup_of_ne (by simp)]
    simp

theorem length_ungroupIntersection (inKeys : Bool) : ∀ members : List TypeExpr,
    (∀ m ∈ members, Proper m) → members.length ≤ (ungroupIntersection inKeys members).length
  | [], _ => Nat.le_refl 0
  | member :: rest, proper => by
    obtain ⟨properFirst, proper⟩ := List.forall_mem_cons.1 proper
    have first := List.length_pos_iff.2 (operands_ungroup_ne_nil inKeys member properFirst)
    have others := length_ungroupIntersection inKeys rest proper
    rw [ungroupIntersection, List.length_append, List.length_cons]
    omega

end

/-- The operands of `&` are two or more in any grouping. -/
theorem two_le_of_ungroup_eq {members : List TypeExpr} (proper : Proper expr)
    (is : ungroup inKeys expr = .intersection members) : 2 ≤ members.length := by
  cases proper with
  | @intersection operands several proper =>
    rw [ungroup, TypeExpr.intersection.injEq] at is
    exact is ▸ Nat.le_trans several (length_ungroupIntersection inKeys operands proper)
  | reference =>
    unfold ungroup at is
    cases is
  | _ => cases is

end TypeExpr

/-! ## Parentheses -/

namespace Grammar

section

variable {α : Type} {sign : Punctuation} {item item' : List Token → α → Prop} {x : α}
  {inner after : List α} {tokens : List Token}

/-- The first items of a chain, in place of which there may be one. -/
theorem Separated.exists_head (le : ∀ tokens x, item tokens x → item' tokens x) (some : inner ≠ [])
    (chain : Separated sign item tokens (inner ++ after)) :
    ∃ part last, tokens = part ++ last ∧ Separated sign item part inner
      ∧ ∀ group, item' group x → Separated sign item' (group ++ last) (x :: after) := by
  induction inner generalizing tokens with
  | nil => exact absurd rfl some
  | cons first rest ih =>
    cases rest with
    | nil =>
      cases chain with
      | one only =>
        refine ⟨tokens, [], (List.append_nil tokens).symm, .one only, fun group is => ?_⟩
        rw [List.append_nil]
        exact .one is
      | @more used others _ _ is chain =>
        exact ⟨used, .punctuation sign :: others, rfl, .one is, fun group is =>
          .more is (chain.mono le)⟩
    | cons second rest =>
      cases chain with
      | @more used others _ _ is chain =>
        obtain ⟨part, last, rfl, separated, replaced⟩ := ih (by simp) chain
        exact ⟨used ++ .punctuation sign :: part, last, by simp, .more is separated, replaced⟩

/-- Items in the middle of a chain, in place of which there may be one. -/
theorem Separated.exists_middle (le : ∀ tokens x, item tokens x → item' tokens x)
    (some : inner ≠ []) {before : List α}
    (chain : Separated sign item tokens (before ++ (inner ++ after))) :
    ∃ first part last, tokens = first ++ (part ++ last) ∧ Separated sign item part inner
      ∧ ∀ group, item' group x →
        Separated sign item' (first ++ (group ++ last)) (before ++ x :: after) := by
  induction before generalizing tokens with
  | nil =>
    obtain ⟨part, last, same, separated, replaced⟩ := Separated.exists_head le some chain
    exact ⟨[], part, last, same, separated, replaced⟩
  | cons head before ih =>
    rw [List.cons_append] at chain
    generalize rest : before ++ (inner ++ after) = items at chain ih
    cases chain with
    | one => exact absurd (List.append_eq_nil_iff.1 (List.append_eq_nil_iff.1 rest).2).1 some
    | @more used others _ _ is chain =>
      obtain ⟨first, part, last, rfl, separated, replaced⟩ := ih chain
      refine ⟨used ++ .punctuation sign :: first, part, last, by simp, separated,
        fun group grouped => ?_⟩
      simpa using Separated.more (le _ _ is) (replaced group grouped)

end

theorem chainTree_of_several {make : List TypeExpr → TypeExpr} {members : List TypeExpr}
    (several : 2 ≤ members.length) : chainTree make members = make members :=
  match members, several with
  | _ :: _ :: _, _ => rfl

/-- A chain with a group, which may be all of it. -/
theorem ungroup_chainTree {inKeys : Bool} {make : List TypeExpr → TypeExpr}
    (group : ∀ before inner after, (make (before ++ make inner :: after)).ungroup inKeys
      = (make (before ++ (inner ++ after))).ungroup inKeys)
    (before inner after : List TypeExpr) :
    (chainTree make (before ++ make inner :: after)).ungroup inKeys
      = (make (before ++ (inner ++ after))).ungroup inKeys := by
  rw [← group]
  cases before with
  | nil =>
    cases after with
    | nil =>
      have alone := group [] inner []
      rw [List.append_nil] at alone
      exact alone.symm
    | cons => rfl
  | cons _ rest => cases rest <;> rfl

/-- Tokens between parentheses. -/
def parenthesized (tokens : List Token) : List Token :=
  .punctuation .openParen :: tokens ++ [.punctuation .closeParen]

variable {levels : Nat} {tokens : List Token} {before inner after : List TypeExpr}

/-- A part of a chain of alternatives between parentheses is a member of the chain. -/
theorem exists_group_of_unionChain (several : 2 ≤ inner.length)
    (chain : Separated .bar (IntersectionChain (Derives levels)) tokens
      (before ++ (inner ++ after))) :
    ∃ first part last, tokens = first ++ (part ++ last)
      ∧ Separated .bar (IntersectionChain (Derives (levels + 1)))
        (first ++ (parenthesized part ++ last)) (before ++ .union inner :: after) := by
  obtain ⟨first, part, last, same, separated, replaced⟩ := Separated.exists_middle
    (fun _ _ => IntersectionChain.mono fun _ _ => Derives.mono (Nat.le_succ levels))
    (List.ne_nil_of_length_pos (by omega)) chain
  refine ⟨first, part, last, same, replaced _ (.intro (.one (.primary (.parentheses ?_))))⟩
  rw [← @chainTree_of_several .union inner several]
  exact UnionChain.intro separated

/-- A part of a chain of operands of `&` between parentheses is an operand in the chain. -/
theorem exists_group_of_intersectionChain (several : 2 ≤ inner.length)
    (chain : Separated .ampersand (Bracketed (Derives levels)) tokens
      (before ++ (inner ++ after))) :
    ∃ first part last, tokens = first ++ (part ++ last)
      ∧ Separated .ampersand (Bracketed (Derives (levels + 1)))
        (first ++ (parenthesized part ++ last)) (before ++ .intersection inner :: after) := by
  obtain ⟨first, part, last, same, separated, replaced⟩ := Separated.exists_middle
    (fun _ _ => Bracketed.mono fun _ _ => Derives.mono (Nat.le_succ levels))
    (List.ne_nil_of_length_pos (by omega)) chain
  refine ⟨first, part, last, same, replaced _ (.primary (.parentheses ?_))⟩
  rw [← @chainTree_of_several .intersection inner several]
  exact UnionChain.intro (.one (.intro separated))

end Grammar

end ModelForms
