import ModelForms.Expr.Basic
import ModelForms.Expr.Token
import ModelForms.Bounds.Limits
import ModelForms.Number.Decimal

/-!
# The grammar of type expressions

```text
type         := ['|'] intersection ('|' intersection)*
intersection := postfix ('&' postfix)*
postfix      := primary ('[' ']')*
primary      := '(' type ')'
              | name ['<' type (',' type)* '>']
              | string | number | 'true' | 'false'
```

Each rule is a relation between the tokens of a sentence and its tree.  A rule is given what the
types inside it are, so the rules are not recursive, and `Derives` closes them over the number of
types that may stand inside each other.  More of them never hurt (`Derives.mono`).

Parentheses leave no trace in a tree, and a chain of one member is that member.  A name that is an
intrinsic type, `true` or `false` takes no arguments.
-/

namespace ModelForms

namespace Grammar

/-- Items with a sign between each two. -/
inductive Separated {α : Type} (sign : Punctuation) (item : List Token → α → Prop) :
    List Token → List α → Prop
  | one {tokens : List Token} {x : α} (only : item tokens x) : Separated sign item tokens [x]
  | more {tokens rest : List Token} {x : α} {xs : List α} (first : item tokens x)
      (others : Separated sign item rest xs) :
      Separated sign item (tokens ++ .punctuation sign :: rest) (x :: xs)

/-- The tree of a chain of members. -/
def chainTree (make : List TypeExpr → TypeExpr) : List TypeExpr → TypeExpr
  | [member] => member
  | members => make members

/-- A name that may stand for a model, a leaf or a generic type. -/
structure IsFree (name : String) : Prop where
  intrinsic : Intrinsic.ofName? name = none
  ne_true : name ≠ "true"
  ne_false : name ≠ "false"

section

variable (type : List Token → TypeExpr → Prop)

/-- A type without signs around it. -/
inductive Primary : List Token → TypeExpr → Prop
  | parentheses {tokens : List Token} {expr : TypeExpr} (inner : type tokens expr) :
      Primary (.punctuation .openParen :: tokens ++ [.punctuation .closeParen]) expr
  | string (value : String) : Primary [.string value] (.string value)
  | number {text : String} {value : Double} (denotes : Double.ofDecimal? text.toList = some value) :
      Primary [.number text] (.number value)
  | trueWord : Primary [.name "true"] (.boolean true)
  | falseWord : Primary [.name "false"] (.boolean false)
  | keyword {name : String} {k : Intrinsic} (is : Intrinsic.ofName? name = some k) :
      Primary [.name name] (.keyword k)
  | bare {name : String} (free : IsFree name) : Primary [.name name] (.reference name [])
  | generic {name : String} {tokens : List Token} {args : List TypeExpr} (free : IsFree name)
      (lists : Separated .comma type tokens args) :
      Primary (.name name :: .punctuation .less :: tokens ++ [.punctuation .greater])
        (.reference name args)

/-- A type with pairs of brackets after it. -/
inductive Bracketed : List Token → TypeExpr → Prop
  | primary {tokens : List Token} {expr : TypeExpr} (is : Primary type tokens expr) :
      Bracketed tokens expr
  | array {tokens : List Token} {expr : TypeExpr} (element : Bracketed tokens expr) :
      Bracketed (tokens ++ [.punctuation .openBracket, .punctuation .closeBracket]) (.array expr)

/-- A chain of types between ampersands. -/
inductive IntersectionChain : List Token → TypeExpr → Prop
  | intro {tokens : List Token} {members : List TypeExpr}
      (chain : Separated .ampersand (Bracketed type) tokens members) :
      IntersectionChain tokens (chainTree .intersection members)

/-- A chain of types between bars, where one bar may come first. -/
inductive UnionChain : List Token → TypeExpr → Prop
  | intro {tokens : List Token} {members : List TypeExpr}
      (chain : Separated .bar (IntersectionChain type) tokens members) :
      UnionChain tokens (chainTree .union members)
  | leadingBar {tokens : List Token} {members : List TypeExpr}
      (chain : Separated .bar (IntersectionChain type) tokens members) :
      UnionChain (.punctuation .bar :: tokens) (chainTree .union members)

end

/-- Sentences for types, where at most `levels` types stand inside each other. -/
def Derives : (levels : Nat) → List Token → TypeExpr → Prop
  | 0 => fun _ _ => False
  | levels + 1 => UnionChain (Derives levels)

/-! ## More levels -/

section

variable {α : Type} {sign : Punctuation} {item item' : List Token → α → Prop}
  {type type' : List Token → TypeExpr → Prop} {tokens : List Token} {expr : TypeExpr}

theorem Separated.mono (le : ∀ tokens x, item tokens x → item' tokens x) {xs : List α}
    (h : Separated sign item tokens xs) : Separated sign item' tokens xs := by
  induction h with
  | one only => exact .one (le _ _ only)
  | more first _ ih => exact .more (le _ _ first) ih

theorem Primary.mono (le : ∀ tokens expr, type tokens expr → type' tokens expr)
    (h : Primary type tokens expr) : Primary type' tokens expr := by
  cases h with
  | parentheses inner => exact .parentheses (le _ _ inner)
  | string value => exact .string value
  | number denotes => exact .number denotes
  | trueWord => exact .trueWord
  | falseWord => exact .falseWord
  | keyword is => exact .keyword is
  | bare free => exact .bare free
  | generic free lists => exact .generic free (lists.mono le)

theorem Bracketed.mono (le : ∀ tokens expr, type tokens expr → type' tokens expr)
    (h : Bracketed type tokens expr) : Bracketed type' tokens expr := by
  induction h with
  | primary is => exact .primary (is.mono le)
  | array _ ih => exact .array ih

theorem IntersectionChain.mono (le : ∀ tokens expr, type tokens expr → type' tokens expr)
    (h : IntersectionChain type tokens expr) : IntersectionChain type' tokens expr := by
  cases h with
  | intro chain => exact .intro (chain.mono fun _ _ => Bracketed.mono le)

theorem UnionChain.mono (le : ∀ tokens expr, type tokens expr → type' tokens expr)
    (h : UnionChain type tokens expr) : UnionChain type' tokens expr := by
  cases h with
  | intro chain => exact .intro (chain.mono fun _ _ => IntersectionChain.mono le)
  | leadingBar chain => exact .leadingBar (chain.mono fun _ _ => IntersectionChain.mono le)

/-- A sentence stays one when more types may stand inside each other. -/
theorem Derives.mono : ∀ {levels more : Nat}, levels ≤ more → ∀ {tokens : List Token}
    {expr : TypeExpr}, Derives levels tokens expr → Derives more tokens expr
  | 0, _, _, _, _, h => h.elim
  | _ + 1, _ + 1, le, _, _, h =>
      UnionChain.mono (fun _ _ => Derives.mono (Nat.le_of_succ_le_succ le)) h

end

/-! ## First tokens -/

section

variable {type : List Token → TypeExpr → Prop} {tokens : List Token}

/-- The tokens start with one that is not a bar. -/
def NoBarFirst (tokens : List Token) : Prop :=
  ∃ first more, tokens = first :: more ∧ first ≠ .punctuation .bar

theorem NoBarFirst.append (h : NoBarFirst tokens) (later : List Token) :
    NoBarFirst (tokens ++ later) := by
  obtain ⟨first, more, rfl, proper⟩ := h
  exact ⟨first, more ++ later, rfl, proper⟩

theorem Separated.noBarFirst {α : Type} {sign : Punctuation} {item : List Token → α → Prop}
    (items : ∀ tokens x, item tokens x → NoBarFirst tokens) {xs : List α}
    (h : Separated sign item tokens xs) : NoBarFirst tokens := by
  cases h with
  | one only => exact items _ _ only
  | more first _ => exact (items _ _ first).append _

theorem Primary.noBarFirst {expr : TypeExpr} (h : Primary type tokens expr) :
    NoBarFirst tokens := by
  cases h with
  | parentheses => exact ⟨_, _, rfl, by simp⟩
  | string | number | trueWord | falseWord | keyword | bare | generic => exact ⟨_, _, rfl, nofun⟩

theorem Bracketed.noBarFirst {expr : TypeExpr} (h : Bracketed type tokens expr) :
    NoBarFirst tokens := by
  induction h with
  | primary is => exact is.noBarFirst
  | array _ ih => exact ih.append _

/-- A bar that comes first belongs to the union and not to its first member. -/
theorem IntersectionChain.noBarFirst {expr : TypeExpr} (h : IntersectionChain type tokens expr) :
    NoBarFirst tokens := by
  cases h with
  | intro chain => exact chain.noBarFirst fun _ _ => Bracketed.noBarFirst

end

/-! ## The tokens of sentences -/

/-- A token that sentences are made of: neither the end of a text nor one that cannot be read. -/
def IsWord : Token → Prop
  | .unreadable _ _ | .endOfText => False
  | .name _ | .string _ | .number _ | .punctuation _ => True

section

variable {type : List Token → TypeExpr → Prop} {tokens : List Token} {expr : TypeExpr}

theorem Separated.isWord {α : Type} {sign : Punctuation} {item : List Token → α → Prop}
    (items : ∀ tokens x, item tokens x → ∀ token ∈ tokens, IsWord token) {xs : List α}
    (h : Separated sign item tokens xs) : ∀ token ∈ tokens, IsWord token := by
  induction h with
  | one only => exact items _ _ only
  | more first _ ih =>
    exact List.forall_mem_append.2 ⟨items _ _ first,
      List.forall_mem_cons.2 ⟨trivial, ih⟩⟩

theorem Primary.isWord
    (types : ∀ tokens expr, type tokens expr → ∀ token ∈ tokens, IsWord token)
    (h : Primary type tokens expr) : ∀ token ∈ tokens, IsWord token := by
  cases h with
  | parentheses inner =>
    exact List.forall_mem_append.2 ⟨List.forall_mem_cons.2 ⟨trivial, types _ _ inner⟩,
      List.forall_mem_singleton.2 (trivial)⟩
  | string | number | trueWord | falseWord | keyword | bare =>
    exact List.forall_mem_singleton.2 trivial
  | generic _ lists =>
    exact List.forall_mem_append.2 ⟨List.forall_mem_cons.2 ⟨trivial,
      List.forall_mem_cons.2 ⟨trivial, lists.isWord types⟩⟩,
      List.forall_mem_singleton.2 (trivial)⟩

theorem Bracketed.isWord
    (types : ∀ tokens expr, type tokens expr → ∀ token ∈ tokens, IsWord token)
    (h : Bracketed type tokens expr) : ∀ token ∈ tokens, IsWord token := by
  induction h with
  | primary is => exact is.isWord types
  | array _ ih =>
    exact List.forall_mem_append.2 ⟨ih, List.forall_mem_cons.2 ⟨trivial,
      List.forall_mem_singleton.2 (trivial)⟩⟩

theorem IntersectionChain.isWord
    (types : ∀ tokens expr, type tokens expr → ∀ token ∈ tokens, IsWord token)
    (h : IntersectionChain type tokens expr) : ∀ token ∈ tokens, IsWord token := by
  cases h with
  | intro chain => exact chain.isWord fun _ _ => Bracketed.isWord types

theorem UnionChain.isWord
    (types : ∀ tokens expr, type tokens expr → ∀ token ∈ tokens, IsWord token)
    (h : UnionChain type tokens expr) : ∀ token ∈ tokens, IsWord token := by
  cases h with
  | intro chain => exact chain.isWord fun _ _ => IntersectionChain.isWord types
  | leadingBar chain =>
    exact List.forall_mem_cons.2 ⟨trivial,
      chain.isWord fun _ _ => IntersectionChain.isWord types⟩

/-- A sentence has words only. -/
theorem Derives.isWord : ∀ {levels : Nat} {tokens : List Token} {expr : TypeExpr},
    Derives levels tokens expr → ∀ token ∈ tokens, IsWord token
  | 0, _, _, h => h.elim
  | _ + 1, _, _, h => UnionChain.isWord (fun _ _ => Derives.isWord) h

end

/-! ## Chains of one member -/

/-- A tree in which every chain has at least two members. -/
inductive Proper : TypeExpr → Prop
  | keyword (k : Intrinsic) : Proper (.keyword k)
  | string (value : String) : Proper (.string value)
  | number (value : Double) : Proper (.number value)
  | boolean (value : Bool) : Proper (.boolean value)
  | reference {name : String} {args : List TypeExpr} (proper : ∀ arg ∈ args, Proper arg) :
      Proper (.reference name args)
  | array {element : TypeExpr} (proper : Proper element) : Proper (.array element)
  | union {members : List TypeExpr} (several : 2 ≤ members.length)
      (proper : ∀ m ∈ members, Proper m) : Proper (.union members)
  | intersection {members : List TypeExpr} (several : 2 ≤ members.length)
      (proper : ∀ m ∈ members, Proper m) : Proper (.intersection members)

section

variable {type : List Token → TypeExpr → Prop} {tokens : List Token} {expr : TypeExpr}

theorem Separated.forall_mem {α : Type} {sign : Punctuation} {item : List Token → α → Prop}
    {holds : α → Prop} (items : ∀ tokens x, item tokens x → holds x) {xs : List α}
    (h : Separated sign item tokens xs) : ∀ x ∈ xs, holds x := by
  induction h with
  | one only => exact List.forall_mem_singleton.2 (items _ _ only)
  | more first _ ih => exact List.forall_mem_cons.2 ⟨items _ _ first, ih⟩

theorem Separated.ne_nil {α : Type} {sign : Punctuation} {item : List Token → α → Prop}
    {xs : List α} (h : Separated sign item tokens xs) : xs ≠ [] := by
  cases h <;> simp

/-- A chain of one member is that member, and longer ones are chains. -/
theorem proper_chainTree {make : List TypeExpr → TypeExpr} {members : List TypeExpr}
    (some : members ≠ []) (proper : ∀ m ∈ members, Proper m)
    (makes : 2 ≤ members.length → Proper (make members)) : Proper (chainTree make members) := by
  match members, some with
  | [only], _ => exact proper only (List.mem_singleton_self only)
  | _ :: _ :: _, _ => exact makes (by simp)

theorem Primary.proper (types : ∀ tokens expr, type tokens expr → Proper expr)
    (h : Primary type tokens expr) : Proper expr := by
  cases h with
  | parentheses inner => exact types _ _ inner
  | string value => exact .string value
  | number => exact .number _
  | trueWord | falseWord => exact .boolean _
  | keyword => exact .keyword _
  | bare => exact .reference (by simp)
  | generic _ lists => exact .reference (lists.forall_mem types)

theorem Bracketed.proper (types : ∀ tokens expr, type tokens expr → Proper expr)
    (h : Bracketed type tokens expr) : Proper expr := by
  induction h with
  | primary is => exact is.proper types
  | array _ ih => exact .array ih

theorem IntersectionChain.proper (types : ∀ tokens expr, type tokens expr → Proper expr)
    (h : IntersectionChain type tokens expr) : Proper expr := by
  cases h with
  | intro chain =>
    have proper := chain.forall_mem fun _ _ h => Bracketed.proper types h
    exact proper_chainTree chain.ne_nil proper fun several => .intersection several proper

theorem UnionChain.proper (types : ∀ tokens expr, type tokens expr → Proper expr)
    (h : UnionChain type tokens expr) : Proper expr := by
  cases h with
  | intro chain | leadingBar chain =>
    have proper := chain.forall_mem fun _ _ h => IntersectionChain.proper types h
    exact proper_chainTree chain.ne_nil proper fun several => .union several proper

/-- The tree of a sentence has no chain of one member. -/
theorem Derives.proper : ∀ {levels : Nat} {tokens : List Token} {expr : TypeExpr},
    Derives levels tokens expr → Proper expr
  | 0, _, _, h => h.elim
  | _ + 1, _, _, h => UnionChain.proper (fun _ _ => Derives.proper) h

end

end Grammar

end ModelForms
