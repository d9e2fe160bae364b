import ModelForms.Document.Lowering

/-!
# Naming parts of types

A new model may have a part of a property or element type as its value, and its name may stand in
the place of the part.  One operand of a union is named by `Json.NamesOperand`.  Any number of parts
are named by `Json.NamesParts`, which follows the shape of the values, so that both sides can be
taken apart together.
-/

namespace ModelForms

open Lowering (isDirective)

/-! ## Any number of parts -/

namespace TypeExpr

mutual

/-- The expressions are the same but for parts in the place of which the name stands.  The value is
the text of these parts.  Outside of properties and of elements of arrays no part is named, and
neither is any in what is composed. -/
inductive NamesParts (name : String) (value : Json) : (inside : Bool) → TypeExpr → TypeExpr → Prop
  | named {written : String} {part : TypeExpr} (is : value = .string written)
      (parses : parse written = .ok part) : NamesParts name value true part (.reference name [])
  | keyword {inside : Bool} (k : Intrinsic) :
      NamesParts name value inside (.keyword k) (.keyword k)
  | string {inside : Bool} (text : String) :
      NamesParts name value inside (.string text) (.string text)
  | number {inside : Bool} (given : Double) :
      NamesParts name value inside (.number given) (.number given)
  | boolean {inside : Bool} (given : Bool) :
      NamesParts name value inside (.boolean given) (.boolean given)
  | array {inside : Bool} {element element' : TypeExpr}
      (names : NamesParts name value true element element') :
      NamesParts name value inside (.array element) (.array element')
  | union {inside : Bool} {members members' : List TypeExpr}
      (names : NamesEach name value inside members members') :
      NamesParts name value inside (.union members) (.union members')
  | intersection {inside : Bool} {members members' : List TypeExpr}
      (names : NamesEach name value false members members') :
      NamesParts name value inside (.intersection members) (.intersection members')
  | reference {inside : Bool} (generic : String) {args args' : List TypeExpr}
      (names : NamesEach name value (generic = "Array") args args') :
      NamesParts name value inside (.reference generic args) (.reference generic args')

/-- Each expression is the same but for parts in the place of which the name stands. -/
inductive NamesEach (name : String) (value : Json) :
    (inside : Bool) → List TypeExpr → List TypeExpr → Prop
  | nil {inside : Bool} : NamesEach name value inside [] []
  | cons {inside : Bool} {expr expr' : TypeExpr} {exprs exprs' : List TypeExpr}
      (first : NamesParts name value inside expr expr')
      (rest : NamesEach name value inside exprs exprs') :
      NamesEach name value inside (expr :: exprs) (expr' :: exprs')

end

variable {name : String} {value : Json}

mutual

theorem NamesParts.refl (inside : Bool) :
    ∀ expr : TypeExpr, NamesParts name value inside expr expr
  | .keyword _ => .keyword _
  | .string _ => .string _
  | .number _ => .number _
  | .boolean _ => .boolean _
  | .array element => .array (NamesParts.refl true element)
  | .union members => .union (NamesEach.refl inside members)
  | .intersection members => .intersection (NamesEach.refl false members)
  | .reference generic args => .reference generic (NamesEach.refl _ args)
termination_by structural expr => expr

theorem NamesEach.refl (inside : Bool) :
    ∀ exprs : List TypeExpr, NamesEach name value inside exprs exprs
  | [] => .nil
  | expr :: rest => .cons (NamesParts.refl inside expr) (NamesEach.refl inside rest)
termination_by structural exprs => exprs

end

end TypeExpr

namespace Json

mutual

/-- The values are the same but for parts in the place of which the name stands. -/
inductive NamesParts (name : String) (value : Json) : (inside : Bool) → Json → Json → Prop
  | named {text : String} (parses : TypeExpr.parse text = .ok (.reference name [])) :
      NamesParts name value true value (.string text)
  | text {inside : Bool} {text text' : String} {expr expr' : TypeExpr}
      (parses : TypeExpr.parse text = .ok expr) (parses' : TypeExpr.parse text' = .ok expr')
      (names : expr.NamesParts name value inside expr') :
      NamesParts name value inside (.string text) (.string text')
  | null {inside : Bool} : NamesParts name value inside .null .null
  | bool {inside : Bool} (given : Bool) : NamesParts name value inside (.bool given) (.bool given)
  | number {inside : Bool} (given : JsonNumber) :
      NamesParts name value inside (.number given) (.number given)
  | string {inside : Bool} (given : String) :
      NamesParts name value inside (.string given) (.string given)
  | array {inside : Bool} {items items' : List Json}
      (names : NamesItems name value inside items items') :
      NamesParts name value inside (.array items) (.array items')
  | choice {inside : Bool} {key : String} {inner inner' : Json}
      (chooses : key ∈ ["$nullable", "$union"])
      (names : NamesParts name value inside inner inner') :
      NamesParts name value inside (.object [(key, inner)]) (.object [(key, inner')])
  | object {inside : Bool} {members members' : List (String × Json)}
      (lists : ∀ key inner, members = [(key, inner)] → key ∉ ["$nullable", "$union"])
      (names : NamesMembers name value true members members') :
      NamesParts name value inside (.object members) (.object members')

/-- Each item is the same but for parts in the place of which the name stands. -/
inductive NamesItems (name : String) (value : Json) :
    (inside : Bool) → List Json → List Json → Prop
  | nil {inside : Bool} : NamesItems name value inside [] []
  | cons {inside : Bool} {item item' : Json} {items items' : List Json}
      (first : NamesParts name value inside item item')
      (rest : NamesItems name value inside items items') :
      NamesItems name value inside (item :: items) (item' :: items')

/-- The members have the same keys, and their values are the same but for parts in the place of
which the name stands. -/
inductive NamesMembers (name : String) (value : Json) :
    (inside : Bool) → List (String × Json) → List (String × Json) → Prop
  | nil {inside : Bool} : NamesMembers name value inside [] []
  | cons {inside : Bool} {given given' : Json} {members members' : List (String × Json)}
      (key : String) (first : NamesParts name value inside given given')
      (rest : NamesMembers name value inside members members') :
      NamesMembers name value inside ((key, given) :: members) ((key, given') :: members')

end

variable {name : String} {value : Json}

mutual

theorem NamesParts.refl (inside : Bool) : ∀ given : Json, NamesParts name value inside given given
  | .null => .null
  | .bool _ => .bool _
  | .number _ => .number _
  | .string _ => .string _
  | .array items => .array (NamesItems.refl inside items)
  | .object [] => .object (by simp) .nil
  | .object [(key, inner)] => by
    by_cases chooses : key ∈ ["$nullable", "$union"]
    · exact .choice chooses (NamesParts.refl inside inner)
    · refine .object (fun other inner is => ?_) (.cons key (NamesParts.refl true inner) .nil)
      cases is
      exact chooses
  | .object (first :: second :: rest) =>
    .object (by simp) (NamesMembers.refl true (first :: second :: rest))
termination_by structural given => given

theorem NamesItems.refl (inside : Bool) :
    ∀ items : List Json, NamesItems name value inside items items
  | [] => .nil
  | item :: rest => .cons (NamesParts.refl inside item) (NamesItems.refl inside rest)
termination_by structural items => items

theorem NamesMembers.refl (inside : Bool) :
    ∀ members : List (String × Json), NamesMembers name value inside members members
  | [] => .nil
  | (key, given) :: rest =>
    .cons key (NamesParts.refl inside given) (NamesMembers.refl inside rest)
termination_by structural members => members

end

namespace NamesMembers

variable {inside : Bool} {members members' : List (String × Json)}

theorem keys_eq (names : NamesMembers name value inside members members') :
    Entries.keys members' = Entries.keys members := by
  induction members generalizing members' with
  | nil =>
    cases names
    rfl
  | cons _ rest ih =>
    cases names with
    | cons key _ more => exact congrArg (key :: ·) (ih more)

/-- What is looked up under a key is there on both sides or on none. -/
theorem lookup (names : NamesMembers name value inside members members') (key : String) :
    members.lookup key = none ∧ members'.lookup key = none
      ∨ ∃ given given', members.lookup key = some given ∧ members'.lookup key = some given'
        ∧ NamesParts name value inside given given' := by
  induction members generalizing members' with
  | nil =>
    cases names
    exact .inl ⟨rfl, rfl⟩
  | cons _ rest ih =>
    cases names with
    | @cons _ given given' _ _ found first rest =>
      rw [Entries.lookup_cons, Entries.lookup_cons]
      by_cases here : found = key
      · exact .inr ⟨given, given', if_pos here, if_pos here, first⟩
      · rw [if_neg here, if_neg here]
        exact ih rest

end NamesMembers

end Json

/-! ## One operand -/

namespace TypeExpr

/-- In the place of an operand of a union stands the name.  The union is a property or element type
or a member of one.  What is composed has no elements, so nothing is named in it. -/
inductive NamesOperand (name : String) (part : TypeExpr) :
    (inside : Bool) → TypeExpr → TypeExpr → Prop
  | operand (before after : List TypeExpr) :
      NamesOperand name part true (.union (before ++ part :: after))
        (.union (before ++ .reference name [] :: after))
  | member {inside : Bool} {member member' : TypeExpr} (before after : List TypeExpr)
      (names : NamesOperand name part inside member member') :
      NamesOperand name part inside (.union (before ++ member :: after))
        (.union (before ++ member' :: after))
  | array {inside : Bool} {element element' : TypeExpr}
      (names : NamesOperand name part true element element') :
      NamesOperand name part inside (.array element) (.array element')
  | generic {inside : Bool} {element element' : TypeExpr}
      (names : NamesOperand name part true element element') :
      NamesOperand name part inside (.reference "Array" [element]) (.reference "Array" [element'])

variable {name : String} {value : Json} {part : TypeExpr} {written : String}

/-- The expressions are the same around one that is named. -/
theorem NamesParts.each {inside : Bool} {member member' : TypeExpr}
    (names : NamesParts name value inside member member') (before after : List TypeExpr) :
    NamesEach name value inside (before ++ member :: after) (before ++ member' :: after) := by
  induction before with
  | nil => exact .cons names (.refl inside after)
  | cons first _ ih => exact .cons (.refl inside first) ih

/-- To name an operand is to name a part. -/
theorem NamesOperand.namesParts (is : value = .string written) (writes : parse written = .ok part)
    {inside : Bool} {expr expr' : TypeExpr} (names : NamesOperand name part inside expr expr') :
    NamesParts name value inside expr expr' := by
  induction names with
  | operand before after => exact .union ((NamesParts.named is writes).each before after)
  | member before after _ ih => exact .union (ih.each before after)
  | array _ ih => exact .array ih
  | generic _ ih => exact .reference "Array" (.cons ih .nil)

end TypeExpr

namespace Json

/-- In the place of an operand of a union stands the name.  The union is a property or element type
or a member of one, in the text of an expression or as an object with a directive. -/
inductive NamesOperand (name : String) (value : Json) : (inside : Bool) → Json → Json → Prop
  | text {inside : Bool} {text text' written : String} {expr expr' part : TypeExpr}
      (is : value = .string written) (writes : TypeExpr.parse written = .ok part)
      (parses : TypeExpr.parse text = .ok expr) (parses' : TypeExpr.parse text' = .ok expr')
      (names : TypeExpr.NamesOperand name part inside expr expr') :
      NamesOperand name value inside (.string text) (.string text')
  | operand {text : String} (parses : TypeExpr.parse text = .ok (.reference name []))
      (before after : List Json) :
      NamesOperand name value true (.object [("$union", .array (before ++ value :: after))])
        (.object [("$union", .array (before ++ .string text :: after))])
  | nullable {text : String} (parses : TypeExpr.parse text = .ok (.reference name [])) :
      NamesOperand name value true (.object [("$nullable", value)])
        (.object [("$nullable", .string text)])
  | member {inside : Bool} {item item' : Json} (before after : List Json)
      (names : NamesOperand name value inside item item') :
      NamesOperand name value inside (.object [("$union", .array (before ++ item :: after))])
        (.object [("$union", .array (before ++ item' :: after))])
  | nullableMember {inside : Bool} {inner inner' : Json}
      (names : NamesOperand name value inside inner inner') :
      NamesOperand name value inside (.object [("$nullable", inner)])
        (.object [("$nullable", inner')])
  | element {inside : Bool} {element element' : Json}
      (names : NamesOperand name value true element element') :
      NamesOperand name value inside (.object [("$array", element)])
        (.object [("$array", element')])
  | property {inside : Bool} {given given' : Json} (key : String)
      (before after : List (String × Json))
      (plain : ∀ only inner, before ++ (key, given) :: after = [(only, inner)] →
        isDirective only = false)
      (names : NamesOperand name value true given given') :
      NamesOperand name value inside (.object (before ++ (key, given) :: after))
        (.object (before ++ (key, given') :: after))

variable {name : String} {value : Json}

/-- The items are the same around one that is named. -/
theorem NamesParts.items {inside : Bool} {item item' : Json}
    (names : NamesParts name value inside item item') (before after : List Json) :
    NamesItems name value inside (before ++ item :: after) (before ++ item' :: after) := by
  induction before with
  | nil => exact .cons names (.refl inside after)
  | cons first _ ih => exact .cons (.refl inside first) ih

/-- The members are the same around one that is named. -/
theorem NamesParts.members {inside : Bool} {given given' : Json}
    (names : NamesParts name value inside given given') (key : String)
    (before after : List (String × Json)) :
    NamesMembers name value inside (before ++ (key, given) :: after)
      (before ++ (key, given') :: after) := by
  induction before with
  | nil => exact .cons key names (.refl inside after)
  | cons first _ ih => exact .cons first.1 (.refl inside first.2) ih

theorem NamesParts.union {inside : Bool} {items items' : List Json}
    (names : NamesItems name value inside items items') :
    NamesParts name value inside (.object [("$union", .array items)])
      (.object [("$union", .array items')]) :=
  .choice (by simp) (.array names)

/-- To name an operand is to name a part. -/
theorem NamesOperand.namesParts {inside : Bool} {given given' : Json}
    (names : NamesOperand name value inside given given') :
    NamesParts name value inside given given' := by
  induction names with
  | text is writes parses parses' names => exact .text parses parses' (names.namesParts is writes)
  | operand parses before after => exact .union ((NamesParts.named parses).items before after)
  | nullable parses => exact .choice (by simp) (.named parses)
  | member before after _ ih => exact .union (ih.items before after)
  | nullableMember _ ih => exact .choice (by simp) ih
  | element _ ih => exact .object (by simp) (.cons "$array" ih .nil)
  | property key before after plain _ ih =>
    refine .object (fun only inner is directive => ?_) (ih.members key before after)
    have := plain only inner is
    simp only [List.mem_cons, List.not_mem_nil, or_false] at directive
    rcases directive with rfl | rfl <;> cases this

end Json

end ModelForms
