import ModelForms.Document.Basic

/-!
# Values that differ in some entries

A relation between JSON values is closed here under the ways of putting values together.  Two values
are `Rewritten` into each other if they are the same but for some parts, at any depth, and those
parts are related.  Two documents are if they have the same models and each value is.
-/

namespace ModelForms

namespace Json

mutual

/-- The values are the same but for parts that are related. -/
inductive Rewritten (rewrites : Json → Json → Prop) : Json → Json → Prop
  | here {value other : Json} (h : rewrites value other) : Rewritten rewrites value other
  | null : Rewritten rewrites .null .null
  | bool (value : Bool) : Rewritten rewrites (.bool value) (.bool value)
  | number (value : JsonNumber) : Rewritten rewrites (.number value) (.number value)
  | string (value : String) : Rewritten rewrites (.string value) (.string value)
  | array {items others : List Json} (h : RewrittenItems rewrites items others) :
      Rewritten rewrites (.array items) (.array others)
  | object {members others : List (String × Json)} (h : RewrittenMembers rewrites members others) :
      Rewritten rewrites (.object members) (.object others)

/-- The items are the same but for parts that are related. -/
inductive RewrittenItems (rewrites : Json → Json → Prop) : List Json → List Json → Prop
  | nil : RewrittenItems rewrites [] []
  | cons {value other : Json} {items others : List Json} (first : Rewritten rewrites value other)
      (rest : RewrittenItems rewrites items others) :
      RewrittenItems rewrites (value :: items) (other :: others)

/-- The members have the same keys, and their values are the same but for parts that are related. -/
inductive RewrittenMembers (rewrites : Json → Json → Prop) :
    List (String × Json) → List (String × Json) → Prop
  | nil : RewrittenMembers rewrites [] []
  | cons {value other : Json} {members others : List (String × Json)} (key : String)
      (first : Rewritten rewrites value other) (rest : RewrittenMembers rewrites members others) :
      RewrittenMembers rewrites ((key, value) :: members) ((key, other) :: others)

end

variable {rewrites : Json → Json → Prop}

mutual

theorem Rewritten.refl (rewrites : Json → Json → Prop) : ∀ value, Rewritten rewrites value value
  | .null => .null
  | .bool value => .bool value
  | .number value => .number value
  | .string value => .string value
  | .array items => .array (RewrittenItems.refl rewrites items)
  | .object members => .object (RewrittenMembers.refl rewrites members)
termination_by structural value => value

theorem RewrittenItems.refl (rewrites : Json → Json → Prop) :
    ∀ items, RewrittenItems rewrites items items
  | [] => .nil
  | first :: rest => .cons (Rewritten.refl rewrites first) (RewrittenItems.refl rewrites rest)
termination_by structural items => items

theorem RewrittenMembers.refl (rewrites : Json → Json → Prop) :
    ∀ members, RewrittenMembers rewrites members members
  | [] => .nil
  | (key, value) :: rest =>
      .cons key (Rewritten.refl rewrites value) (RewrittenMembers.refl rewrites rest)
termination_by structural members => members

end

mutual

theorem Rewritten.symm : ∀ {value other : Json}, Rewritten rewrites value other →
    Rewritten (fun other value => rewrites value other) other value
  | _, _, .here h => .here h
  | _, _, .null => .null
  | _, _, .bool value => .bool value
  | _, _, .number value => .number value
  | _, _, .string value => .string value
  | _, _, .array h => .array h.symm
  | _, _, .object h => .object h.symm

theorem RewrittenItems.symm : ∀ {items others : List Json}, RewrittenItems rewrites items others →
    RewrittenItems (fun other value => rewrites value other) others items
  | _, _, .nil => .nil
  | _, _, .cons first rest => .cons first.symm rest.symm

theorem RewrittenMembers.symm : ∀ {members others : List (String × Json)},
    RewrittenMembers rewrites members others →
    RewrittenMembers (fun other value => rewrites value other) others members
  | _, _, .nil => .nil
  | _, _, .cons key first rest => .cons key first.symm rest.symm

end

namespace RewrittenMembers

variable {members others : List (String × Json)}

theorem keys_eq (h : RewrittenMembers rewrites members others) :
    Entries.keys others = Entries.keys members := by
  induction members generalizing others with
  | nil =>
    cases h
    rfl
  | cons _ rest ih =>
    cases h with
    | cons key _ more => exact congrArg (key :: ·) (ih more)

/-- What is looked up under a key is there on both sides or on none. -/
theorem lookup (h : RewrittenMembers rewrites members others) (key : String) :
    members.lookup key = none ∧ others.lookup key = none
      ∨ ∃ value other, members.lookup key = some value ∧ others.lookup key = some other
        ∧ Rewritten rewrites value other := by
  induction members generalizing others with
  | nil =>
    cases h
    exact .inl ⟨rfl, rfl⟩
  | cons _ rest ih =>
    cases h with
    | @cons value other _ more found first rest =>
      rw [Entries.lookup_cons, Entries.lookup_cons]
      by_cases here : found = key
      · exact .inr ⟨value, other, if_pos here, if_pos here, first⟩
      · rw [if_neg here, if_neg here]
        exact ih rest

end RewrittenMembers

end Json

/-- The documents are the same but for parts of their models that are related. -/
structure Document.Rewritten (rewrites : Json → Json → Prop) (document other : Document) :
    Prop where
  leaves : other.leaves = document.leaves
  models : Json.RewrittenMembers rewrites document.models other.models
  root : other.root = document.root
  hints : other.hints = document.hints
  mode : other.mode = document.mode

theorem Document.Rewritten.symm {rewrites : Json → Json → Prop} {document other : Document}
    (h : Document.Rewritten rewrites document other) :
    Document.Rewritten (fun other value => rewrites value other) other document :=
  ⟨h.leaves.symm, h.models.symm, h.root.symm, h.hints.symm, h.mode.symm⟩

end ModelForms
