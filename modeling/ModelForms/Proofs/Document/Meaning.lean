import ModelForms.Proofs.Document.ValueForms
import ModelForms.Proofs.Types.NamedProperties

/-!
# What the values of a document mean

This is the meaning of models by their names, with neither ids nor handles, and with no order in
which models are defined.  A name stands for a reference.  Only a composition looks behind names: it
takes the properties of its operands, and for a name these are the properties that its model lists.

`Glossary.listedWithin` unfolds names over a number of levels.  Whatever has a meaning over some
levels has the same one over more (`Steady`), so the meaning does not depend on the levels
(`Glossary.Yields.unique`), and the meaning of a whole comes from those of its parts
(`Glossary.yields_bind_iff`).
-/

namespace ModelForms

/-- The properties that models list, by their names. -/
abbrev Listing := String → Option NamedProperties

/-- The properties of a type: those of an object, or those that the model lists that a reference
names. -/
def NamedTerm.properties? (listing : Listing) : NamedTerm → Option NamedProperties
  | .object properties => some properties
  | .reference name => listing name
  | _ => none

/-- What the names of a document stand for. -/
structure Glossary where
  /-- The values of the models. -/
  valueOf : String → Option Json
  leaves : List String

/-- The glossary of a document.  The order of the models has no part in it if their names are
distinct. -/
def Document.glossary (document : Document) : Glossary :=
  ⟨fun name => document.models.lookup name, document.leaves⟩

namespace Glossary

open Lowering (genericArity? propertyLabel isDirective KeyForm keyForm plain_of_name)

/-! ## Meanings -/

/-- The keys of `Omit` and `Pick`. -/
def keyNames? : TypeExpr → Option (List String)
  | .string key => some [key]
  | .keyword .never => some []
  | .union members => members.mapM fun member =>
      match member with
      | .string key => some key
      | _ => none
  | _ => none

/-- What a name without arguments means. -/
def nameMeaning (glossary : Glossary) (name : String) : Option NamedTerm :=
  if (genericArity? name).isSome then none
  else if (glossary.valueOf name).isSome then some (.reference name)
  else if name ∈ glossary.leaves then some (.leaf name)
  else none

mutual

/-- What a type expression means, given what models list. -/
noncomputable def exprMeaning (glossary : Glossary) (listing : Listing) :
    TypeExpr → Option NamedTerm
  | .keyword k => some (.intrinsic k)
  | .string value => some (.literal (.string value))
  | .number value => some (.literal (.number value))
  | .boolean value => some (.literal (.boolean value))
  | .array element => do return .array (← exprMeaning glossary listing element)
  | .union members => do return .unionOf (← exprMeanings glossary listing members)
  | .intersection members =>
      match members with
      | [] => none
      | first :: rest => do
          intersectionMeaning glossary listing (← exprMeaning glossary listing first) rest
  | .reference name args =>
      match args with
      | [] => nameMeaning glossary name
      | [operand] =>
          if name = "Array" then do return .array (← exprMeaning glossary listing operand)
          else if name = "Partial" then do
            let term ← exprMeaning glossary listing operand
            return .object (NamedProperties.allOptional (← term.properties? listing))
          else none
      | [operand, keys] =>
          if name = "Omit" || name = "Pick" then do
            let term ← exprMeaning glossary listing operand
            let properties ← term.properties? listing
            let names ← keyNames? keys
            return .object
              (if name = "Omit" then properties.without names else properties.only names)
          else none
      | _ => none
termination_by structural expr => expr

/-- What type expressions mean, each by itself. -/
noncomputable def exprMeanings (glossary : Glossary) (listing : Listing) :
    List TypeExpr → Option (List NamedTerm)
  | [] => some []
  | expr :: rest => do
      let term ← exprMeaning glossary listing expr
      return term :: (← exprMeanings glossary listing rest)
termination_by structural exprs => exprs

/-- What the operands of `&` mean together with what comes before them. -/
noncomputable def intersectionMeaning (glossary : Glossary) (listing : Listing) (base : NamedTerm) :
    List TypeExpr → Option NamedTerm
  | [] => some base
  | expr :: rest => do
      let term ← exprMeaning glossary listing expr
      let properties ← base.properties? listing
      let extra ← term.properties? listing
      intersectionMeaning glossary listing (.object (properties.merge extra)) rest
termination_by structural exprs => exprs

end

/-- What the text of a type expression means. -/
noncomputable def textMeaning (glossary : Glossary) (listing : Listing) (text : String) :
    Option NamedTerm :=
  match TypeExpr.parse text with
  | .ok expr => exprMeaning glossary listing expr
  | .error _ => none

mutual

/-- What a value means as a type. -/
noncomputable def valueMeaning (glossary : Glossary) (listing : Listing) : Json → Option NamedTerm
  | .string text => textMeaning glossary listing text
  | .object members =>
      match members with
      | [(key, inner)] =>
          if isDirective key then
            if key = "$array" then do return .array (← valueMeaning glossary listing inner)
            else if key = "$nullable" then do
              return .unionOf [← valueMeaning glossary listing inner, .intrinsic .null]
            else if key = "$union" then
              match inner with
              | .array items => do return .unionOf (← itemMeanings glossary listing items)
              | _ => none
            else none
          else do return .object (← memberMeanings glossary listing [] [(key, inner)])
      | members => do return .object (← memberMeanings glossary listing [] members)
  | .null | .bool _ | .number _ | .array _ => none
termination_by structural value => value

/-- What the members of a union mean, each by itself. -/
noncomputable def itemMeanings (glossary : Glossary) (listing : Listing) :
    List Json → Option (List NamedTerm)
  | [] => some []
  | item :: rest => do
      let term ← valueMeaning glossary listing item
      return term :: (← itemMeanings glossary listing rest)
termination_by structural items => items

/-- The properties that the members of an object list.  `seen` are the names that came before. -/
noncomputable def memberMeanings (glossary : Glossary) (listing : Listing) (seen : List String) :
    List (String × Json) → Option NamedProperties
  | [] => some []
  | (key, value) :: rest => do
      let (name, optional) := propertyLabel key
      if name.isEmpty || seen.contains name then none
      else
        let term ← valueMeaning glossary listing value
        return ((name, optional), term) :: (← memberMeanings glossary listing (name :: seen) rest)
termination_by structural members => members

end

/-- The properties that models list, where names are unfolded over a number of levels: a model lists
the properties of its value. -/
noncomputable def listedWithin (glossary : Glossary) : (levels : Nat) → Listing
  | 0, _ => none
  | levels + 1, name => do
      let term ← valueMeaning glossary (glossary.listedWithin levels) (← glossary.valueOf name)
      term.properties? (glossary.listedWithin levels)

section

variable {glossary : Glossary} {listing : Listing} {inner : Json}

theorem valueMeaning_array :
    glossary.valueMeaning listing (.object [("$array", inner)])
      = glossary.valueMeaning listing inner >>= fun element => pure (.array element) := by
  rfl

theorem valueMeaning_nullable :
    glossary.valueMeaning listing (.object [("$nullable", inner)])
      = glossary.valueMeaning listing inner >>= fun proper =>
        pure (.unionOf [proper, .intrinsic .null]) := by
  rfl

theorem valueMeaning_union {items : List Json} :
    glossary.valueMeaning listing (.object [("$union", .array items)])
      = glossary.itemMeanings listing items >>= fun terms => pure (.unionOf terms) := by
  rfl

theorem valueMeaning_union_of_ne (other : ∀ items, inner ≠ .array items) :
    glossary.valueMeaning listing (.object [("$union", inner)]) = none := by
  cases inner with
  | array items => exact absurd rfl (other items)
  | _ => rfl

theorem valueMeaning_unknown {key : String} (directive : isDirective key = true)
    (unknown : key ∉ ["$array", "$nullable", "$union"]) :
    glossary.valueMeaning listing (.object [(key, inner)]) = none := by
  simp only [List.mem_cons, List.not_mem_nil, or_false, not_or] at unknown
  unfold valueMeaning
  simp only [directive, unknown, if_true, if_false]

/-- An object without a directive means the properties that it lists. -/
theorem valueMeaning_members {members : List (String × Json)}
    (plain : ∀ key inner, members = [(key, inner)] → isDirective key = false) :
    glossary.valueMeaning listing (.object members)
      = glossary.memberMeanings listing [] members >>= fun properties =>
        pure (.object properties) := by
  unfold valueMeaning
  split
  next key inner => rw [if_neg (by simp [plain key inner rfl])]
  next => rfl

end

/-! ## More levels -/

variable {α β : Type} {glossary : Glossary} {meaning : Listing → Option α}
  {next : α → Listing → Option β}

/-- A meaning that stays the same when models list more. -/
def Steady (meaning : Listing → Option α) : Prop :=
  ∀ ⦃listing listing' : Listing⦄,
    (∀ name properties, listing name = some properties → listing' name = some properties) →
    ∀ result, meaning listing = some result → meaning listing' = some result

theorem Steady.const (result : Option α) : Steady fun _ => result := fun _ _ _ _ h => h

theorem Steady.bind (first : Steady meaning) (rest : ∀ a, Steady (next a)) :
    Steady fun listing => meaning listing >>= fun a => next a listing := by
  intro listing listing' more result h
  obtain ⟨a, is, h⟩ := Option.bind_eq_some_iff.1 h
  exact Option.bind_eq_some_iff.2 ⟨a, first more a is, rest a more result h⟩

theorem Steady.ite {condition : Prop} [Decidable condition] {other : Listing → Option α}
    (first : Steady meaning) (second : Steady other) :
    Steady fun listing => if condition then meaning listing else other listing := by
  split
  · exact first
  · exact second

theorem steady_properties? (term : NamedTerm) : Steady fun listing => term.properties? listing := by
  intro listing listing' more result h
  cases term with
  | reference name => exact more name result h
  | _ => exact h

mutual

theorem steady_exprMeaning :
    ∀ expr, Steady fun listing => glossary.exprMeaning listing expr
  | .keyword _ | .string _ | .number _ | .boolean _ => by
    simp only [exprMeaning]
    exact .const _
  | .array element => by
    simp only [exprMeaning]
    exact (steady_exprMeaning element).bind fun _ => .const _
  | .union members => by
    simp only [exprMeaning]
    exact (steady_exprMeanings members).bind fun _ => .const _
  | .intersection [] => by
    simp only [exprMeaning]
    exact .const _
  | .intersection (first :: rest) => by
    simp only [exprMeaning]
    exact (steady_exprMeaning first).bind fun base => steady_intersectionMeaning base rest
  | .reference name [] => by
    simp only [exprMeaning]
    exact .const _
  | .reference name [operand] => by
    simp only [exprMeaning]
    exact .ite ((steady_exprMeaning operand).bind fun _ => .const _)
      (.ite ((steady_exprMeaning operand).bind fun term =>
        (steady_properties? term).bind fun _ => .const _) (.const _))
  | .reference name [operand, keys] => by
    simp only [exprMeaning]
    exact .ite ((steady_exprMeaning operand).bind fun term =>
      (steady_properties? term).bind fun _ => (Steady.const (keyNames? keys)).bind fun _ =>
        .const _) (.const _)
  | .reference name (_ :: _ :: _ :: _) => by
    simp only [exprMeaning]
    exact .const _

theorem steady_exprMeanings :
    ∀ exprs, Steady fun listing => glossary.exprMeanings listing exprs
  | [] => by
    simp only [exprMeanings]
    exact .const _
  | expr :: rest => by
    simp only [exprMeanings]
    exact (steady_exprMeaning expr).bind fun _ => (steady_exprMeanings rest).bind fun _ => .const _

theorem steady_intersectionMeaning (base : NamedTerm) :
    ∀ exprs, Steady fun listing => glossary.intersectionMeaning listing base exprs
  | [] => by
    simp only [intersectionMeaning]
    exact .const _
  | expr :: rest => by
    simp only [intersectionMeaning]
    exact (steady_exprMeaning expr).bind fun term => (steady_properties? base).bind fun _ =>
      (steady_properties? term).bind fun _ => steady_intersectionMeaning _ rest

end

theorem steady_textMeaning (text : String) :
    Steady fun listing => glossary.textMeaning listing text := by
  unfold textMeaning
  split
  next expr _ => exact steady_exprMeaning expr
  next => exact .const none

mutual

theorem steady_valueMeaning :
    ∀ value, Steady fun listing => glossary.valueMeaning listing value
  | .null | .bool _ | .number _ | .array _ => by
    simp only [valueMeaning]
    exact .const _
  | .string text => by
    simp only [valueMeaning]
    exact steady_textMeaning text
  | .object [] => by
    simp only [valueMeaning]
    exact (steady_memberMeanings [] []).bind fun _ => .const _
  | .object [(key, inner)] => by
    cases keyForm key with
    | array is =>
      subst is
      simp only [valueMeaning_array]
      exact (steady_valueMeaning inner).bind fun _ => .const _
    | nullable is =>
      subst is
      simp only [valueMeaning_nullable]
      exact (steady_valueMeaning inner).bind fun _ => .const _
    | union is =>
      subst is
      match inner with
      | .array items => exact (steady_itemMeanings items).bind fun _ => .const _
      | .null | .bool _ | .number _ | .string _ | .object _ => exact .const none
    | unknown directive unknown =>
      simp only [valueMeaning_unknown directive unknown]
      exact .const none
    | name plain =>
      simp only [valueMeaning_members (plain_of_name plain inner)]
      exact (steady_memberMeanings [(key, inner)] []).bind fun _ => .const _
  | .object (first :: second :: rest) => by
    simp only [valueMeaning]
    exact (steady_memberMeanings (first :: second :: rest) []).bind fun _ => .const _

theorem steady_itemMeanings :
    ∀ items, Steady fun listing => glossary.itemMeanings listing items
  | [] => by
    simp only [itemMeanings]
    exact .const _
  | item :: rest => by
    simp only [itemMeanings]
    exact (steady_valueMeaning item).bind fun _ => (steady_itemMeanings rest).bind fun _ => .const _

theorem steady_memberMeanings :
    ∀ members seen, Steady fun listing => glossary.memberMeanings listing seen members
  | [], _ => by
    simp only [memberMeanings]
    exact .const _
  | (key, value) :: rest, _ => by
    simp only [memberMeanings]
    exact .ite (.const _) ((steady_valueMeaning value).bind fun _ =>
      (steady_memberMeanings rest _).bind fun _ => .const _)

end

theorem listedWithin_succ (levels : Nat) {name : String} {properties : NamedProperties}
    (h : glossary.listedWithin levels name = some properties) :
    glossary.listedWithin (levels + 1) name = some properties := by
  induction levels generalizing name properties with
  | zero => cases h
  | succ levels ih =>
    obtain ⟨value, is, h⟩ := Option.bind_eq_some_iff.1 h
    obtain ⟨term, means, h⟩ := Option.bind_eq_some_iff.1 h
    have more (name : String) (properties : NamedProperties) := @ih name properties
    exact Option.bind_eq_some_iff.2 ⟨value, is, Option.bind_eq_some_iff.2
      ⟨term, steady_valueMeaning value more term means, steady_properties? term more _ h⟩⟩

theorem listedWithin_of_le {levels more : Nat} (le : levels ≤ more) (name : String)
    (properties : NamedProperties) (h : glossary.listedWithin levels name = some properties) :
    glossary.listedWithin more name = some properties := by
  induction le with
  | refl => exact h
  | step _ ih => exact listedWithin_succ _ ih

/-! ## Results -/

/-- A meaning comes to a result if names are unfolded over enough levels. -/
def Yields (glossary : Glossary) (meaning : Listing → Option α) (result : α) : Prop :=
  ∃ levels, meaning (glossary.listedWithin levels) = some result

theorem Yields.unique (steady : Steady meaning) {result other : α}
    (h : glossary.Yields meaning result) (h' : glossary.Yields meaning other) : result = other := by
  obtain ⟨levels, h⟩ := h
  obtain ⟨levels', h'⟩ := h'
  have at_first := steady (listedWithin_of_le (Nat.le_max_left levels levels')) result h
  have at_second := steady (listedWithin_of_le (Nat.le_max_right levels levels')) other h'
  exact Option.some.inj (at_first.symm.trans at_second)

theorem yields_const_iff {given : Option α} {result : α} :
    glossary.Yields (fun _ => given) result ↔ given = some result :=
  ⟨fun ⟨_, h⟩ => h, fun h => ⟨0, h⟩⟩

theorem yields_pure_iff {given result : α} :
    glossary.Yields (fun _ => pure given) result ↔ result = given := by
  rw [yields_const_iff]
  exact ⟨fun h => (Option.some.inj h).symm, fun h => congrArg some h.symm⟩

/-- What a composed meaning comes to is what its parts come to, over levels that are enough for
both. -/
theorem yields_bind_iff (first : Steady meaning) (rest : ∀ a, Steady (next a)) {result : β} :
    glossary.Yields (fun listing => meaning listing >>= fun a => next a listing) result
      ↔ ∃ a, glossary.Yields meaning a ∧ glossary.Yields (next a) result := by
  constructor
  · rintro ⟨levels, h⟩
    obtain ⟨a, is, h⟩ := Option.bind_eq_some_iff.1 h
    exact ⟨a, ⟨levels, is⟩, ⟨levels, h⟩⟩
  · rintro ⟨a, ⟨levels, is⟩, ⟨levels', h⟩⟩
    exact ⟨max levels levels', Option.bind_eq_some_iff.2
      ⟨a, first (listedWithin_of_le (Nat.le_max_left levels levels')) a is,
        rest a (listedWithin_of_le (Nat.le_max_right levels levels')) result h⟩⟩

/-- What is made of a result in one step. -/
theorem yields_map_iff (first : Steady meaning) {f : α → β} {result : β} :
    glossary.Yields (fun listing => meaning listing >>= fun a => pure (f a)) result
      ↔ ∃ a, glossary.Yields meaning a ∧ result = f a := by
  rw [yields_bind_iff first fun _ => .const _]
  simp only [yields_pure_iff]

/-- A type expression means a type. -/
abbrev ExprMeans (glossary : Glossary) (expr : TypeExpr) : NamedTerm → Prop :=
  glossary.Yields fun listing => glossary.exprMeaning listing expr

/-- Type expressions mean types, each by itself. -/
abbrev ExprsMean (glossary : Glossary) (exprs : List TypeExpr) : List NamedTerm → Prop :=
  glossary.Yields fun listing => glossary.exprMeanings listing exprs

/-- Operands of `&` mean a type together with what comes before them. -/
abbrev IntersectionMeans (glossary : Glossary) (base : NamedTerm) (exprs : List TypeExpr) :
    NamedTerm → Prop :=
  glossary.Yields fun listing => glossary.intersectionMeaning listing base exprs

/-- A value means a type. -/
abbrev ValueMeans (glossary : Glossary) (value : Json) : NamedTerm → Prop :=
  glossary.Yields fun listing => glossary.valueMeaning listing value

/-- Values mean types, each by itself. -/
abbrev ItemsMean (glossary : Glossary) (items : List Json) : List NamedTerm → Prop :=
  glossary.Yields fun listing => glossary.itemMeanings listing items

/-- The members of an object list properties, after those of some names. -/
abbrev MembersMean (glossary : Glossary) (seen : List String) (members : List (String × Json)) :
    NamedProperties → Prop :=
  glossary.Yields fun listing => glossary.memberMeanings listing seen members

/-- A type has properties: it is an object, or a reference to a model that lists them. -/
abbrev HasProperties (glossary : Glossary) (term : NamedTerm) : NamedProperties → Prop :=
  glossary.Yields fun listing => term.properties? listing

/-- A model lists properties. -/
abbrev Lists (glossary : Glossary) (name : String) : NamedProperties → Prop :=
  glossary.Yields fun listing => listing name

/-- The value of a model means a type. -/
def Means (glossary : Glossary) (name : String) (term : NamedTerm) : Prop :=
  ∃ value, glossary.valueOf name = some value ∧ glossary.ValueMeans value term

variable {name : String} {expr : TypeExpr} {term other : NamedTerm} {properties : NamedProperties}

theorem Means.unique (h : glossary.Means name term) (h' : glossary.Means name other) :
    term = other := by
  obtain ⟨value, is, h⟩ := h
  obtain ⟨value', is', h'⟩ := h'
  cases is.symm.trans is'
  exact h.unique (steady_valueMeaning value) h'

/-- A model lists the properties of what its value means. -/
theorem lists_iff :
    glossary.Lists name properties
      ↔ ∃ term, glossary.Means name term ∧ glossary.HasProperties term properties := by
  constructor
  · rintro ⟨levels, h⟩
    cases levels with
    | zero => cases h
    | succ levels =>
      obtain ⟨value, is, h⟩ := Option.bind_eq_some_iff.1 h
      obtain ⟨term, means, h⟩ := Option.bind_eq_some_iff.1 h
      exact ⟨term, ⟨value, is, levels, means⟩, levels, h⟩
  · rintro ⟨term, ⟨value, is, levels, means⟩, levels', h⟩
    refine ⟨max levels levels' + 1, Option.bind_eq_some_iff.2 ⟨value, is,
      Option.bind_eq_some_iff.2 ⟨term, ?_, ?_⟩⟩⟩
    · exact steady_valueMeaning value (listedWithin_of_le (Nat.le_max_left _ _)) term means
    · exact steady_properties? term (listedWithin_of_le (Nat.le_max_right _ _)) properties h

theorem hasProperties_object_iff {given : NamedProperties} :
    glossary.HasProperties (.object given) properties ↔ properties = given :=
  @yields_pure_iff _ glossary given properties

theorem hasProperties_reference_iff :
    glossary.HasProperties (.reference name) properties ↔ glossary.Lists name properties :=
  Iff.rfl

/-! ## Compositions -/

/-- What is composed of the properties of one operand. -/
def composedMeaning (compose : NamedProperties → NamedProperties) (operand : NamedTerm)
    (listing : Listing) : Option NamedTerm :=
  operand.properties? listing >>= fun properties => pure (.object (compose properties))

/-- What is composed of the properties of two operands by `&`. -/
def mergedMeaning (base extra : NamedTerm) (listing : Listing) : Option NamedTerm :=
  base.properties? listing >>= fun properties => extra.properties? listing >>= fun added =>
    pure (.object (properties.merge added))

theorem steady_composedMeaning (compose : NamedProperties → NamedProperties)
    (operand : NamedTerm) : Steady (composedMeaning compose operand) :=
  (steady_properties? operand).bind fun _ => .const _

theorem steady_mergedMeaning (base extra : NamedTerm) : Steady (mergedMeaning base extra) :=
  (steady_properties? base).bind fun _ => (steady_properties? extra).bind fun _ => .const _

theorem yields_composedMeaning_iff {compose : NamedProperties → NamedProperties}
    {operand : NamedTerm} :
    glossary.Yields (composedMeaning compose operand) term
      ↔ ∃ properties, glossary.HasProperties operand properties
        ∧ term = .object (compose properties) :=
  yields_map_iff (steady_properties? operand)

theorem yields_mergedMeaning_iff {base extra : NamedTerm} :
    glossary.Yields (mergedMeaning base extra) term
      ↔ ∃ properties added, glossary.HasProperties base properties
        ∧ glossary.HasProperties extra added ∧ term = .object (properties.merge added) := by
  have same : glossary.Yields (mergedMeaning base extra) term
      ↔ ∃ properties, glossary.HasProperties base properties ∧ glossary.Yields
        (fun listing => extra.properties? listing >>= fun added =>
          pure (.object (NamedProperties.merge properties added))) term :=
    yields_bind_iff (steady_properties? base) fun _ =>
      (steady_properties? extra).bind fun _ => .const _
  rw [same]
  simp only [yields_map_iff (steady_properties? extra), exists_and_left]

/-! ## Type expressions -/

theorem exprMeans_keyword_iff {k : Intrinsic} :
    glossary.ExprMeans (.keyword k) term ↔ term = .intrinsic k :=
  yields_pure_iff

theorem exprMeans_string_iff {value : String} :
    glossary.ExprMeans (.string value) term ↔ term = .literal (.string value) :=
  yields_pure_iff

theorem exprMeans_number_iff {value : Double} :
    glossary.ExprMeans (.number value) term ↔ term = .literal (.number value) :=
  yields_pure_iff

theorem exprMeans_boolean_iff {value : Bool} :
    glossary.ExprMeans (.boolean value) term ↔ term = .literal (.boolean value) :=
  yields_pure_iff

theorem exprMeans_array_iff :
    glossary.ExprMeans (.array expr) term
      ↔ ∃ element, glossary.ExprMeans expr element ∧ term = .array element :=
  yields_map_iff (steady_exprMeaning expr)

theorem exprMeans_union_iff {members : List TypeExpr} :
    glossary.ExprMeans (.union members) term
      ↔ ∃ terms, glossary.ExprsMean members terms ∧ term = .unionOf terms :=
  yields_map_iff (steady_exprMeanings members)

theorem exprMeans_intersection_iff {first : TypeExpr} {rest : List TypeExpr} :
    glossary.ExprMeans (.intersection (first :: rest)) term
      ↔ ∃ base, glossary.ExprMeans first base ∧ glossary.IntersectionMeans base rest term :=
  yields_bind_iff (steady_exprMeaning first) fun base => steady_intersectionMeaning base rest

theorem exprMeans_name_iff :
    glossary.ExprMeans (.reference name []) term ↔ glossary.nameMeaning name = some term :=
  yields_const_iff

theorem exprMeans_Array_iff :
    glossary.ExprMeans (.reference "Array" [expr]) term
      ↔ ∃ element, glossary.ExprMeans expr element ∧ term = .array element :=
  yields_map_iff (steady_exprMeaning expr)

theorem exprMeans_Partial_iff :
    glossary.ExprMeans (.reference "Partial" [expr]) term
      ↔ ∃ operand, glossary.ExprMeans expr operand
        ∧ glossary.Yields (composedMeaning .allOptional operand) term :=
  yields_bind_iff (steady_exprMeaning expr) fun operand => steady_composedMeaning _ operand

/-- The properties that `Omit` or `Pick` leaves. -/
def selected (name : String) (keys : List String) (properties : NamedProperties) :
    NamedProperties :=
  if name = "Omit" then properties.without keys else properties.only keys

/-- What `Omit` or `Pick` composes of an operand, with the names that its second argument lists. -/
def selectionMeaning (name : String) (keys : TypeExpr) (operand : NamedTerm) (listing : Listing) :
    Option NamedTerm :=
  keyNames? keys >>= fun names => composedMeaning (selected name names) operand listing

theorem yields_selectionMeaning_iff {keys : TypeExpr} {operand : NamedTerm} :
    glossary.Yields (selectionMeaning name keys operand) term
      ↔ ∃ names, keyNames? keys = some names
        ∧ glossary.Yields (composedMeaning (selected name names) operand) term := by
  unfold selectionMeaning
  rw [yields_bind_iff (.const (keyNames? keys)) fun names => steady_composedMeaning _ operand]
  simp only [yields_const_iff]

theorem exprMeans_selection_iff {operand keys : TypeExpr}
    (selects : (name = "Omit" || name = "Pick") = true) :
    glossary.ExprMeans (.reference name [operand, keys]) term
      ↔ ∃ operandTerm, glossary.ExprMeans operand operandTerm
        ∧ glossary.Yields (selectionMeaning name keys operandTerm) term := by
  have same : (fun listing => glossary.exprMeaning listing (.reference name [operand, keys]))
      = fun listing => glossary.exprMeaning listing operand >>= fun operandTerm =>
          operandTerm.properties? listing >>= fun properties => keyNames? keys >>= fun names =>
          pure (.object (selected name names properties)) := by
    funext listing
    simp only [exprMeaning]
    rw [if_pos selects]
    rfl
  have steady (properties : NamedProperties) : Steady fun _ => keyNames? keys >>= fun names =>
      pure (NamedTerm.object (selected name names properties)) := .const _
  rw [ExprMeans, same, yields_bind_iff (steady_exprMeaning operand) fun operandTerm =>
    (steady_properties? operandTerm).bind steady]
  refine exists_congr fun operandTerm => and_congr_right fun _ => ?_
  rw [yields_selectionMeaning_iff]
  simp only [yields_bind_iff (steady_properties? _) steady, yields_map_iff (.const _),
    yields_const_iff, yields_composedMeaning_iff]
  constructor
  · rintro ⟨properties, has, names, is, rfl⟩
    exact ⟨names, is, properties, has, rfl⟩
  · rintro ⟨names, is, properties, has, rfl⟩
    exact ⟨properties, has, names, is, rfl⟩

theorem not_exprMeans_of_unary {operand : TypeExpr} (notArray : name ≠ "Array")
    (notPartial : name ≠ "Partial") : ¬ glossary.ExprMeans (.reference name [operand]) term := by
  rintro ⟨_, h⟩
  simp only [exprMeaning, if_neg notArray, if_neg notPartial, reduceCtorEq] at h

theorem not_exprMeans_of_binary {operand keys : TypeExpr}
    (other : ¬ (name = "Omit" || name = "Pick") = true) :
    ¬ glossary.ExprMeans (.reference name [operand, keys]) term := by
  rintro ⟨_, h⟩
  simp only [exprMeaning, if_neg other, reduceCtorEq] at h

theorem not_exprMeans_of_more {first second third : TypeExpr} {rest : List TypeExpr} :
    ¬ glossary.ExprMeans (.reference name (first :: second :: third :: rest)) term := by
  rintro ⟨_, h⟩
  simp only [exprMeaning, reduceCtorEq] at h

theorem exprsMean_nil_iff {terms : List NamedTerm} : glossary.ExprsMean [] terms ↔ terms = [] :=
  yields_pure_iff

theorem exprsMean_cons_iff {rest : List TypeExpr} {terms : List NamedTerm} :
    glossary.ExprsMean (expr :: rest) terms
      ↔ ∃ term others, glossary.ExprMeans expr term ∧ glossary.ExprsMean rest others
        ∧ terms = term :: others := by
  have same : glossary.ExprsMean (expr :: rest) terms
      ↔ ∃ term, glossary.ExprMeans expr term ∧ glossary.Yields (fun listing =>
        glossary.exprMeanings listing rest >>= fun others => pure (term :: others)) terms :=
    yields_bind_iff (steady_exprMeaning expr) fun _ =>
      (steady_exprMeanings rest).bind fun _ => .const _
  rw [same]
  simp only [yields_map_iff (steady_exprMeanings rest), exists_and_left]

theorem intersectionMeans_nil_iff {base : NamedTerm} :
    glossary.IntersectionMeans base [] term ↔ term = base :=
  yields_pure_iff

theorem intersectionMeans_cons_iff {base : NamedTerm} {rest : List TypeExpr} :
    glossary.IntersectionMeans base (expr :: rest) term
      ↔ ∃ operand, glossary.ExprMeans expr operand ∧ ∃ merged,
        glossary.Yields (mergedMeaning base operand) merged
          ∧ glossary.IntersectionMeans merged rest term := by
  have steady (properties extra : NamedProperties) :=
    @steady_intersectionMeaning glossary (.object (properties.merge extra)) rest
  have same : glossary.IntersectionMeans base (expr :: rest) term
      ↔ ∃ operand, glossary.ExprMeans expr operand ∧ glossary.Yields (fun listing =>
        base.properties? listing >>= fun properties => operand.properties? listing >>= fun extra =>
          glossary.intersectionMeaning listing (.object (properties.merge extra)) rest) term :=
    yields_bind_iff (steady_exprMeaning expr) fun operand => (steady_properties? base).bind
      fun properties => (steady_properties? operand).bind (steady properties)
  rw [same]
  refine exists_congr fun operand => and_congr_right fun _ => ?_
  simp only [yields_bind_iff (steady_properties? base) fun properties =>
    (steady_properties? _).bind (steady properties), yields_bind_iff (steady_properties? _)
      (steady _), yields_mergedMeaning_iff]
  constructor
  · rintro ⟨properties, has, added, has', means⟩
    exact ⟨_, ⟨properties, added, has, has', rfl⟩, means⟩
  · rintro ⟨_, ⟨properties, added, has, has', rfl⟩, means⟩
    exact ⟨properties, has, added, has', means⟩

/-! ## Values -/

theorem valueMeans_text_iff {text : String} :
    glossary.ValueMeans (.string text) term
      ↔ ∃ expr, TypeExpr.parse text = .ok expr ∧ glossary.ExprMeans expr term := by
  show glossary.Yields (fun listing => glossary.textMeaning listing text) term ↔ _
  unfold textMeaning
  cases TypeExpr.parse text with
  | ok expr => simp
  | error => simp [yields_const_iff]

section

variable {inner : Json}

theorem valueMeans_array_iff :
    glossary.ValueMeans (.object [("$array", inner)]) term
      ↔ ∃ element, glossary.ValueMeans inner element ∧ term = .array element := by
  simp only [ValueMeans, valueMeaning_array]
  exact yields_map_iff (steady_valueMeaning inner)

theorem valueMeans_nullable_iff :
    glossary.ValueMeans (.object [("$nullable", inner)]) term
      ↔ ∃ proper, glossary.ValueMeans inner proper
        ∧ term = .unionOf [proper, .intrinsic .null] := by
  simp only [ValueMeans, valueMeaning_nullable]
  exact yields_map_iff (steady_valueMeaning inner)

theorem valueMeans_union_iff {items : List Json} :
    glossary.ValueMeans (.object [("$union", .array items)]) term
      ↔ ∃ terms, glossary.ItemsMean items terms ∧ term = .unionOf terms := by
  simp only [ValueMeans, valueMeaning_union]
  exact yields_map_iff (steady_itemMeanings items)

theorem not_valueMeans_union (other : ∀ items, inner ≠ .array items) :
    ¬ glossary.ValueMeans (.object [("$union", inner)]) term := by
  simp [ValueMeans, valueMeaning_union_of_ne other, yields_const_iff]

theorem not_valueMeans_directive {key : String} (directive : isDirective key = true)
    (unknown : key ∉ ["$array", "$nullable", "$union"]) :
    ¬ glossary.ValueMeans (.object [(key, inner)]) term := by
  simp [ValueMeans, valueMeaning_unknown directive unknown, yields_const_iff]

/-- An object without a directive lists properties. -/
theorem valueMeans_members_iff {members : List (String × Json)}
    (plain : ∀ key inner, members = [(key, inner)] → isDirective key = false) :
    glossary.ValueMeans (.object members) term
      ↔ ∃ properties, glossary.MembersMean [] members properties ∧ term = .object properties := by
  simp only [ValueMeans, valueMeaning_members plain]
  exact yields_map_iff (steady_memberMeanings members [])

end

theorem not_valueMeans_of_scalar {value : Json} (text : ∀ t, value ≠ .string t)
    (object : ∀ members, value ≠ .object members) : ¬ glossary.ValueMeans value term := by
  rintro ⟨_, h⟩
  cases value with
  | string t => exact text t rfl
  | object members => exact object members rfl
  | _ => cases h

theorem itemsMean_nil_iff {terms : List NamedTerm} : glossary.ItemsMean [] terms ↔ terms = [] :=
  yields_pure_iff

theorem itemsMean_cons_iff {item : Json} {rest : List Json} {terms : List NamedTerm} :
    glossary.ItemsMean (item :: rest) terms
      ↔ ∃ term others, glossary.ValueMeans item term ∧ glossary.ItemsMean rest others
        ∧ terms = term :: others := by
  have same : glossary.ItemsMean (item :: rest) terms
      ↔ ∃ term, glossary.ValueMeans item term ∧ glossary.Yields (fun listing =>
        glossary.itemMeanings listing rest >>= fun others => pure (term :: others)) terms :=
    yields_bind_iff (steady_valueMeaning item) fun _ =>
      (steady_itemMeanings rest).bind fun _ => .const _
  rw [same]
  simp only [yields_map_iff (steady_itemMeanings rest), exists_and_left]

theorem membersMean_nil_iff {seen : List String} :
    glossary.MembersMean seen [] properties ↔ properties = [] :=
  yields_pure_iff

theorem membersMean_cons_iff {seen : List String} {key : String} {value : Json}
    {rest : List (String × Json)}
    (named : (propertyLabel key).1 ≠ "") (new : (propertyLabel key).1 ∉ seen) :
    glossary.MembersMean seen ((key, value) :: rest) properties
      ↔ ∃ term others, glossary.ValueMeans value term
        ∧ glossary.MembersMean ((propertyLabel key).1 :: seen) rest others
        ∧ properties = (propertyLabel key, term) :: others := by
  have same : (fun listing => glossary.memberMeanings listing seen ((key, value) :: rest))
      = fun listing => glossary.valueMeaning listing value >>= fun term =>
        glossary.memberMeanings listing ((propertyLabel key).1 :: seen) rest >>= fun others =>
          pure ((propertyLabel key, term) :: others) := by
    funext listing
    simp only [memberMeanings]
    rw [if_neg (by simp [named, new])]
  rw [MembersMean, same, yields_bind_iff (steady_valueMeaning value) fun _ =>
    (steady_memberMeanings rest _).bind fun _ => .const _]
  simp only [yields_map_iff (steady_memberMeanings rest _), exists_and_left]

theorem not_membersMean_of_not_new {seen : List String} {key : String} {value : Json}
    {rest : List (String × Json)}
    (taken : (propertyLabel key).1 = "" ∨ (propertyLabel key).1 ∈ seen) :
    ¬ glossary.MembersMean seen ((key, value) :: rest) properties := by
  rintro ⟨_, h⟩
  simp only [memberMeanings] at h
  rw [if_pos (by simpa using taken)] at h
  cases h

end Glossary

end ModelForms
