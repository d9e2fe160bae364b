import ModelForms.Proofs.Document.Dependencies
import ModelForms.Proofs.Document.NamedParts
import ModelForms.Proofs.Document.RegroupedMeanings
import ModelForms.Proofs.Types.UnnamedTerms

/-!
# Meanings with named parts

Where a new model has a part of types as its value, and its name stands in the place of the part,
each model means what it meant before, but for the name (`Glossary.NamesParts.exists_means`).

There is one exception.  Members of a union that were the same may differ in that a part of one of
them is named, so what was one type may come to be a union, and nothing is composed from a union.
So the meanings are there unless an operand of a composition comes to be a union
(`Glossary.ComposesUnion`).
-/

namespace ModelForms

open Lowering (keyForm isDirective)

namespace Glossary

/-! ## Unions among operands -/

/-- Along the names that models are aliases for, a type comes to be a union. -/
inductive EndsInUnion (glossary : Glossary) : NamedTerm → Prop
  | here (members : List NamedTerm) : EndsInUnion glossary (.union members)
  | onwards {model : String} {term : NamedTerm} (means : glossary.Means model term)
      (ends : EndsInUnion glossary term) : EndsInUnion glossary (.reference model)

/-- An operand comes to be a union. -/
def TakesUnion (glossary : Glossary) (operand : TypeExpr) : Prop :=
  ∃ term, glossary.ExprMeans operand term ∧ glossary.EndsInUnion term

/-- Some model is composed from an operand that comes to be a union. -/
def ComposesUnion (glossary : Glossary) : Prop :=
  ∃ model value, glossary.valueOf model = some value
    ∧ ∃ operand ∈ operandsOfValue value, glossary.TakesUnion operand

/-- A type with properties is no union. -/
theorem EndsInUnion.properties?_eq_none {glossary : Glossary} {term : NamedTerm}
    (ends : glossary.EndsInUnion term) (levels : Nat) :
    term.properties? (glossary.listedWithin levels) = none := by
  induction ends generalizing levels with
  | here => rfl
  | @onwards model term means _ ih =>
    rw [Option.eq_none_iff_forall_ne_some]
    intro properties lists
    cases levels with
    | zero => cases lists
    | succ levels =>
      obtain ⟨value, is, lists⟩ := Option.bind_eq_some_iff.1 lists
      obtain ⟨other, means', lists⟩ := Option.bind_eq_some_iff.1 lists
      cases means.unique ⟨value, is, levels, means'⟩
      rw [ih] at lists
      cases lists

/-- Where every model has a meaning, nothing is composed from a union. -/
theorem not_composesUnion {glossary : Glossary}
    (meaningful : ∀ model value, glossary.valueOf model = some value →
      ∃ term, glossary.Means model term) : ¬ glossary.ComposesUnion := by
  rintro ⟨model, value, is, operand, mem, term, means, ends⟩
  obtain ⟨_, _, is', levels, h⟩ := meaningful model value is
  cases is.symm.trans is'
  obtain ⟨operandTerm, properties, means', lists⟩ := isListed_of_valueMeaning value h operand mem
  cases Yields.unique (steady_exprMeaning operand) means ⟨levels, means'⟩
  rw [ends.properties?_eq_none] at lists
  cases lists

/-! ## Glossaries -/

/-- The second glossary has one model more, whose value is a part of types in the first one, and
its name in the place of this part. -/
structure NamesParts (glossary : Glossary) (name : String) (value : Json) (other : Glossary) :
    Prop where
  foreign : Lowering.genericArity? name = none
  unused : glossary.valueOf name = none
  notLeaf : name ∉ glossary.leaves
  named : other.valueOf name = some value
  values : ∀ model, model ≠ name → glossary.valueOf model = none ∧ other.valueOf model = none
    ∨ ∃ given given', glossary.valueOf model = some given ∧ other.valueOf model = some given'
      ∧ Json.NamesParts name value false given given'
  leaves : other.leaves = glossary.leaves

open NamedTerm

/-- Without the name the first type is the second one.  Outside of properties and elements it is
not the name itself. -/
structure Unnames (name : String) (type : NamedTerm) (inside : Bool) (term' term : NamedTerm) :
    Prop where
  same : unnamed name type term' = term
  proper : inside = false → .reference name ∉ term'.alternatives

variable {glossary other : Glossary} {name : String} {value : Json} {type term term' : NamedTerm}
  {levels : Nat}

theorem Unnames.of_ne_union {inside : Bool} (same : unnamed name type term' = term)
    (proper : ∀ members, term' ≠ .union members) (unequal : term' ≠ .reference name) :
    Unnames name type inside term' term := by
  refine ⟨same, fun _ mem => unequal ?_⟩
  cases term' with
  | union members => exact absurd rfl (proper members)
  | _ => exact (List.mem_singleton.1 mem).symm

theorem Unnames.array {inside : Bool} (same : unnamed name type term' = term) :
    Unnames name type inside (.array term') (.array term) :=
  .of_ne_union (by rw [unnamed, same]) (by simp) (by simp)

theorem Unnames.object {inside : Bool} {properties properties' : NamedProperties}
    (same : properties'.mapTypes (unnamed name type) = properties) :
    Unnames name type inside (.object properties') (.object properties) :=
  .of_ne_union (by rw [unnamed_object, same]) (by simp) (by simp)

theorem Unnames.weaken (unnames : Unnames name type false term' term) (inside : Bool) :
    Unnames name type inside term' term :=
  ⟨unnames.same, fun _ => unnames.proper rfl⟩

/-- A union of types from which a name goes. -/
theorem Unnames.union {inside : Bool} {terms terms' : List NamedTerm} (regular : Regular type)
    (same : terms'.map (unnamed name type) = terms)
    (proper : inside = false → ∀ m ∈ terms', .reference name ∉ m.alternatives)
    (regulars : ∀ m ∈ terms', Regular m) :
    Unnames name type inside (unionOf terms') (unionOf terms) := by
  refine ⟨by rw [unnamed_unionOf regular, same], fun outside mem => ?_⟩
  have flat (m : NamedTerm) (mem : m ∈ terms') : Flat m := (regulars m mem).flat
  obtain ⟨m, among, mem⟩ :=
    List.mem_flatMap.1 (mem_flattened_of_mem_alternatives flat mem (by simp) (by simp))
  exact proper outside m among mem

namespace NamesParts

/-- What models list, they list with the name, if they do not come to be unions. -/
def Carries (glossary other : Glossary) (name : String) (type : NamedTerm) (levels : Nat) : Prop :=
  ∀ model properties, glossary.listedWithin levels model = some properties →
    ¬ other.EndsInUnion (.reference model) →
    ∃ properties', other.listedWithin levels model = some properties'
      ∧ properties'.mapTypes (unnamed name type) = properties

theorem exists_properties (carries : Carries glossary other name type levels)
    {properties : NamedProperties} (unnames : Unnames name type false term' term)
    (single : ¬ other.EndsInUnion term')
    (lists : term.properties? (glossary.listedWithin levels) = some properties) :
    ∃ properties', term'.properties? (other.listedWithin levels) = some properties'
      ∧ properties'.mapTypes (unnamed name type) = properties := by
  obtain ⟨same, proper⟩ := unnames
  subst same
  cases term' with
  | object properties' =>
    rw [unnamed_object] at lists
    cases lists
    exact ⟨properties', rfl, rfl⟩
  | reference model =>
    have unequal : model ≠ name := by
      rintro rfl
      exact proper rfl (List.mem_singleton_self _)
    rw [unnamed_reference unequal] at lists
    exact carries model properties lists single
  | union members => exact absurd (.here members) single
  | _ =>
    unfold unnamed at lists
    cases lists

section

variable (names : glossary.NamesParts name value other)

include names

/-- A model remains, with parts of its value named. -/
theorem exists_value {model : String} {given : Json} (is : glossary.valueOf model = some given) :
    ∃ given', other.valueOf model = some given'
      ∧ Json.NamesParts name value false given given' := by
  have unequal : model ≠ name := by
    rintro rfl
    cases names.unused.symm.trans is
  rcases names.values model unequal with ⟨none, _⟩ | ⟨_, given', is', isGiven, namesGiven⟩
  · cases none.symm.trans is
  · cases is.symm.trans is'
    exact ⟨given', isGiven, namesGiven⟩

theorem unnames_nameMeaning {model : String} {inside : Bool}
    (h : glossary.nameMeaning model = some term) :
    other.nameMeaning model = some term ∧ Unnames name type inside term term := by
  unfold nameMeaning at h ⊢
  split at h
  next => cases h
  next notGeneric =>
  rw [if_neg notGeneric, names.leaves]
  have unequal (given : (glossary.valueOf model).isSome = true ∨ model ∈ glossary.leaves) :
      model ≠ name := by
    rintro rfl
    simp [names.unused, names.notLeaf] at given
  split at h
  next isModel =>
    cases h
    have unequal := unequal (.inl isModel)
    obtain ⟨_, is⟩ := Option.isSome_iff_exists.1 isModel
    obtain ⟨_, is', _⟩ := names.exists_value is
    rw [if_pos (by rw [is', Option.isSome_some])]
    exact ⟨rfl, .of_ne_union (unnamed_reference unequal) (by simp) (by simpa using unequal)⟩
  next notModel =>
    split at h
    next isLeaf =>
      cases h
      have unequal := unequal (.inr isLeaf)
      have notModel' : ¬ (other.valueOf model).isSome = true := by
        rcases names.values model unequal with ⟨_, none'⟩ | ⟨_, _, is, _⟩
        · simp [none']
        · simp [is] at notModel
      rw [if_neg notModel', if_pos isLeaf]
      exact ⟨rfl, .of_ne_union (by rw [unnamed]) (by simp) (by simp)⟩
    next => cases h

/-- The name means a reference to the new model. -/
theorem nameMeaning_name : other.nameMeaning name = some (.reference name) := by
  unfold nameMeaning
  rw [names.foreign, names.named]
  rfl

end

/-! ## Expressions -/

open TypeExpr (NamesEach)

/-- The keys of a composition are no types, so nothing in them is named. -/
theorem keyNames?_eq {keys keys' : TypeExpr} {found : List String}
    (names : keys.NamesParts name value false keys') (h : keyNames? keys = some found) :
    keyNames? keys' = some found := by
  cases names with
  | keyword | string => exact h
  | @union _ members members' names =>
    unfold keyNames? at h ⊢
    simp only at h ⊢
    induction members generalizing members' found with
    | nil =>
      cases names
      exact h
    | cons member rest ih =>
      cases names with
      | cons first more =>
        rw [List.mapM_cons] at h ⊢
        obtain ⟨key, isKey, h⟩ := Option.bind_eq_some_iff.1 h
        obtain ⟨others, areKeys, made⟩ := Option.bind_eq_some_iff.1 h
        cases member <;> simp only [reduceCtorEq] at isKey
        cases first
        exact Option.bind_eq_some_iff.2 ⟨key, isKey, Option.bind_eq_some_iff.2
          ⟨others, ih more areKeys, made⟩⟩
  | _ => cases h

/-- A name for a part of types, with what the part means and what models list over a number of
levels. -/
structure Carrying (glossary other : Glossary) (name : String) (value : Json) (type : NamedTerm)
    (levels : Nat) : Prop where
  names : glossary.NamesParts name value other
  means : glossary.ValueMeans value type
  regular : Regular type
  carries : Carries glossary other name type levels

mutual

/-- An expression with a meaning has one with the name, which is the same without the name. -/
theorem exists_exprMeaning (carrying : Carrying glossary other name value type levels) :
    ∀ {inside : Bool} {expr expr' : TypeExpr} {term : NamedTerm},
    expr.NamesParts name value inside expr' →
    glossary.exprMeaning (glossary.listedWithin levels) expr = some term →
    (∀ operand ∈ operandsOfExpr expr', ¬ other.TakesUnion operand) →
    ∃ term', other.exprMeaning (other.listedWithin levels) expr' = some term'
      ∧ Unnames name type inside term' term
  | _, _, _, _, .named is parses, h, _ => by
    -- The part means what the value of the new model means, over however many levels.
    subst is
    obtain ⟨_, parses', means⟩ := valueMeans_text_iff.1 carrying.means
    cases parses.symm.trans parses'
    cases means.unique (steady_exprMeaning _) ⟨levels, h⟩
    refine ⟨.reference name, ?_, unnamed_reference_self, by simp⟩
    rw [exprMeaning]
    exact carrying.names.nameMeaning_name
  | _, _, _, _, .keyword _, h, _ | _, _, _, _, .string _, h, _ | _, _, _, _, .number _, h, _
  | _, _, _, _, .boolean _, h, _ => by
    simp only [exprMeaning] at h ⊢
    cases h
    exact ⟨_, rfl, .of_ne_union (by rw [unnamed]) (by simp) (by simp)⟩
  | _, _, _, _, .array inner, h, single => by
    simp only [exprMeaning] at h ⊢
    simp only [operandsOfExpr] at single
    obtain ⟨element, h, made⟩ := Option.bind_eq_some_iff.1 h
    obtain ⟨element', h', unnames⟩ := exists_exprMeaning carrying inner h single
    cases made
    rw [h']
    exact ⟨_, rfl, .array unnames.same⟩
  | _, _, _, _, .union each, h, single => by
    simp only [exprMeaning] at h ⊢
    simp only [operandsOfExpr] at single
    obtain ⟨terms, h, made⟩ := Option.bind_eq_some_iff.1 h
    obtain ⟨terms', h', same, proper⟩ := exists_exprMeanings carrying each h single
    cases made
    rw [h']
    exact ⟨_, rfl, .union carrying.regular same proper (regular_of_exprMeanings _ h')⟩
  | _, _, _, _, .intersection .nil, h, _ => by
    simp only [exprMeaning] at h
    cases h
  | _, _, _, _, .intersection (.cons first rest), h, single => by
    simp only [exprMeaning] at h ⊢
    simp only [operandsOfExpr] at single
    simp only [operandsOfExprs, List.cons_append, List.forall_mem_cons,
      List.forall_mem_append] at single
    obtain ⟨singleFirst, singleRest, inFirst, inRest⟩ := single
    obtain ⟨base, h, more⟩ := Option.bind_eq_some_iff.1 h
    obtain ⟨base', h', unnames⟩ := exists_exprMeaning carrying first h inFirst
    rw [h']
    obtain ⟨term', h', unnames⟩ := exists_intersectionMeaning carrying rest unnames
      (fun ends => singleFirst ⟨base', ⟨levels, h'⟩, ends⟩) more
      (List.forall_mem_append.2 ⟨singleRest, inRest⟩)
    exact ⟨term', h', unnames _⟩
  | _, _, _, _, .reference _ .nil, h, _ => by
    simp only [exprMeaning] at h ⊢
    exact ⟨_, carrying.names.unnames_nameMeaning h⟩
  | _, _, _, _, .reference generic (.cons first .nil), h, single => by
    simp only [exprMeaning] at h ⊢
    simp only [operandsOfExpr] at single
    by_cases isArray : generic = "Array"
    · rw [if_pos isArray] at h ⊢
      rw [if_neg (by simp [isArray])] at single
      obtain ⟨element, h, made⟩ := Option.bind_eq_some_iff.1 h
      obtain ⟨element', h', unnames⟩ := exists_exprMeaning carrying first h single
      cases made
      rw [h']
      exact ⟨_, rfl, .array unnames.same⟩
    · rw [if_neg isArray] at h ⊢
      by_cases isPartial : generic = "Partial"
      · rw [if_pos isPartial] at h ⊢ single
        obtain ⟨singleFirst, inFirst⟩ := List.forall_mem_cons.1 single
        obtain ⟨term, h, more⟩ := Option.bind_eq_some_iff.1 h
        obtain ⟨properties, lists, made⟩ := Option.bind_eq_some_iff.1 more
        obtain ⟨term', h', unnames⟩ := exists_exprMeaning carrying first h inFirst
        rw [decide_eq_false isArray] at unnames
        obtain ⟨properties', lists', same⟩ := exists_properties carrying.carries unnames
          (fun ends => singleFirst ⟨term', ⟨levels, h'⟩, ends⟩) lists
        cases made
        refine ⟨_, Option.bind_eq_some_iff.2 ⟨term', h', Option.bind_eq_some_iff.2
          ⟨properties', lists', rfl⟩⟩, .object ?_⟩
        rw [NamedProperties.mapTypes_allOptional, same]
      · rw [if_neg isPartial] at h
        cases h
  | _, _, _, _, .reference generic (.cons first (.cons second .nil)), h, single => by
    simp only [exprMeaning] at h ⊢
    simp only [operandsOfExpr] at single
    by_cases selects : (generic = "Omit" || generic = "Pick") = true
    · rw [if_pos selects] at h ⊢
      have notArray : decide (generic = "Array") = false := by
        rw [decide_eq_false_iff_not]
        rintro rfl
        cases selects
      obtain ⟨singleFirst, inFirst⟩ := List.forall_mem_cons.1 single
      obtain ⟨term, h, more⟩ := Option.bind_eq_some_iff.1 h
      obtain ⟨properties, lists, more⟩ := Option.bind_eq_some_iff.1 more
      obtain ⟨keys, areKeys, made⟩ := Option.bind_eq_some_iff.1 more
      obtain ⟨term', h', unnames⟩ := exists_exprMeaning carrying first h inFirst
      rw [notArray] at unnames second
      obtain ⟨properties', lists', same⟩ := exists_properties carrying.carries unnames
        (fun ends => singleFirst ⟨term', ⟨levels, h'⟩, ends⟩) lists
      cases made
      refine ⟨_, Option.bind_eq_some_iff.2 ⟨term', h', Option.bind_eq_some_iff.2
        ⟨properties', lists', Option.bind_eq_some_iff.2
          ⟨keys, keyNames?_eq second areKeys, rfl⟩⟩⟩, .object ?_⟩
      split
      · rw [NamedProperties.mapTypes_without, same]
      · rw [NamedProperties.mapTypes_only, same]
    · rw [if_neg selects] at h
      cases h
  | _, _, _, _, .reference _ (.cons _ (.cons _ (.cons _ _))), h, _ => by
    simp only [exprMeaning] at h
    cases h

theorem exists_exprMeanings (carrying : Carrying glossary other name value type levels) :
    ∀ {inside : Bool} {exprs exprs' : List TypeExpr}
    {terms : List NamedTerm}, NamesEach name value inside exprs exprs' →
    glossary.exprMeanings (glossary.listedWithin levels) exprs = some terms →
    (∀ operand ∈ operandsOfExprs exprs', ¬ other.TakesUnion operand) →
    ∃ terms', other.exprMeanings (other.listedWithin levels) exprs' = some terms'
      ∧ terms'.map (unnamed name type) = terms
      ∧ (inside = false → ∀ m ∈ terms', .reference name ∉ m.alternatives)
  | _, _, _, _, .nil, h, _ => by
    simp only [exprMeanings] at h ⊢
    cases h
    exact ⟨[], rfl, rfl, by simp⟩
  | _, _, _, _, .cons first rest, h, single => by
    simp only [exprMeanings] at h ⊢
    simp only [operandsOfExprs] at single
    obtain ⟨inFirst, inRest⟩ := List.forall_mem_append.1 single
    obtain ⟨term, h, more⟩ := Option.bind_eq_some_iff.1 h
    obtain ⟨others, more, made⟩ := Option.bind_eq_some_iff.1 more
    obtain ⟨term', h', unnames⟩ := exists_exprMeaning carrying first h inFirst
    obtain ⟨others', more', same, proper⟩ := exists_exprMeanings carrying rest more inRest
    cases made
    rw [h', more']
    exact ⟨term' :: others', rfl, by rw [List.map_cons, unnames.same, same],
      fun outside => List.forall_mem_cons.2 ⟨unnames.proper outside, proper outside⟩⟩

theorem exists_intersectionMeaning (carrying : Carrying glossary other name value type levels) :
    ∀ {exprs exprs' : List TypeExpr}
    {base base' term : NamedTerm}, NamesEach name value false exprs exprs' →
    Unnames name type false base' base → ¬ other.EndsInUnion base' →
    glossary.intersectionMeaning (glossary.listedWithin levels) base exprs = some term →
    (∀ operand ∈ exprs' ++ operandsOfExprs exprs', ¬ other.TakesUnion operand) →
    ∃ term', other.intersectionMeaning (other.listedWithin levels) base' exprs' = some term'
      ∧ ∀ inside, Unnames name type inside term' term
  | _, _, _, _, _, .nil, unnames, _, h, _ => by
    simp only [intersectionMeaning] at h ⊢
    cases h
    exact ⟨_, rfl, unnames.weaken⟩
  | _, _, _, _, _, .cons first rest, unnames, singleBase, h, single => by
    simp only [intersectionMeaning] at h ⊢
    simp only [operandsOfExprs, List.cons_append, List.forall_mem_cons,
      List.forall_mem_append] at single
    obtain ⟨singleFirst, singleRest, inFirst, inRest⟩ := single
    obtain ⟨term, h, more⟩ := Option.bind_eq_some_iff.1 h
    obtain ⟨properties, lists, more⟩ := Option.bind_eq_some_iff.1 more
    obtain ⟨extra, adds, more⟩ := Option.bind_eq_some_iff.1 more
    obtain ⟨term', h', unnamesFirst⟩ := exists_exprMeaning carrying first h inFirst
    obtain ⟨properties', lists', same⟩ :=
      exists_properties carrying.carries unnames singleBase lists
    obtain ⟨extra', adds', sameExtra⟩ := exists_properties carrying.carries unnamesFirst
      (fun ends => singleFirst ⟨term', ⟨levels, h'⟩, ends⟩) adds
    have merged : Unnames name type false (.object (properties'.merge extra'))
        (.object (properties.merge extra)) :=
      .object (by rw [NamedProperties.mapTypes_merge, same, sameExtra])
    obtain ⟨whole, means', unnames⟩ := exists_intersectionMeaning carrying rest merged nofun more
      (List.forall_mem_append.2 ⟨singleRest, inRest⟩)
    exact ⟨whole, Option.bind_eq_some_iff.2 ⟨term', h', Option.bind_eq_some_iff.2
      ⟨properties', lists', Option.bind_eq_some_iff.2 ⟨extra', adds', means'⟩⟩⟩, unnames⟩

end

/-! ## Values -/

open Json (NamesItems NamesMembers)

mutual

/-- A value with a meaning has one with the name, which is the same without the name. -/
theorem exists_valueMeaning (carrying : Carrying glossary other name value type levels) :
    ∀ {inside : Bool} {given given' : Json} {term : NamedTerm},
    Json.NamesParts name value inside given given' →
    glossary.valueMeaning (glossary.listedWithin levels) given = some term →
    (∀ operand ∈ operandsOfValue given', ¬ other.TakesUnion operand) →
    ∃ term', other.valueMeaning (other.listedWithin levels) given' = some term'
      ∧ Unnames name type inside term' term
  | _, _, _, _, .named parses, h, _ => by
    cases carrying.means.unique (steady_valueMeaning _) ⟨levels, h⟩
    refine ⟨.reference name, ?_, unnamed_reference_self, by simp⟩
    simp only [valueMeaning, textMeaning, parses, exprMeaning]
    exact carrying.names.nameMeaning_name
  | _, _, _, _, .text parses parses' namesExpr, h, single => by
    simp only [valueMeaning, textMeaning, parses, parses'] at h ⊢
    simp only [operandsOfValue, parses'] at single
    exact exists_exprMeaning carrying namesExpr h single
  | _, _, _, _, .string text, h, single => by
    cases parses : TypeExpr.parse text with
    | error error =>
      simp only [valueMeaning, textMeaning, parses] at h
      cases h
    | ok expr =>
      simp only [valueMeaning, textMeaning, parses] at h ⊢
      simp only [operandsOfValue, parses] at single
      exact exists_exprMeaning carrying (.refl _ expr) h single
  | _, _, _, _, .null, h, _ | _, _, _, _, .bool _, h, _ | _, _, _, _, .number _, h, _
  | _, _, _, _, .array _, h, _ => by
    simp only [valueMeaning] at h
    cases h
  | _, _, _, _, .choice chooses inner, h, single => by
    simp only [List.mem_cons, List.not_mem_nil, or_false] at chooses
    simp only [operandsOfValue, operandsOfMembers, List.append_nil] at single
    rcases chooses with rfl | rfl
    · rw [valueMeaning_nullable] at h ⊢
      obtain ⟨proper, h, made⟩ := Option.bind_eq_some_iff.1 h
      obtain ⟨proper', h', unnames⟩ := exists_valueMeaning carrying inner h single
      cases made
      rw [h']
      refine ⟨_, rfl, .union carrying.regular (by simp [unnames.same, unnamed]) ?_ ?_⟩
      · exact fun outside => List.forall_mem_cons.2 ⟨unnames.proper outside, by simp [alternatives]⟩
      · exact List.forall_mem_cons.2 ⟨regular_of_valueMeaning _ h',
          List.forall_mem_singleton.2 (regular_of_ne_union (by simp))⟩
    · cases inner with
      | array each =>
        rw [valueMeaning_union] at h ⊢
        simp only [operandsOfValue] at single
        obtain ⟨terms, h, made⟩ := Option.bind_eq_some_iff.1 h
        obtain ⟨terms', h', same, proper⟩ := exists_itemMeanings carrying each h single
        cases made
        rw [h']
        exact ⟨_, rfl, .union carrying.regular same proper (regular_of_itemMeanings _ h')⟩
      | named =>
        rw [valueMeaning_union_of_ne] at h
        · cases h
        · rintro items rfl
          exact not_valueMeans_of_scalar (by simp) (by simp) carrying.means
      | _ =>
        rw [valueMeaning_union_of_ne (by simp)] at h
        cases h
  | _, _, _, _, @Json.NamesParts.object _ _ _ members members' lists each, h, single => by
    simp only [operandsOfValue] at single
    by_cases plain : ∀ key inner, members = [(key, inner)] → isDirective key = false
    · have plain' : ∀ key inner, members' = [(key, inner)] → isDirective key = false := by
        rintro key inner rfl
        cases each with
        | cons _ first rest =>
          cases rest
          exact plain key _ rfl
      rw [valueMeaning_members plain] at h
      rw [valueMeaning_members plain']
      obtain ⟨properties, h, made⟩ := Option.bind_eq_some_iff.1 h
      obtain ⟨properties', h', same⟩ := exists_memberMeanings carrying each h single
      cases made
      rw [h']
      exact ⟨_, rfl, .object same⟩
    · simp only [not_forall] at plain
      obtain ⟨key, inner, rfl, directive⟩ := plain
      cases each with
      | cons _ first rest =>
      cases rest
      simp only [operandsOfMembers, List.append_nil] at single
      cases keyForm key with
      | array is =>
        subst is
        rw [valueMeaning_array] at h ⊢
        obtain ⟨element, h, made⟩ := Option.bind_eq_some_iff.1 h
        obtain ⟨element', h', unnames⟩ := exists_valueMeaning carrying first h single
        cases made
        rw [h']
        exact ⟨_, rfl, .array unnames.same⟩
      | nullable is | union is => exact absurd (by simp [is]) (lists key inner rfl)
      | unknown directive unknown =>
        rw [valueMeaning_unknown directive unknown] at h
        cases h
      | name plain => exact absurd plain directive

theorem exists_itemMeanings (carrying : Carrying glossary other name value type levels) :
    ∀ {inside : Bool} {items items' : List Json} {terms : List NamedTerm},
    NamesItems name value inside items items' →
    glossary.itemMeanings (glossary.listedWithin levels) items = some terms →
    (∀ operand ∈ operandsOfItems items', ¬ other.TakesUnion operand) →
    ∃ terms', other.itemMeanings (other.listedWithin levels) items' = some terms'
      ∧ terms'.map (unnamed name type) = terms
      ∧ (inside = false → ∀ m ∈ terms', .reference name ∉ m.alternatives)
  | _, _, _, _, .nil, h, _ => by
    simp only [itemMeanings] at h ⊢
    cases h
    exact ⟨[], rfl, rfl, by simp⟩
  | _, _, _, _, .cons first rest, h, single => by
    simp only [itemMeanings] at h ⊢
    simp only [operandsOfItems] at single
    obtain ⟨inFirst, inRest⟩ := List.forall_mem_append.1 single
    obtain ⟨term, h, more⟩ := Option.bind_eq_some_iff.1 h
    obtain ⟨others, more, made⟩ := Option.bind_eq_some_iff.1 more
    obtain ⟨term', h', unnames⟩ := exists_valueMeaning carrying first h inFirst
    obtain ⟨others', more', same, proper⟩ := exists_itemMeanings carrying rest more inRest
    cases made
    rw [h', more']
    exact ⟨term' :: others', rfl, by rw [List.map_cons, unnames.same, same],
      fun outside => List.forall_mem_cons.2 ⟨unnames.proper outside, proper outside⟩⟩

theorem exists_memberMeanings (carrying : Carrying glossary other name value type levels) :
    ∀ {inside : Bool} {members members' : List (String × Json)} {seen : List String}
      {properties : NamedProperties},
    NamesMembers name value inside members members' →
    glossary.memberMeanings (glossary.listedWithin levels) seen members = some properties →
    (∀ operand ∈ operandsOfMembers members', ¬ other.TakesUnion operand) →
    ∃ properties', other.memberMeanings (other.listedWithin levels) seen members'
        = some properties' ∧ properties'.mapTypes (unnamed name type) = properties
  | _, _, _, _, _, .nil, h, _ => by
    simp only [memberMeanings] at h ⊢
    cases h
    exact ⟨[], rfl, rfl⟩
  | _, _, _, _, _, .cons key first rest, h, single => by
    simp only [memberMeanings] at h ⊢
    simp only [operandsOfMembers] at single
    obtain ⟨inFirst, inRest⟩ := List.forall_mem_append.1 single
    split at h
    next => cases h
    next new =>
      rw [if_neg new]
      obtain ⟨term, h, more⟩ := Option.bind_eq_some_iff.1 h
      obtain ⟨others, more, made⟩ := Option.bind_eq_some_iff.1 more
      obtain ⟨term', h', unnames⟩ := exists_valueMeaning carrying first h inFirst
      obtain ⟨others', more', same⟩ := exists_memberMeanings carrying rest more inRest
      cases made
      rw [h', more']
      refine ⟨_, rfl, ?_⟩
      rw [← unnames.same, ← same]
      rfl

end

/-! ## Models -/

section

variable (names : glossary.NamesParts name value other) (means : glossary.ValueMeans value type)
  (single : ¬ other.ComposesUnion)

include names means single

omit single in
theorem carrying (carries : Carries glossary other name type levels) :
    Carrying glossary other name value type levels := by
  obtain ⟨_, h⟩ := means
  exact ⟨names, ⟨_, h⟩, regular_of_valueMeaning value h, carries⟩

/-- What models list, they list with the name, over any number of levels. -/
theorem carries (levels : Nat) : Carries glossary other name type levels := by
  -- What a model lists over some levels is told by what its operands list over one level less.
  induction levels with
  | zero =>
    intro model properties h
    cases h
  | succ levels ih =>
    intro model properties h ends
    obtain ⟨given, is, h⟩ := Option.bind_eq_some_iff.1 h
    obtain ⟨term, h, lists⟩ := Option.bind_eq_some_iff.1 h
    obtain ⟨given', isGiven, namesGiven⟩ := names.exists_value is
    obtain ⟨term', h', unnames⟩ := exists_valueMeaning (names.carrying means ih) namesGiven h
      fun operand mem takes => single ⟨model, given', isGiven, operand, mem, takes⟩
    obtain ⟨properties', lists', same⟩ := exists_properties ih unnames
      (fun union => ends (.onwards ⟨given', isGiven, levels, h'⟩ union)) lists
    exact ⟨properties', Option.bind_eq_some_iff.2 ⟨given', isGiven, Option.bind_eq_some_iff.2
      ⟨term', h', lists'⟩⟩, same⟩

/-- A model with a meaning has one with the name, which is the same without the name. -/
theorem exists_means {model : String} (meaning : glossary.Means model term) :
    ∃ term', other.Means model term' ∧ unnamed name type term' = term := by
  obtain ⟨given, is, levels, h⟩ := meaning
  obtain ⟨given', isGiven, namesGiven⟩ := names.exists_value is
  obtain ⟨term', h', unnames⟩ :=
    exists_valueMeaning (names.carrying means (names.carries means single levels)) namesGiven h
      fun operand mem takes => single ⟨model, given', isGiven, operand, mem, takes⟩
  exact ⟨term', ⟨given', isGiven, levels, h'⟩, unnames.same⟩

/-- The new model means what the part meant. -/
theorem exists_means_name : ∃ term', other.Means name term' ∧ unnamed name type term' = type := by
  obtain ⟨levels, h⟩ := id means
  obtain ⟨term', h', unnames⟩ :=
    exists_valueMeaning (names.carrying means (names.carries means single levels))
      (.refl false value) h
      fun operand mem takes => single ⟨name, value, names.named, operand, mem, takes⟩
  exact ⟨term', ⟨value, names.named, levels, h'⟩, unnames.same⟩

end

end NamesParts

/-! ## What is named -/

section

variable {listing : Listing}

theorem exists_exprMeaning_of_mem {exprs : List TypeExpr} {terms : List NamedTerm}
    (h : glossary.exprMeanings listing exprs = some terms) {expr : TypeExpr} (mem : expr ∈ exprs) :
    ∃ term, glossary.exprMeaning listing expr = some term := by
  induction exprs generalizing terms with
  | nil => cases mem
  | cons first rest ih =>
    simp only [exprMeanings] at h
    obtain ⟨term, means, h⟩ := Option.bind_eq_some_iff.1 h
    obtain ⟨others, more, _⟩ := Option.bind_eq_some_iff.1 h
    rcases List.mem_cons.1 mem with rfl | mem
    · exact ⟨term, means⟩
    · exact ih more mem

theorem exists_valueMeaning_of_mem {items : List Json} {terms : List NamedTerm}
    (h : glossary.itemMeanings listing items = some terms) {item : Json} (mem : item ∈ items) :
    ∃ term, glossary.valueMeaning listing item = some term := by
  induction items generalizing terms with
  | nil => cases mem
  | cons first rest ih =>
    simp only [itemMeanings] at h
    obtain ⟨term, means, h⟩ := Option.bind_eq_some_iff.1 h
    obtain ⟨others, more, _⟩ := Option.bind_eq_some_iff.1 h
    rcases List.mem_cons.1 mem with rfl | mem
    · exact ⟨term, means⟩
    · exact ih more mem

theorem exists_valueMeaning_of_mem_members {members : List (String × Json)} {seen : List String}
    {properties : NamedProperties}
    (h : glossary.memberMeanings listing seen members = some properties) {key : String}
    {given : Json} (mem : (key, given) ∈ members) :
    ∃ term, glossary.valueMeaning listing given = some term := by
  induction members generalizing seen properties with
  | nil => cases mem
  | cons first rest ih =>
    simp only [memberMeanings] at h
    split at h
    next => cases h
    next =>
      obtain ⟨term, means, h⟩ := Option.bind_eq_some_iff.1 h
      obtain ⟨others, more, _⟩ := Option.bind_eq_some_iff.1 h
      rcases List.mem_cons.1 mem with rfl | mem
      · exact ⟨term, means⟩
      · exact ih more mem

/-- An operand in an expression with a meaning has a meaning. -/
theorem exists_exprMeaning_of_namesOperand {part expr expr' : TypeExpr} {inside : Bool}
    (names : TypeExpr.NamesOperand name part inside expr expr') {term : NamedTerm}
    (h : glossary.exprMeaning listing expr = some term) :
    ∃ type, glossary.exprMeaning listing part = some type := by
  induction names generalizing term with
  | operand before after =>
    simp only [exprMeaning] at h
    obtain ⟨_, means, _⟩ := Option.bind_eq_some_iff.1 h
    exact exists_exprMeaning_of_mem means (by simp)
  | @member _ member _ before after _ ih =>
    simp only [exprMeaning] at h
    obtain ⟨_, means, _⟩ := Option.bind_eq_some_iff.1 h
    obtain ⟨_, means⟩ := exists_exprMeaning_of_mem means (show member ∈ _ by simp)
    exact ih means
  | array _ ih | generic _ ih =>
    simp only [exprMeaning] at h
    obtain ⟨_, means, _⟩ := Option.bind_eq_some_iff.1 h
    exact ih means

/-- An operand in a value with a meaning has a meaning. -/
theorem exists_valueMeaning_of_namesOperand {given given' : Json} {inside : Bool}
    (names : Json.NamesOperand name value inside given given') {term : NamedTerm}
    (h : glossary.valueMeaning listing given = some term) :
    ∃ type, glossary.valueMeaning listing value = some type := by
  induction names generalizing term with
  | text is writes parses _ names =>
    simp only [is, valueMeaning, textMeaning, parses, writes] at h ⊢
    exact exists_exprMeaning_of_namesOperand names h
  | operand _ before after =>
    rw [valueMeaning_union] at h
    obtain ⟨_, means, _⟩ := Option.bind_eq_some_iff.1 h
    exact exists_valueMeaning_of_mem means (by simp)
  | nullable =>
    rw [valueMeaning_nullable] at h
    obtain ⟨type, means, _⟩ := Option.bind_eq_some_iff.1 h
    exact ⟨type, means⟩
  | @member _ item _ before after _ ih =>
    rw [valueMeaning_union] at h
    obtain ⟨_, means, _⟩ := Option.bind_eq_some_iff.1 h
    obtain ⟨_, means⟩ := exists_valueMeaning_of_mem means (show item ∈ _ by simp)
    exact ih means
  | nullableMember _ ih =>
    rw [valueMeaning_nullable] at h
    obtain ⟨_, means, _⟩ := Option.bind_eq_some_iff.1 h
    exact ih means
  | element _ ih =>
    rw [valueMeaning_array] at h
    obtain ⟨_, means, _⟩ := Option.bind_eq_some_iff.1 h
    exact ih means
  | @property _ given _ key before after plain _ ih =>
    rw [valueMeaning_members plain] at h
    obtain ⟨_, means, _⟩ := Option.bind_eq_some_iff.1 h
    obtain ⟨_, means⟩ := exists_valueMeaning_of_mem_members means (show (key, given) ∈ _ by simp)
    exact ih means

/-- An operand in the value of a model that means something means something. -/
theorem Means.exists_valueMeans {model : String} {given given' : Json}
    (means : glossary.Means model term) (is : glossary.valueOf model = some given)
    (names : Json.NamesOperand name value false given given') :
    ∃ type, glossary.ValueMeans value type := by
  obtain ⟨_, is', levels, h⟩ := means
  cases is.symm.trans is'
  obtain ⟨type, h⟩ := exists_valueMeaning_of_namesOperand names h
  exact ⟨type, levels, h⟩

end

end Glossary

end ModelForms
