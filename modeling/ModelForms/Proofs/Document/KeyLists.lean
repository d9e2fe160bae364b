import ModelForms.Proofs.Document.RegroupedMeanings

/-!
# Key lists

The keys of `Omit` and `Pick` are read off the tree of the second argument: a string literal, a
union of string literals, or `never`.  A union in that union is refused, so grouping counts here.
What has a meaning has only key lists that are read (`Glossary.areReadable_of_valueMeaning`), and
where all of them are read it makes no difference whether they are ungrouped
(`TypeExpr.ungroup_eq_of_areReadable`).
-/

namespace ModelForms

namespace TypeExpr

open Glossary (keyNames?)

mutual

/-- The second arguments of names with two arguments in a type expression. -/
def keyLists : TypeExpr → List TypeExpr
  | .keyword _ | .string _ | .number _ | .boolean _ => []
  | .array element => keyLists element
  | .union members | .intersection members => keyListsOfEach members
  | .reference _ args =>
      match args with
      | [operand, keys] => keys :: keyLists operand
      | args => keyListsOfEach args
termination_by structural expr => expr

/-- The second arguments of names with two arguments in type expressions. -/
def keyListsOfEach : List TypeExpr → List TypeExpr
  | [] => []
  | expr :: rest => keyLists expr ++ keyListsOfEach rest
termination_by structural exprs => exprs

end

/-- The keys are read: they are literals with no group among them. -/
def AreReadable (lists : List TypeExpr) : Prop := ∀ keys ∈ lists, (keyNames? keys).isSome = true

theorem areReadable_append_iff {lists more : List TypeExpr} :
    AreReadable (lists ++ more) ↔ AreReadable lists ∧ AreReadable more :=
  List.forall_mem_append

theorem areReadable_cons_iff {keys : TypeExpr} {more : List TypeExpr} :
    AreReadable (keys :: more) ↔ (keyNames? keys).isSome = true ∧ AreReadable more :=
  List.forall_mem_cons

theorem areReadable_nil : AreReadable [] := by
  simp [AreReadable]

variable {inKeys : Bool}

/-- There is no group among keys that are read. -/
theorem ungroup_keys {keys : TypeExpr} (readable : (keyNames? keys).isSome = true) :
    ungroup inKeys keys = keys := by
  cases keys with
  | union members =>
    rw [ungroup, TypeExpr.union.injEq]
    obtain ⟨names, is⟩ := Option.isSome_iff_exists.1 readable
    simp only [keyNames?] at is
    clear readable
    induction members generalizing names with
    | nil => rfl
    | cons member rest ih =>
      rw [List.mapM_cons] at is
      obtain ⟨_, first, is⟩ := Option.bind_eq_some_iff.1 is
      obtain ⟨others, more, _⟩ := Option.bind_eq_some_iff.1 is
      cases member with
      | string key => exact congrArg (TypeExpr.string key :: ·) (ih others more)
      | _ => cases first
  | string | keyword => rfl
  | _ => cases readable

mutual

theorem ungroup_eq_of_areReadable (inKeys : Bool) : ∀ expr : TypeExpr, AreReadable expr.keyLists →
    ungroup inKeys expr = ungroup false expr
  | .keyword _, _ | .string _, _ | .number _, _ | .boolean _, _ => rfl
  | .array element, readable => by
    rw [keyLists] at readable
    rw [ungroup, ungroup, ungroup_eq_of_areReadable inKeys element readable]
  | .union members, readable => by
    rw [keyLists] at readable
    rw [ungroup, ungroup, ungroupUnion_eq_of_areReadable inKeys members readable]
  | .intersection members, readable => by
    rw [keyLists] at readable
    rw [ungroup, ungroup, ungroupIntersection_eq_of_areReadable inKeys members readable]
  | .reference name [], _ => by
    unfold ungroup
    rfl
  | .reference name [operand], readable => by
    unfold keyLists at readable
    unfold ungroup
    simp only [ungroupEach_eq_of_areReadable inKeys [operand] readable]
  | .reference name [operand, keys], readable => by
    unfold keyLists at readable
    obtain ⟨readableKeys, readable⟩ := areReadable_cons_iff.1 readable
    unfold ungroup
    simp only [ungroup_eq_of_areReadable inKeys operand readable, ungroup_keys readableKeys,
      ite_self]
  | .reference name (first :: second :: third :: rest), readable => by
    unfold keyLists at readable
    unfold ungroup
    simp only [ungroupEach_eq_of_areReadable inKeys (first :: second :: third :: rest) readable]
termination_by structural expr => expr

theorem ungroupUnion_eq_of_areReadable (inKeys : Bool) : ∀ members : List TypeExpr,
    AreReadable (keyListsOfEach members) →
    ungroupUnion inKeys members = ungroupUnion false members
  | [], _ => rfl
  | member :: rest, readable => by
    rw [keyListsOfEach, areReadable_append_iff] at readable
    rw [ungroupUnion, ungroupUnion, ungroup_eq_of_areReadable inKeys member readable.1,
      ungroupUnion_eq_of_areReadable inKeys rest readable.2]
termination_by structural members => members

theorem ungroupIntersection_eq_of_areReadable (inKeys : Bool) : ∀ members : List TypeExpr,
    AreReadable (keyListsOfEach members) →
    ungroupIntersection inKeys members = ungroupIntersection false members
  | [], _ => rfl
  | member :: rest, readable => by
    rw [keyListsOfEach, areReadable_append_iff] at readable
    rw [ungroupIntersection, ungroupIntersection,
      ungroup_eq_of_areReadable inKeys member readable.1,
      ungroupIntersection_eq_of_areReadable inKeys rest readable.2]
termination_by structural members => members

theorem ungroupEach_eq_of_areReadable (inKeys : Bool) : ∀ exprs : List TypeExpr,
    AreReadable (keyListsOfEach exprs) → ungroupEach inKeys exprs = ungroupEach false exprs
  | [], _ => rfl
  | expr :: rest, readable => by
    rw [keyListsOfEach, areReadable_append_iff] at readable
    rw [ungroupEach, ungroupEach, ungroup_eq_of_areReadable inKeys expr readable.1,
      ungroupEach_eq_of_areReadable inKeys rest readable.2]
termination_by structural exprs => exprs

end

end TypeExpr

namespace Json

mutual

/-- The second arguments of names with two arguments in the expressions of a value. -/
def keyLists : Json → List TypeExpr
  | .string text =>
      match TypeExpr.parse text with
      | .ok expr => expr.keyLists
      | .error _ => []
  | .array items => keyListsOfItems items
  | .object members => keyListsOfMembers members
  | .null | .bool _ | .number _ => []
termination_by structural value => value

/-- The second arguments of names with two arguments in the expressions of items. -/
def keyListsOfItems : List Json → List TypeExpr
  | [] => []
  | item :: rest => keyLists item ++ keyListsOfItems rest
termination_by structural items => items

/-- The second arguments of names with two arguments in the expressions of members. -/
def keyListsOfMembers : List (String × Json) → List TypeExpr
  | [] => []
  | (_, value) :: rest => keyLists value ++ keyListsOfMembers rest
termination_by structural members => members

end

open TypeExpr

variable {inKeys : Bool}

mutual

/-- Where all keys are read, values differ in their groups outside of key lists only. -/
theorem Rewritten.of_areReadable : ∀ {value other : Json},
    Rewritten (Regrouped inKeys) value other → AreReadable value.keyLists →
    AreReadable other.keyLists → Rewritten (Regrouped false) value other
  | _, _, .here (@Regrouped.texts _ _ _ expr expr' parses parses' same), readable,
      readable' => by
    simp only [keyLists, parses] at readable
    simp only [keyLists, parses'] at readable'
    refine .here (.texts parses parses' ?_)
    rwa [ungroup_eq_of_areReadable inKeys expr readable,
      ungroup_eq_of_areReadable inKeys expr' readable'] at same
  | _, _, .null, _, _ => .null
  | _, _, .bool value, _, _ => .bool value
  | _, _, .number value, _, _ => .number value
  | _, _, .string text, _, _ => .string text
  | _, _, .array h, readable, readable' => by
    rw [keyLists] at readable readable'
    exact .array (RewrittenItems.of_areReadable h readable readable')
  | _, _, .object h, readable, readable' => by
    rw [keyLists] at readable readable'
    exact .object (RewrittenMembers.of_areReadable h readable readable')

theorem RewrittenItems.of_areReadable : ∀ {items others : List Json},
    RewrittenItems (Regrouped inKeys) items others → AreReadable (keyListsOfItems items) →
    AreReadable (keyListsOfItems others) → RewrittenItems (Regrouped false) items others
  | _, _, .nil, _, _ => .nil
  | _, _, .cons first rest, readable, readable' => by
    rw [keyListsOfItems, areReadable_append_iff] at readable readable'
    exact .cons (Rewritten.of_areReadable first readable.1 readable'.1)
      (RewrittenItems.of_areReadable rest readable.2 readable'.2)

theorem RewrittenMembers.of_areReadable : ∀ {members others : List (String × Json)},
    RewrittenMembers (Regrouped inKeys) members others → AreReadable (keyListsOfMembers members) →
    AreReadable (keyListsOfMembers others) → RewrittenMembers (Regrouped false) members others
  | _, _, .nil, _, _ => .nil
  | _, _, .cons key first rest, readable, readable' => by
    rw [keyListsOfMembers, areReadable_append_iff] at readable readable'
    exact .cons key (Rewritten.of_areReadable first readable.1 readable'.1)
      (RewrittenMembers.of_areReadable rest readable.2 readable'.2)

end

end Json

namespace Glossary

open TypeExpr
open Lowering (keyForm plain_of_name)

variable {glossary : Glossary} {listing : Listing}

mutual

theorem areReadable_of_exprMeaning : ∀ (expr : TypeExpr) {term : NamedTerm},
    glossary.exprMeaning listing expr = some term → AreReadable expr.keyLists
  | .keyword _, _, _ | .string _, _, _ | .number _, _, _ | .boolean _, _, _ => areReadable_nil
  | .array element, _, h => by
    simp only [exprMeaning] at h
    obtain ⟨_, means, _⟩ := Option.bind_eq_some_iff.1 h
    rw [keyLists]
    exact areReadable_of_exprMeaning element means
  | .union members, _, h => by
    simp only [exprMeaning] at h
    obtain ⟨_, mean, _⟩ := Option.bind_eq_some_iff.1 h
    rw [keyLists]
    exact areReadable_of_exprMeanings members mean
  | .intersection [], _, _ => areReadable_nil
  | .intersection (first :: rest), _, h => by
    simp only [exprMeaning] at h
    obtain ⟨_, means, h⟩ := Option.bind_eq_some_iff.1 h
    rw [keyLists, keyListsOfEach]
    exact areReadable_append_iff.2 ⟨areReadable_of_exprMeaning first means,
      areReadable_of_intersectionMeaning rest h⟩
  | .reference name [], _, _ => by
    unfold keyLists
    exact areReadable_nil
  | .reference name [operand], _, h => by
    have inside {term : NamedTerm} (means : glossary.exprMeaning listing operand = some term) :
        AreReadable (keyLists (.reference name [operand])) := by
      unfold keyLists
      exact areReadable_append_iff.2 ⟨areReadable_of_exprMeaning operand means, areReadable_nil⟩
    simp only [exprMeaning] at h
    split at h
    next =>
      obtain ⟨_, means, _⟩ := Option.bind_eq_some_iff.1 h
      exact inside means
    next =>
      split at h
      next =>
        obtain ⟨_, means, _⟩ := Option.bind_eq_some_iff.1 h
        exact inside means
      next => cases h
  | .reference name [operand, keys], _, h => by
    simp only [exprMeaning] at h
    split at h
    next =>
      obtain ⟨_, means, h⟩ := Option.bind_eq_some_iff.1 h
      obtain ⟨_, _, h⟩ := Option.bind_eq_some_iff.1 h
      obtain ⟨names, is, _⟩ := Option.bind_eq_some_iff.1 h
      unfold keyLists
      exact areReadable_cons_iff.2
        ⟨by rw [is, Option.isSome_some], areReadable_of_exprMeaning operand means⟩
    next => cases h
  | .reference name (_ :: _ :: _ :: _), _, h => by
    simp only [exprMeaning] at h
    cases h

theorem areReadable_of_exprMeanings : ∀ (exprs : List TypeExpr) {terms : List NamedTerm},
    glossary.exprMeanings listing exprs = some terms → AreReadable (keyListsOfEach exprs)
  | [], _, _ => areReadable_nil
  | expr :: rest, _, h => by
    simp only [exprMeanings] at h
    obtain ⟨_, means, h⟩ := Option.bind_eq_some_iff.1 h
    obtain ⟨_, others, _⟩ := Option.bind_eq_some_iff.1 h
    rw [keyListsOfEach]
    exact areReadable_append_iff.2 ⟨areReadable_of_exprMeaning expr means,
      areReadable_of_exprMeanings rest others⟩

theorem areReadable_of_intersectionMeaning : ∀ (exprs : List TypeExpr) {base term : NamedTerm},
    glossary.intersectionMeaning listing base exprs = some term →
    AreReadable (keyListsOfEach exprs)
  | [], _, _, _ => areReadable_nil
  | expr :: rest, _, _, h => by
    simp only [intersectionMeaning] at h
    obtain ⟨_, means, h⟩ := Option.bind_eq_some_iff.1 h
    obtain ⟨_, _, h⟩ := Option.bind_eq_some_iff.1 h
    obtain ⟨_, _, h⟩ := Option.bind_eq_some_iff.1 h
    rw [keyListsOfEach]
    exact areReadable_append_iff.2 ⟨areReadable_of_exprMeaning expr means,
      areReadable_of_intersectionMeaning rest h⟩

end

mutual

/-- A value with a meaning has only key lists that are read. -/
theorem areReadable_of_valueMeaning : ∀ (value : Json) {term : NamedTerm},
    glossary.valueMeaning listing value = some term → AreReadable value.keyLists
  | .null, _, _ | .bool _, _, _ | .number _, _, _ => areReadable_nil
  | .array _, _, h => by
    unfold valueMeaning at h
    cases h
  | .string text, _, h => by
    unfold valueMeaning textMeaning at h
    unfold Json.keyLists
    cases parses : TypeExpr.parse text with
    | ok expr =>
      rw [parses] at h
      exact areReadable_of_exprMeaning expr h
    | error error => exact areReadable_nil
  | .object [(key, inner)], _, h => by
    have inside {term : NamedTerm} (h : glossary.valueMeaning listing inner = some term) :
        AreReadable (Json.keyListsOfMembers [(key, inner)]) :=
      areReadable_append_iff.2 ⟨areReadable_of_valueMeaning inner h, areReadable_nil⟩
    unfold Json.keyLists
    cases keyForm key with
    | array is =>
      subst is
      rw [valueMeaning_array] at h
      obtain ⟨_, means, _⟩ := Option.bind_eq_some_iff.1 h
      exact inside means
    | nullable is =>
      subst is
      rw [valueMeaning_nullable] at h
      obtain ⟨_, means, _⟩ := Option.bind_eq_some_iff.1 h
      exact inside means
    | union is =>
      subst is
      match inner, h with
      | .array items, h =>
        rw [valueMeaning_union] at h
        obtain ⟨_, means, _⟩ := Option.bind_eq_some_iff.1 h
        exact areReadable_append_iff.2 ⟨areReadable_of_itemMeanings items means, areReadable_nil⟩
      | .null, h | .bool _, h | .number _, h | .string _, h | .object _, h => cases h
    | unknown directive unknown =>
      rw [valueMeaning_unknown directive unknown] at h
      cases h
    | name plain =>
      rw [valueMeaning_members (plain_of_name plain inner)] at h
      obtain ⟨_, means, _⟩ := Option.bind_eq_some_iff.1 h
      exact areReadable_of_memberMeanings [(key, inner)] means
  | .object [], _, _ => areReadable_nil
  | .object (first :: second :: rest), _, h => by
    unfold Json.keyLists
    rw [valueMeaning_members (by simp)] at h
    obtain ⟨_, means, _⟩ := Option.bind_eq_some_iff.1 h
    exact areReadable_of_memberMeanings (first :: second :: rest) means

theorem areReadable_of_itemMeanings : ∀ (items : List Json) {terms : List NamedTerm},
    glossary.itemMeanings listing items = some terms → AreReadable (Json.keyListsOfItems items)
  | [], _, _ => areReadable_nil
  | item :: rest, _, h => by
    unfold itemMeanings at h
    obtain ⟨_, means, h⟩ := Option.bind_eq_some_iff.1 h
    obtain ⟨_, others, _⟩ := Option.bind_eq_some_iff.1 h
    exact areReadable_append_iff.2
      ⟨areReadable_of_valueMeaning item means, areReadable_of_itemMeanings rest others⟩

theorem areReadable_of_memberMeanings : ∀ (members : List (String × Json)) {seen : List String}
    {listed : NamedProperties}, glossary.memberMeanings listing seen members = some listed →
    AreReadable (Json.keyListsOfMembers members)
  | [], _, _, _ => areReadable_nil
  | (key, value) :: rest, _, _, h => by
    unfold memberMeanings at h
    simp only at h
    split at h
    next => cases h
    next =>
      obtain ⟨_, means, h⟩ := Option.bind_eq_some_iff.1 h
      obtain ⟨_, others, _⟩ := Option.bind_eq_some_iff.1 h
      exact areReadable_append_iff.2
        ⟨areReadable_of_valueMeaning value means, areReadable_of_memberMeanings rest others⟩

end

/-- The value of a model with a meaning has only key lists that are read. -/
theorem Means.areReadable {name : String} {term : NamedTerm} {value : Json}
    (means : glossary.Means name term) (is : glossary.valueOf name = some value) :
    AreReadable value.keyLists := by
  obtain ⟨_, is', levels, means⟩ := means
  cases is.symm.trans is'
  exact areReadable_of_valueMeaning value means

end Glossary

end ModelForms
