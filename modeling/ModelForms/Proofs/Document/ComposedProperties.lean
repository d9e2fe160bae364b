import ModelForms.Proofs.Document.LoweringDocuments

/-!
# The properties of composed models

The properties that are read off a model of a lowered document are those that the model lists by
the meaning of names: a name stands for the properties of its model, `Partial` marks each of them
as one that may be absent, `Omit` and `Pick` select some by name in their order, and `&` keeps the
places of the left operand and takes the declarations of the right one
(`Document.properties_of_lower`).

Models are lowered on demand while others are under way, and chains of aliases are followed to
their ends.  Neither shows in the result.
-/

namespace ModelForms

/-- Whether an expression composes a type from the properties of operands. -/
def TypeExpr.isComposition : TypeExpr → Bool
  | .reference name [_] => name = "Partial"
  | .reference name [_, _] => name = "Omit" || name = "Pick"
  | .intersection _ => true
  | _ => false

namespace Glossary

open Lowering

variable {glossary : Glossary} {name : String} {term : NamedTerm}

/-- Whether a value is the text of a composition. -/
def isComposition : Json → Bool
  | .string text =>
      match TypeExpr.parse text with
      | .ok expr => expr.isComposition
      | .error _ => false
  | _ => false

/-- The models of objects: they list properties themselves, or compose them, or are another name
for a model that does. -/
inductive ObjectModel (glossary : Glossary) : String → Prop
  | object {name : String} {members : List (String × Json)}
      (is : glossary.valueOf name = some (.object members))
      (plain : ∀ key inner, members = [(key, inner)] → isDirective key = false) :
      ObjectModel glossary name
  | composition {name : String} {value : Json} (is : glossary.valueOf name = some value)
      (composes : isComposition value = true) : ObjectModel glossary name
  | other {name other : String} {value : Json} (is : glossary.valueOf name = some value)
      (named : nameOf? value = some other) (object : ObjectModel glossary other) :
      ObjectModel glossary name

/-- What several operands of `&` mean is an object. -/
theorem exists_object_of_intersectionMeans {expr : TypeExpr} {rest : List TypeExpr}
    {base : NamedTerm} (h : glossary.IntersectionMeans base (expr :: rest) term) :
    ∃ properties, term = .object properties := by
  induction rest generalizing expr base with
  | nil =>
    obtain ⟨_, _, merged, yields, means⟩ := intersectionMeans_cons_iff.1 h
    obtain ⟨_, _, _, _, rfl⟩ := yields_mergedMeaning_iff.1 yields
    exact ⟨_, intersectionMeans_nil_iff.1 means⟩
  | cons second rest ih =>
    obtain ⟨_, _, _, _, means⟩ := intersectionMeans_cons_iff.1 h
    exact ih means

/-- What a composition means is an object. -/
theorem exists_object_of_isComposition : ∀ {expr : TypeExpr}, expr.isComposition = true →
    Grammar.Proper expr → glossary.ExprMeans expr term → ∃ properties, term = .object properties
  | .reference name [operand], composes, _, h => by
    have is : name = "Partial" := by simpa [TypeExpr.isComposition] using composes
    subst is
    obtain ⟨_, _, yields⟩ := exprMeans_Partial_iff.1 h
    obtain ⟨_, _, rfl⟩ := yields_composedMeaning_iff.1 yields
    exact ⟨_, rfl⟩
  | .reference name [operand, keys], composes, _, h => by
    obtain ⟨_, _, yields⟩ := (exprMeans_selection_iff composes).1 h
    obtain ⟨_, _, yields⟩ := yields_selectionMeaning_iff.1 yields
    obtain ⟨_, _, rfl⟩ := yields_composedMeaning_iff.1 yields
    exact ⟨_, rfl⟩
  | .intersection [], _, proper, _ | .intersection [_], _, proper, _ => by
    cases proper with
    | intersection several => simp at several
  | .intersection (first :: second :: rest), _, _, h => by
    obtain ⟨_, _, means⟩ := exprMeans_intersection_iff.1 h
    exact exists_object_of_intersectionMeans means

theorem exists_object_of_valueMeans {value : Json} (composes : isComposition value = true)
    (h : glossary.ValueMeans value term) : ∃ properties, term = .object properties := by
  unfold isComposition at composes
  split at composes
  next text =>
    split at composes
    next expr parses =>
      obtain ⟨_, parses', means⟩ := valueMeans_text_iff.1 h
      cases parses.symm.trans parses'
      exact exists_object_of_isComposition composes (TypeExpr.proper_of_parse parses) means
    next => cases composes
  next => cases composes

/-- The value of a model that is another's name means a reference to it. -/
theorem Means.eq_reference_of_nameOf? {value : Json} {other : String}
    (means : glossary.Means name term) (is : glossary.valueOf name = some value)
    (named : nameOf? value = some other) (known : (glossary.valueOf other).isSome = true) :
    term = .reference other := by
  obtain ⟨text, rfl, parses⟩ := eq_of_nameOf? named
  obtain ⟨_, is', means⟩ := means
  cases is.symm.trans is'
  obtain ⟨_, parses', means⟩ := valueMeans_text_iff.1 means
  cases parses.symm.trans parses'
  have means := exprMeans_name_iff.1 means
  unfold nameMeaning at means
  rw [if_pos known] at means
  split at means
  next => cases means
  next =>
    cases means
    rfl

/-- Models of objects list properties where all models have a meaning. -/
theorem ObjectModel.exists_lists (object : glossary.ObjectModel name)
    (meaningful : ∀ name, (glossary.valueOf name).isSome = true →
      ∃ term, glossary.Means name term) :
    ∃ properties, glossary.Lists name properties := by
  induction object with
  | @object name members is plain =>
    obtain ⟨term, means⟩ := meaningful name (by rw [is]; rfl)
    obtain ⟨_, is', inner⟩ := id means
    cases is.symm.trans is'
    obtain ⟨properties, _, rfl⟩ := (valueMeans_members_iff plain).1 inner
    exact ⟨properties, lists_iff.2 ⟨_, means, hasProperties_object_iff.2 rfl⟩⟩
  | @composition name value is composes =>
    obtain ⟨term, means⟩ := meaningful name (by rw [is]; rfl)
    obtain ⟨_, is', inner⟩ := id means
    cases is.symm.trans is'
    obtain ⟨properties, rfl⟩ := exists_object_of_valueMeans composes inner
    exact ⟨properties, lists_iff.2 ⟨_, means, hasProperties_object_iff.2 rfl⟩⟩
  | @other name other value is named _ ih =>
    obtain ⟨term, means⟩ := meaningful name (by rw [is]; rfl)
    obtain ⟨properties, lists⟩ := ih
    obtain ⟨_, ⟨_, known, _⟩, _⟩ := lists_iff.1 lists
    have same := means.eq_reference_of_nameOf? is named (by rw [known]; rfl)
    exact ⟨properties, lists_iff.2 ⟨_, same ▸ means, hasProperties_reference_iff.2 lists⟩⟩

end Glossary

namespace Document

variable {document : Document} {lowered : Lowered}

/-- The properties of a model of a lowered document are those that it lists by name, wherever its
operands are declared and whatever names they go by.  A model of objects has some. -/
theorem properties_of_lower (h : document.lower = .ok lowered) {name : String}
    (declared : name ∈ document.models.keys) :
    ∃ root, lowered.rootModel (some name) = .ok root
      ∧ (∀ listed, document.glossary.Lists name listed
        ↔ ∃ properties, lowered.catalog.properties? root = some properties
          ∧ listed = properties.map lowered.catalog.namedProperty)
      ∧ (document.glossary.ObjectModel name →
        ∃ properties, lowered.catalog.properties? root = some properties) := by
  obtain ⟨complete, keys⟩ := complete_of_lower h
  obtain ⟨_, ground, state, glossary, faithful, catalog⟩ := faithful_of_lower h
  obtain ⟨definition, _, found, _⟩ := exists_body_of_lower h declared
  obtain ⟨root, chosen, reference⟩ := Lowered.exists_reference complete found
  obtain ⟨target, resolves⟩ := complete.unbroken root
  have listed_iff (listed : NamedProperties) : document.glossary.Lists name listed
      ↔ ∃ properties, lowered.catalog.properties? root = some properties
        ∧ listed = properties.map lowered.catalog.namedProperty := by
    have named := complete.find?_of_lookup found
    rw [← catalog] at resolves named reference ⊢
    rw [← faithful.hasProperties_iff_of_resolve (TypeTable.knows_of_lookup reference) resolves,
      faithful.namedTerm_reference (TypeTable.referenced?_eq_some_iff.2 reference), glossary,
      Glossary.hasProperties_reference_iff, faithful.nameOf_of_find? named]
  refine ⟨root, chosen, listed_iff, fun object => ?_⟩
  obtain ⟨listed, lists⟩ := object.exists_lists fun other known =>
    exists_means_of_lower h (Entries.hasKey_iff.1 known)
  obtain ⟨properties, reads, _⟩ := (listed_iff listed).1 lists
  exact ⟨properties, reads⟩

/-- Compositions of models that are declared later, one of them under another name. -/
def accounts : Document :=
  { Document.empty with
    models := [("Patch", .string "Partial<Omit<User, 'id'>>"),
      ("Named", .string "Pick<Owner, 'name'> & Nick"),
      ("Owner", .string "User"),
      ("User", .object [("id", .string "number"), ("name", .string "string")]),
      ("Nick", .object [("nickname", .string "string"), ("name", .string "string | null")])] }

theorem properties_of_lower_accounts :
    "Named" ∈ accounts.models.keys ∧ ∃ lowered, accounts.lower = .ok lowered
      ∧ ∃ root, lowered.rootModel (some "Named") = .ok root
        ∧ (∀ listed, accounts.glossary.Lists "Named" listed
          ↔ ∃ properties, lowered.catalog.properties? root = some properties
            ∧ listed = properties.map lowered.catalog.namedProperty)
        ∧ ∃ properties, lowered.catalog.properties? root = some properties := by
  have declared : "Named" ∈ accounts.models.keys := by decide
  have lowers : accounts.lower.toOption.isSome = true := by decide +kernel
  refine ⟨declared, ?_⟩
  cases h : accounts.lower with
  | error error =>
    rw [h] at lowers
    cases lowers
  | ok lowered =>
    obtain ⟨root, chosen, listed_iff, exists_of_object⟩ := properties_of_lower h declared
    refine ⟨lowered, rfl, root, chosen, listed_iff, exists_of_object ?_⟩
    exact .composition rfl (by decide +kernel)

example : (accounts.lower.toOption.bind fun lowered =>
    (lowered.rootModel (some "Named")).toOption.bind fun root =>
      (lowered.catalog.properties? root).map (List.map Property.name))
    = some ["name", "nickname"] := by
  decide +kernel

end Document

end ModelForms
