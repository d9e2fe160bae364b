import ModelForms.Proofs.Document.Lowered
import ModelForms.Proofs.Tree.ModeIndependence
import ModelForms.Proofs.Tree.Refusals
import ModelForms.Proofs.Types.Restoring

/-!
# Resolving the models of a document

When a document is lowered, each of its models has a body, and whatever is mentioned in a body, or
in the body of a model that is mentioned, is there: the types have entries, and the references are
to models of the document (`Document.resolves_of_lower`).  A reference may be another model's name,
and so on, but in the end there is a type that is no reference.

So no form over a model of the document fails for a model that is missing.  A derivation gives that
reason only where the shape of a declared type is a broken reference.  Setting `null` and
`undefined` aside may bring a reference to light that a union has hidden, but every reference is
one to a model of the document, hidden or not.
-/

namespace ModelForms

namespace Catalog

/-- A type mentions another: in its entry, in the body of a model that it refers to, and so on. -/
inductive Mentions (catalog : Catalog) (id : TypeId) : TypeId → Prop
  | here : Mentions catalog id id
  | part {other part : TypeId} {entry : TypeEntry} (above : Mentions catalog id other)
      (found : catalog.types.lookup other = some entry) (mem : part ∈ entry.parts) :
      Mentions catalog id part
  | body {other body : TypeId} {definition : ModelId} (above : Mentions catalog id other)
      (reference : catalog.types.referenced? other = some definition)
      (defined : catalog.models.body? definition = some body) : Mentions catalog id body

variable {catalog : Catalog} {id other : TypeId} {definition : ModelId}

/-- What a known type mentions is known. -/
theorem Mentions.knows (wf : catalog.WellFormed) (known : catalog.types.Knows id)
    (mentions : catalog.Mentions id other) : catalog.types.Knows other := by
  induction mentions with
  | here => exact known
  | part _ found mem _ => exact wf.types.knows_part found mem
  | body _ _ defined _ => exact wf.bodies _ _ defined

/-- A model at which a chain does not break has a body. -/
theorem Ends.exists_body (ends : catalog.Ends definition) :
    ∃ body, catalog.models.body? definition = some body := by
  obtain ⟨id, target, found, resolves⟩ := ends
  have reference := TypeTable.referenced?_eq_some_iff.2 found
  cases leadsTo_of_resolve resolves with
  | here =>
    rw [referenced?_of_resolve resolves] at reference
    cases reference
  | @onwards _ body _ other reference' defined _ =>
    rw [reference] at reference'
    cases reference'
    exact ⟨body, defined⟩

namespace Complete

variable {models : Entries ModelId} (complete : catalog.Complete models)

include complete

theorem find?_of_lookup {name : String} (found : models.lookup name = some definition) :
    catalog.models.find? name = some definition :=
  complete.names _ (Entries.mem_of_lookup found)

theorem ends_of_lookup {name : String} (found : models.lookup name = some definition) :
    catalog.Ends definition :=
  complete.ends _ (Entries.mem_of_lookup found)

/-- Every model that is reserved has a body. -/
theorem exists_body (reserved : catalog.models.contains definition = true) :
    ∃ body, catalog.models.body? definition = some body := by
  obtain ⟨model, mem, rfl⟩ := (complete.handles definition).1 reserved
  exact (complete.ends model mem).exists_body

/-- A model is looked up under its name. -/
theorem lookup_of_mem {model : String × ModelId} (mem : model ∈ models) :
    models.lookup model.1 = some model.2 := by
  cases found : models.lookup model.1 with
  | none =>
    have absent := Entries.lookup_eq_none_iff.1 found
    exact absurd (List.mem_map_of_mem mem) absent
  | some definition =>
    have same := complete.find?_of_lookup found
    rw [complete.names model mem] at same
    exact same.symm

/-- Every reference is one to a model with a name, and its chain ends at what is no reference. -/
theorem resolves_reference (reference : catalog.types.referenced? id = some definition) :
    (∃ name ∈ models.keys, models.lookup name = some definition
        ∧ catalog.models.name? definition = some name)
      ∧ ∃ target, catalog.resolve id = .ok target
        ∧ catalog.types.referenced? target = none := by
  have entry := TypeTable.mem_entries_of_lookup (TypeTable.referenced?_eq_some_iff.1 reference)
    (by simp)
  obtain ⟨model, hmodel, rfl⟩ := (complete.handles _).1 (complete.closed.reserved _ entry)
  refine ⟨⟨model.1, List.mem_map_of_mem hmodel, complete.lookup_of_mem hmodel,
    Definitions.name?_eq_some_of_find? (complete.names model hmodel)⟩, ?_⟩
  obtain ⟨target, resolves⟩ := complete.unbroken id
  exact ⟨target, resolves, referenced?_of_resolve resolves⟩

end Complete

end Catalog

namespace DerivedForm

variable {catalog : Catalog} {mode : Mode} {hint : Hint} {model : TypeId} {name : String}
  {path : FieldPath}

theorem checkRoot_ne_unresolvedModel (unbroken : catalog.Unbroken) :
    checkRoot catalog hint model ≠ .error (.unresolvedModel name path) := by
  have resolved := unbroken.classify_ne_unresolved model
  unfold checkRoot
  split
  next => nofun
  next => nofun
  next =>
    split
    next => nofun
    next definition broken => exact absurd broken (resolved definition)
    next => nofun

/-- Where no chain of aliases is broken, no form is refused for a model that is missing, and none is
in any later table. -/
theorem derive_ne_unresolvedModel (wf : catalog.WellFormed) (unbroken : catalog.Unbroken)
    (known : catalog.types.Knows model) {later : TypeTable}
    (grown : Catalog.Over catalog.models catalog.types later) :
    (derive catalog.models mode hint model later).1 ≠ .error (.unresolvedModel name path) := by
  intro refused
  have same := @map_skeleton_eq_of_over _ _ _ hint _ wf grown known mode mode
  rw [refused] at same
  cases derives : derive catalog.models mode hint model catalog.types with
  | mk outcome after =>
  rw [derives] at same
  cases outcome with
  | ok tree => cases same
  | error error =>
    cases same
    rcases refuses_of_derive wf derives with atRoot | ⟨_, refuses⟩
    · exact checkRoot_ne_unresolvedModel unbroken atRoot
    · generalize reason : DerivationError.unresolvedModel name path = error at refuses
      cases refuses with
      | @unresolved _ declared _ definition _ shape =>
        exact unbroken.shape_ne_unresolved declared definition shape
      | _ => cases reason

end DerivedForm

namespace Lowered

/-- A model of a document is a root, and the table has the reference to it already. -/
theorem exists_reference {lowered : Lowered} (complete : lowered.catalog.Complete lowered.models)
    {name : String} {definition : ModelId} (found : lowered.models.lookup name = some definition) :
    ∃ root, lowered.rootModel (some name) = .ok root
      ∧ lowered.catalog.types.lookup root = some (.reference definition) := by
  obtain ⟨id, _, reference, _⟩ := complete.ends_of_lookup found
  refine ⟨id, ?_, reference⟩
  have chosen : lowered.rootModel (some name)
      = .ok (Interning.reference definition lowered.catalog.types).1 := by
    have named : (Document.chooseRoot (some name) lowered.root lowered.models.keys).mapError
        DocumentError.missingRoot = .ok name := rfl
    simp only [Lowered.rootModel, named, bind, Except.bind, found]
    rfl
  rw [chosen, Interning.reference,
    complete.closed.wellFormed.types.intern_eq reference (by simp)]

theorem exists_rootModel {lowered : Lowered} (complete : lowered.catalog.Complete lowered.models)
    {name : String} {definition : ModelId} (found : lowered.models.lookup name = some definition) :
    ∃ root, lowered.rootModel (some name) = .ok root ∧ lowered.catalog.types.Knows root := by
  obtain ⟨root, chosen, reference⟩ := exists_reference complete found
  exact ⟨root, chosen, TypeTable.knows_of_lookup reference⟩

end Lowered

namespace Document

/-- When a document is lowered, each of its models has a body.  All that is mentioned from there on
is known, and each reference among it is to a model of the document and resolves to a type that is
no reference.  So no form over a model is refused because a model is missing, whatever else has been
added to the types by then. -/
theorem resolves_of_lower {document : Document} {lowered : Lowered}
    (h : document.lower = .ok lowered) :
    (∀ name ∈ document.models.keys, ∃ definition body,
        lowered.models.lookup name = some definition
          ∧ lowered.catalog.models.body? definition = some body
          ∧ ∀ id, lowered.catalog.Mentions body id → lowered.catalog.types.Knows id
            ∧ ∀ other, lowered.catalog.types.referenced? id = some other →
              (∃ named ∈ document.models.keys, lowered.models.lookup named = some other
                  ∧ lowered.catalog.models.name? other = some named)
                ∧ ∃ target, lowered.catalog.resolve id = .ok target
                  ∧ lowered.catalog.types.referenced? target = none)
      ∧ ∀ name ∈ document.models.keys, ∃ root, lowered.rootModel (some name) = .ok root
        ∧ ∀ types, Catalog.Over lowered.catalog.models lowered.catalog.types types →
          ∀ mode hint missing path,
            (DerivedForm.derive lowered.catalog.models mode hint root types).1
              ≠ .error (.unresolvedModel missing path) := by
  obtain ⟨complete, keys⟩ := complete_of_lower h
  have wf := complete.closed.wellFormed
  rw [← keys]
  have handle {name : String} (declared : name ∈ lowered.models.keys) :
      ∃ definition, lowered.models.lookup name = some definition := by
    obtain ⟨model, hmodel, rfl⟩ := List.mem_map.1 declared
    exact ⟨model.2, complete.lookup_of_mem hmodel⟩
  constructor
  · intro name declared
    obtain ⟨definition, found⟩ := handle declared
    obtain ⟨body, defined⟩ := (complete.ends_of_lookup found).exists_body
    refine ⟨definition, body, found, defined, fun id mentions => ⟨?_, fun other reference => ?_⟩⟩
    · exact mentions.knows wf (wf.bodies definition body defined)
    · exact complete.resolves_reference reference
  · intro name declared
    obtain ⟨definition, found⟩ := handle declared
    obtain ⟨root, chosen, known⟩ := Lowered.exists_rootModel complete found
    exact ⟨root, chosen, fun types grown mode hint missing path =>
      DerivedForm.derive_ne_unresolvedModel wf complete.unbroken known grown⟩

/-- Two models that refer to each other, one of them before it is there. -/
def household : Document where
  leaves := []
  models := [("Home", .object [("owner", .string "Person | null")]),
    ("Person", .object [("home?", .string "Home")])]
  root := none
  hints := none
  mode := none

theorem resolves_of_lower_household :
    ∃ lowered, household.lower = .ok lowered
      ∧ ∃ root, lowered.rootModel (some "Home") = .ok root
        ∧ ∀ missing path, (DerivedForm.derive lowered.catalog.models ⟨.never, .never⟩ .unspecified
            root lowered.catalog.types).1 ≠ .error (.unresolvedModel missing path) := by
  have lowers : household.lower.toOption.isSome = true := by decide +kernel
  cases h : household.lower with
  | error error =>
    rw [h] at lowers
    cases lowers
  | ok lowered =>
    obtain ⟨root, chosen, resolves⟩ := (resolves_of_lower h).2 "Home" (by decide)
    have wf := (closed_of_lower h).1.wellFormed
    exact ⟨lowered, rfl, root, chosen, fun missing path =>
      resolves lowered.catalog.types ⟨wf, .refl _⟩ _ _ missing path⟩

end Document

end ModelForms
