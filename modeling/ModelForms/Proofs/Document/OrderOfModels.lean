import ModelForms.Proofs.Document.LoweringDocuments
import ModelForms.Proofs.Entries

/-!
# The order of models

What the models of a document mean does not depend on their order, and a lowered document is
faithful to it.  So where two orders of the same models are lowered, the bodies of each model have
the same structure.

An order that is lowered rules out what another order could be refused for, with one exception.
How many models are under way at the same time does depend on the order: if the first model is
composed from the second, the second from the third, and so on, all of them are under way before
the last one is lowered, while in the opposite order each model is finished before the next one is
entered.
-/

namespace ModelForms

namespace Entries

variable {α : Type} {entries others : Entries α}

/-- The order of entries has no part in a look-up if their keys are distinct. -/
theorem lookup_eq_of_perm (distinct : entries.keys.Nodup) (perm : entries.Perm others)
    (key : String) : entries.lookup key = others.lookup key := by
  have distinct' : others.keys.Nodup := (perm.map Prod.fst).nodup_iff.1 distinct
  refine Option.ext fun value => ⟨fun h => ?_, fun h => ?_⟩
  · exact lookup_of_mem distinct' (perm.mem_iff.1 (mem_of_lookup h))
  · exact lookup_of_mem distinct (perm.mem_iff.2 (mem_of_lookup h))

end Entries

namespace LoweringState

open Relation

variable {state : LoweringState} {ground : Groundwork}

/-- Models of which each is an alias of the next by name are linked. -/
theorem Faithful.exists_links (faithful : state.Faithful ground)
    (defined : ∀ definition, state.catalog.models.contains definition = true →
      ∃ body, state.catalog.models.body? definition = some body) :
    ∀ (rest : List String) {definition : ModelId},
      state.catalog.models.contains definition = true →
      (ground.nameOf definition :: rest).IsChain ground.glossary.Alias →
      ∃ others : List ModelId, others.length = rest.length
        ∧ (definition :: others).IsChain state.catalog.Links
  | [], _, _, _ => ⟨[], rfl, .singleton _⟩
  | target :: rest, definition, reserved, aliases => by
    obtain ⟨first, aliases⟩ := List.isChain_cons_cons.1 aliases
    obtain ⟨body, is⟩ := defined definition reserved
    have known := faithful.closed.wellFormed.bodies definition body is
    have term := (faithful.bodies definition body is).unique first
    obtain ⟨other, reference⟩ := faithful.exists_referenced? known term
    rw [faithful.namedTerm_reference reference] at term
    cases term
    obtain ⟨others, length, links⟩ := faithful.exists_links defined rest
      (faithful.contains_of_referenced? reference) aliases
    exact ⟨other :: others, congrArg Nat.succ length,
      List.isChain_cons_cons.2 ⟨⟨body, is, reference⟩, links⟩⟩

end LoweringState

namespace Document

open Relation Lowering

variable {document : Document} {lowered : Lowered}

/-- In a lowered document there are no more aliases in a row than are followed. -/
theorem not_hasLongAliases_of_lower (h : document.lower = .ok lowered) :
    ¬ document.glossary.HasLongAliases := by
  rintro ⟨chain, length, aliases⟩
  obtain ⟨complete, keys⟩ := complete_of_lower h
  obtain ⟨_, ground, state, glossary, faithful, catalog⟩ := faithful_of_lower h
  rw [← glossary] at aliases
  rw [← catalog] at complete
  match chain, length, aliases with
  | name :: target :: rest, length, aliases =>
    obtain ⟨value, is, _⟩ := (List.isChain_cons_cons.1 aliases).1
    have declared : name ∈ ground.reserved.names := (ground.models name).2 (by rw [is]; rfl)
    obtain ⟨definition, found⟩ := Definitions.exists_find?_of_mem (faithful.names ▸ declared)
    have called : ground.nameOf definition = name := faithful.nameOf_of_find? found
    have reserved := Definitions.contains_of_find? found
    obtain ⟨others, sameLength, links⟩ := faithful.exists_links
      (fun _ reserved => complete.exists_body reserved) (target :: rest) reserved
      (called.symm ▸ aliases)
    obtain ⟨model, mem, rfl⟩ := (complete.handles definition).1 reserved
    obtain ⟨id, end_, reference, resolves⟩ := complete.ends model mem
    have bound := Catalog.length_le_of_resolve (TypeTable.referenced?_eq_some_iff.2 reference)
      links resolves
    rw [List.length_cons, sameLength] at bound
    rw [List.length_cons] at length
    omega

/-- In a lowered document there are no more models than attempts to enter one. -/
theorem not_isCrowded_of_lower (h : document.lower = .ok lowered) :
    ¬ document.glossary.IsCrowded := by
  rintro ⟨names, distinct, known, many⟩
  obtain ⟨complete, keys⟩ := complete_of_lower h
  obtain ⟨_, ground, state, glossary, faithful, catalog⟩ := faithful_of_lower h
  rw [← glossary] at known
  rw [← catalog] at complete
  obtain ⟨finished, _, mem_iff, attempts⟩ := faithful.tracks.counted
  have subset : names ⊆ finished.map ground.nameOf := by
    intro name mem
    have reserved : name ∈ state.catalog.models.names :=
      faithful.names ▸ (ground.models name).2 (known name mem)
    obtain ⟨definition, found⟩ := Definitions.exists_find?_of_mem reserved
    refine List.mem_map.2 ⟨definition, ?_, faithful.nameOf_of_find? found⟩
    rw [mem_iff, Definitions.isDefined_iff]
    exact complete.exists_body (Definitions.contains_of_find? found)
  have bound := (distinct.subperm subset).length_le
  have few := faithful.tracks.attempts
  rw [List.length_map] at bound
  omega

/-- The names of models are apart in any order. -/
theorem NamesApart.of_perm (apart : document.NamesApart) {models : Entries Json}
    (perm : document.models.Perm models) :
    NamesApart { document with models := models } := by
  have keys : document.models.keys.Perm models.keys := perm.map Prod.fst
  exact {
    leaves := apart.leaves
    untaken := fun name mem => apart.untaken name ((keys.append_left _).mem_iff.2 mem)
    models := fun name mem => apart.models name (keys.mem_iff.2 mem) }

theorem glossary_eq_of_perm (distinct : document.models.keys.Nodup) {models : Entries Json}
    (perm : document.models.Perm models) :
    Document.glossary { document with models := models } = document.glossary := by
  unfold glossary
  simp only [Glossary.mk.injEq, and_true]
  funext name
  exact (Entries.lookup_eq_of_perm distinct perm name).symm

/-- Where one order of the models is lowered, another is refused only because too many of them would
be under way, and then there are that many models each of which is composed from the next. -/
theorem composedTooDeeply_of_perm (distinct : document.models.keys.Nodup) {models : Entries Json}
    (perm : document.models.Perm models) (h : document.lower = .ok lowered) {error : DocumentError}
    (refused : Document.lower { document with models := models } = .error error) :
    ∃ name, error = .invalidEntry (modelLocation name) .composedTooDeeply
      ∧ ∃ chain : List String, chain.length = Limits.modelDepth + 1 ∧ chain.Nodup
        ∧ chain.IsChain document.glossary.ComposedFrom := by
  have meaningful {name : String} {value : Json}
      (is : document.glossary.valueOf name = some value) :
      ∃ term, document.glossary.Means name term := by
    refine exists_means_of_lower h (Entries.hasKey_iff.1 ?_)
    rw [Entries.hasKey, show document.models.lookup name = _ from is, Option.isSome_some]
  have acyclic {name : String} : ¬ TransGen document.glossary.ComposedFrom name name := by
    intro cycle
    obtain ⟨_, ⟨value, is, _⟩, _⟩ := TransGen.head'_iff.1 cycle
    obtain ⟨term, means⟩ := meaningful is
    exact Glossary.not_transGen_composedFrom means cycle
  have short := not_hasLongAliases_of_lower h
  have glossary := glossary_eq_of_perm distinct perm
  obtain ⟨_, _, _, hints, mode⟩ := gives_of_lower h
  rcases refuses_of_lower refused with refuses | ⟨fault, invalid, _⟩ | ⟨fault, invalid, _⟩
  · cases refuses with
    | name clash => exact absurd ((faithful_of_lower h).1.of_perm perm) clash.not_namesApart
    | broken isBroken =>
      rw [glossary] at isBroken
      rcases isBroken with ⟨other, _, cycle⟩ | ⟨chain, _, length, aliases⟩
      · exact absurd (Glossary.hasLongAliases_of_cycle cycle) short
      · exact absurd ⟨chain, length, aliases⟩ short
    | excused excuse =>
      rw [glossary] at excuse
      cases excuse with
      | circular cycle => exact absurd cycle acyclic
      | aliases _ long => exact absurd long short
      | @unmeant _ name value _ is none =>
        obtain ⟨term, _, is', means⟩ := meaningful is
        cases is.symm.trans is'
        exact absurd means (none term)
      | @deep name long =>
        rcases long with ⟨chain, length, composed⟩ | crowded
        · refine ⟨name, rfl, chain, length, ?_, composed⟩
          by_contra twice
          obtain ⟨other, _, cycle⟩ := exists_cycle_of_not_nodup composed twice
          exact acyclic cycle
        · exact absurd crowded (not_isCrowded_of_lower h)
  · cases hints.symm.trans invalid
  · cases mode.symm.trans invalid

/-- Where one order of the models is lowered, any other order is lowered too and the bodies of its
models have the same structure, or it is refused because too many models would be under way: then
there are that many different models each of which is composed from the next. -/
theorem lower_of_perm (distinct : document.models.keys.Nodup) {models : Entries Json}
    (perm : document.models.Perm models) (h : document.lower = .ok lowered) :
    (∃ other, Document.lower { document with models := models } = .ok other
        ∧ ∀ name ∈ document.models.keys, ∃ term, lowered.structure? name = some term
          ∧ other.structure? name = some term)
      ∨ ∃ name, Document.lower { document with models := models }
          = .error (.invalidEntry (modelLocation name) .composedTooDeeply)
        ∧ ∃ chain : List String, chain.length = Limits.modelDepth + 1 ∧ chain.Nodup
          ∧ chain.IsChain document.glossary.ComposedFrom := by
  cases lowers : Document.lower { document with models := models } with
  | error error =>
    obtain ⟨name, rfl, chain⟩ := composedTooDeeply_of_perm distinct perm h lowers
    exact .inr ⟨name, rfl, chain⟩
  | ok other =>
    refine .inl ⟨other, rfl, fun name declared => ?_⟩
    obtain ⟨term, is, means⟩ := exists_structure?_of_lower h declared
    obtain ⟨term', is', means'⟩ :=
      exists_structure?_of_lower lowers ((perm.map Prod.fst).mem_iff.1 declared)
    rw [glossary_eq_of_perm distinct perm] at means'
    exact ⟨term, is, means.unique means' ▸ is'⟩

/-- A model before the one that it is composed from. -/
def patched : Document :=
  { Document.empty with
    models := [("Patch", .string "Partial<User>"), ("User", .object [("name", .string "string")])] }

theorem lower_of_perm_patched :
    patched.models.keys.Nodup ∧ patched.models.Perm patched.models.reverse
      ∧ ∃ lowered, patched.lower = .ok lowered
        ∧ ((∃ other, Document.lower { patched with models := patched.models.reverse } = .ok other
            ∧ ∀ name ∈ patched.models.keys, ∃ term, lowered.structure? name = some term
              ∧ other.structure? name = some term)
          ∨ ∃ name, Document.lower { patched with models := patched.models.reverse }
              = .error (.invalidEntry (modelLocation name) .composedTooDeeply)
            ∧ ∃ chain : List String, chain.length = Limits.modelDepth + 1 ∧ chain.Nodup
              ∧ chain.IsChain patched.glossary.ComposedFrom) := by
  have distinct : patched.models.keys.Nodup := by decide
  have perm : patched.models.Perm patched.models.reverse := (List.reverse_perm _).symm
  have lowers : patched.lower.toOption.isSome = true := by decide +kernel
  refine ⟨distinct, perm, ?_⟩
  cases h : patched.lower with
  | error error =>
    rw [h] at lowers
    cases lowers
  | ok lowered => exact ⟨lowered, rfl, lower_of_perm distinct perm h⟩

/-- As many models as may be under way, each composed from the next, and one more. -/
def layers : Document :=
  { Document.empty with
    models := (List.range Limits.modelDepth).map (fun i =>
        ("M" ++ toString (i + 1), .string ("Partial<M" ++ toString (i + 2) ++ ">")))
      ++ [("M65", .object [("a", .string "string")])] }

/-- Whether a document is lowered may depend on the order of its models. -/
theorem not_forall_lower_iff_of_perm :
    ¬ ∀ (document : Document) (models : Entries Json), document.models.keys.Nodup →
      document.models.Perm models →
      ((∃ lowered, document.lower = .ok lowered)
        ↔ ∃ lowered, Document.lower { document with models := models } = .ok lowered) := by
  intro same
  have distinct : layers.models.keys.Nodup := by decide +kernel
  have perm : layers.models.Perm layers.models.reverse := (List.reverse_perm _).symm
  have ⟨refused, lowers⟩ : layers.lower.toOption.isSome = false
      ∧ (Document.lower { layers with models := layers.models.reverse }).toOption.isSome
        = true := by decide +kernel
  cases h : Document.lower { layers with models := layers.models.reverse } with
  | error error =>
    rw [h] at lowers
    cases lowers
  | ok lowered =>
    obtain ⟨_, h'⟩ := (same layers layers.models.reverse distinct perm).2 ⟨lowered, h⟩
    rw [h'] at refused
    cases refused

end Document

end ModelForms
