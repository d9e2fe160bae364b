import ModelForms.Proofs.Document.LoweringDocuments

/-!
# Circular models

A document is refused as circular when one of its models depends on itself: it is composed from
itself, or its chain of aliases comes back to a model
(`Document.exists_cycle_or_aliases_of_lower`).  There is one more reason.  The chains of aliases
are followed under a guard, and a chain that is longer than the guard allows is reported in the
same way, even if it has an end.
-/

namespace ModelForms

namespace Document

open Relation Lowering

variable {document : Document}

/-- A document that is refused as circular has a cycle of models that depend on each other, which
the model that is named leads to, or more aliases in a row than are followed, starting at that
model. -/
theorem exists_cycle_or_aliases_of_lower {name : String}
    (h : document.lower = .error (.circularComposition name)) :
    (∃ other, ReflTransGen document.glossary.DependsOn name other
        ∧ TransGen document.glossary.DependsOn other other)
      ∨ ∃ chain : List String, chain.head? = some name ∧ chain.length = Limits.modelDepth + 1
        ∧ chain.Nodup ∧ chain.IsChain document.glossary.Alias := by
  have onAlias : ∀ a b, document.glossary.Alias a b → document.glossary.DependsOn a b :=
    fun _ _ => .of_alias
  have onComposition : ∀ a b, document.glossary.ComposedFrom a b →
      document.glossary.DependsOn a b := fun _ _ => .of_composedFrom
  rcases refuses_of_lower h with refuses | ⟨_, _, impossible⟩ | ⟨_, _, impossible⟩
  · cases refuses with
    | excused excuse =>
      cases excuse with
      | circular cycle =>
        exact .inl ⟨name, .refl, TransGen.mono onComposition _ _ cycle⟩
      | unmeant proper => exact absurd rfl (proper name)
      | aliases proper => exact absurd rfl (proper name)
    | broken isBroken =>
      rcases isBroken with ⟨other, reaches, cycle⟩ | ⟨chain, head, length, links⟩
      · exact .inl ⟨other, ReflTransGen.mono onAlias _ _ reaches, TransGen.mono onAlias _ _ cycle⟩
      · by_cases distinct : chain.Nodup
        · exact .inr ⟨chain, head, length, distinct, links⟩
        · obtain ⟨other, mem, cycle⟩ := exists_cycle_of_not_nodup links distinct
          refine .inl ⟨other, ReflTransGen.mono onAlias _ _ ?_, TransGen.mono onAlias _ _ cycle⟩
          obtain ⟨rest, rfl⟩ := List.head?_eq_some_iff.1 head
          rcases List.mem_cons.1 mem with rfl | mem
          · exact .refl
          · exact (links.imp fun _ _ => ReflTransGen.single).rel_cons mem
  · cases impossible
  · cases impossible

/-- The model that a document is refused as circular for. -/
def circular? (document : Document) : Option String :=
  match document.lower with
  | .error (.circularComposition name) => some name
  | _ => none

theorem circular?_eq_some_iff {name : String} :
    document.circular? = some name ↔ document.lower = .error (.circularComposition name) := by
  unfold circular?
  split
  next circular is => rw [is, Option.some.injEq, Except.error.injEq,
    DocumentError.circularComposition.injEq]
  next other =>
    constructor
    · intro h
      cases h
    · exact fun h => absurd h (other name)

/-- A model that is composed from an alias of itself. -/
def ouroboros : Document :=
  { Document.empty with
    models := [("Snake", .string "Omit<Tail, 'x'>"), ("Tail", .string "Snake")] }

theorem exists_cycle_or_aliases_of_lower_ouroboros :
    ouroboros.lower = .error (.circularComposition "Snake")
      ∧ ((∃ other, ReflTransGen ouroboros.glossary.DependsOn "Snake" other
          ∧ TransGen ouroboros.glossary.DependsOn other other)
        ∨ ∃ chain : List String, chain.head? = some "Snake"
          ∧ chain.length = Limits.modelDepth + 1 ∧ chain.Nodup
          ∧ chain.IsChain ouroboros.glossary.Alias) := by
  have refused : ouroboros.lower = .error (.circularComposition "Snake") :=
    circular?_eq_some_iff.1 (by decide +kernel)
  exact ⟨refused, exists_cycle_or_aliases_of_lower refused⟩

/-- Models of which each is an alias of the next, up to an object at the end. -/
def nicknames : Document :=
  { Document.empty with
    models := (List.range Limits.modelDepth).map (fun i =>
        ("A" ++ toString (i + 1), .string ("A" ++ toString (i + 2))))
      ++ [("A65", .object [("a", .string "string")])] }

/-- More aliases in a row than are followed are reported as a circle, and there is none. -/
theorem nicknames_circular :
    nicknames.lower = .error (.circularComposition "A1")
      ∧ ∀ name, ¬ TransGen nicknames.glossary.DependsOn name name := by
  have ⟨refused, onwards⟩ : nicknames.circular? = some "A1" ∧ ∀ model ∈ nicknames.models,
      (∃ other ∈ Glossary.nameOf? model.2,
        nicknames.models.keys.idxOf model.1 < nicknames.models.keys.idxOf other)
      ∨ model.1 = "A65" := by
    decide +kernel
  refine ⟨circular?_eq_some_iff.1 refused, fun name cycle => ?_⟩
  have forward {name target : String} (h : nicknames.glossary.DependsOn name target) :
      nicknames.models.keys.idxOf name < nicknames.models.keys.idxOf target := by
    obtain ⟨value, is⟩ : ∃ value, nicknames.glossary.valueOf name = some value := by
      rcases h with ⟨value, is, _⟩ | ⟨value, is, _⟩ <;> exact ⟨value, is⟩
    rcases onwards (name, value) (Entries.mem_of_lookup is) with ⟨other, named, lt⟩ | last
    · exact h.eq_of_name is named ▸ lt
    · cases last
      have object : nicknames.glossary.valueOf "A65"
          = some (.object [("a", .string "string")]) := by rfl
      refine absurd h (Glossary.not_dependsOn_of_members object (fun key inner same => ?_) ?_)
      · cases same
        decide
      · rfl
  have lifted := cycle.lift _ fun _ _ h => forward h
  rw [transGen_eq_self] at lifted
  exact lt_irrefl _ lifted

end Document

end ModelForms
