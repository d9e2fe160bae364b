import ModelForms.Proofs.Document.OrderOfModels
import ModelForms.Proofs.Document.ScheduledLowering

/-!
# Which documents are lowered

A document is lowered exactly if its names are apart, each of its models has a meaning, there are
neither too many aliases in a row nor too many models, its schedule has an end, and its hints and
its mode can be read (`Document.exists_lower_iff`).  All of these are told by what the names of the
document stand for, with no run of the lowering.  Only the schedule depends on the order of the
models.
-/

namespace ModelForms

namespace Lowering

open Relation

variable {ground : Groundwork} {values : Entries Json}

/-- Defining a model by name is one step of the schedule. -/
theorem schedules_ensureModel
    (same : ∀ name, ground.glossary.valueOf name = values.lookup name)
    (short : ¬ ground.glossary.HasLongAliases) (few : ¬ ground.glossary.IsCrowded)
    (acyclic : ∀ name, ¬ TransGen ground.glossary.ComposedFrom name name) :
    ∀ (levels : Nat) {keys : List ModelId}, Limits.modelDepth ≤ levels + keys.length →
      Schedules ground (ensureModel values ground.leaves levels)
        (finish ground.glossary.requirementsOf (Limits.modelDepth - keys.length)) keys
        (ground.Next keys)
  | 0, keys, enough =>
    schedules_ensureModelStep same short few acyclic (fun _ room => by omega) fun _ room => by omega
  | levels + 1, keys, enough => by
    have enough (definition : ModelId) :
        Limits.modelDepth ≤ levels + (definition :: keys).length := by
      rw [List.length_cons]
      omega
    exact schedules_ensureModelStep same short few acyclic
      (fun definition _ => defines_ensureModel same levels (enough definition))
      fun definition _ => schedules_ensureModel same short few acyclic levels (enough definition)

/-- Defining models one after another follows the schedule of their names. -/
theorem follows_ensureModels {ensureModel : String → Lowering Unit}
    {step : List String → String → Option (List String)}
    (defines : Defines ground ensureModel [] (ground.Next []))
    (schedules : Schedules ground ensureModel step [] (ground.Next [])) (names : List String)
    {before : LoweringState} {done : List String} (faithful : before.Faithful ground)
    (idle : before.underway.keys = []) (known : ∀ name ∈ names, name ∈ ground.reserved.names)
    (finished : before.Finished ground done) :
    Follows ground (names.forM ensureModel) before (names.foldlM step done) := by
  induction names generalizing before done with
  | nil => exact follows_pure finished
  | cons name rest ih =>
    obtain ⟨knownFirst, known⟩ := List.forall_mem_cons.1 known
    rw [List.foldlM_cons]
    refine Follows.bind (defines name before faithful idle fun _ h => by cases h)
      (schedules name before done faithful idle (fun _ h => by cases h) knownFirst finished) ?_
    rintro _ middle done ⟨advances, _⟩ finished
    exact ih advances.faithful (advances.keys.trans idle) known finished

end Lowering

namespace Document

open Relation Lowering

variable {document : Document}

/-- Where names, meanings and sizes are no obstacle, the models are defined if their schedule has an
end, and too many are under way only if it has none. -/
theorem follows_lowerAll (short : ¬ document.glossary.HasLongAliases)
    (few : ¬ document.glossary.IsCrowded)
    (acyclic : ∀ name, ¬ TransGen document.glossary.ComposedFrom name name) :
    Settles (lowerAll document) .start (fun _ _ => ∃ done, document.schedule = some done)
      fun error => IsTooDeep error → document.schedule = none := by
  refine settles_lowerAll_of document (fun name _ deep => by simp [IsTooDeep] at deep)
    fun ground state declares => ?_
  have same (name : String) : ground.glossary.valueOf name = document.models.lookup name := by
    rw [declares.glossary]
    rfl
  have finished : state.Finished ground [] := by
    intro definition name _
    simp [Definitions.isDefined, declares.undefined]
  have scheduled := follows_ensureModels
    (defines_ensureModel same WalkKind.aliases.maxDepth (Nat.le_add_right _ _))
    (schedules_ensureModel same (declares.glossary ▸ short) (declares.glossary ▸ few)
      (declares.glossary ▸ acyclic) WalkKind.aliases.maxDepth (Nat.le_add_right _ _))
    document.models.keys declares.faithful declares.idle
    (fun name mem => declares.mem_names_iff.2 mem) finished
  rw [declares.glossary] at scheduled
  refine ((settles_ensureModels (defines_ensureModel same _ (Nat.le_add_right _ _))
    document.models.keys declares.faithful declares.idle).and scheduled).bind
      (fun _ h => h.2) ?_
  rintro _ third ⟨⟨advances, defined⟩, done, is, _⟩
  refine (declares.settles_checkModels advances defined).bind ?_ ?_
  · rintro _ ⟨name, rfl, _⟩ deep
    simp [IsTooDeep] at deep
  · exact fun _ _ _ => settles_pure ⟨done, is⟩

/-- Everything that a document needs to be lowered. -/
structure Lowerable (document : Document) : Prop where
  namesApart : document.NamesApart
  meaningful : ∀ name ∈ document.models.keys, ∃ term, document.glossary.Means name term
  short : ¬ document.glossary.HasLongAliases
  few : ¬ document.glossary.IsCrowded
  scheduled : ∃ done, document.schedule = some done
  hints : ∃ hints, document.hint = .ok hints
  mode : ∃ mode, document.modeChoice = .ok mode

/-- Models with meanings are not composed from themselves. -/
theorem not_transGen_of_meaningful
    (meaningful : ∀ name ∈ document.models.keys, ∃ term, document.glossary.Means name term)
    (name : String) : ¬ TransGen document.glossary.ComposedFrom name name := by
  intro cycle
  obtain ⟨_, ⟨value, is, _⟩, _⟩ := TransGen.head'_iff.1 cycle
  obtain ⟨term, means⟩ := meaningful name (Entries.mem_keys_of_lookup is)
  exact Glossary.not_transGen_composedFrom means cycle

theorem lowerable_of_lower {lowered : Lowered} (h : document.lower = .ok lowered) :
    document.Lowerable := by
  have meaningful : ∀ name ∈ document.models.keys, ∃ term, document.glossary.Means name term :=
    fun name declared => exists_means_of_lower h declared
  have short := not_hasLongAliases_of_lower h
  have few := not_isCrowded_of_lower h
  obtain ⟨_, gives, _, hints, mode⟩ := gives_of_lower h
  exact {
    namesApart := (faithful_of_lower h).1
    meaningful := meaningful
    short := short
    few := few
    scheduled :=
      (follows_lowerAll short few (not_transGen_of_meaningful meaningful)).of_gives gives
    hints := ⟨_, hints⟩
    mode := ⟨_, mode⟩ }

/-- A document that has everything it needs is not refused. -/
theorem Lowerable.not_refused (lowerable : document.Lowerable) {error : DocumentError} :
    document.lower ≠ .error error := by
  intro h
  have acyclic := not_transGen_of_meaningful lowerable.meaningful
  obtain ⟨_, hints⟩ := lowerable.hints
  obtain ⟨_, mode⟩ := lowerable.mode
  obtain ⟨done, scheduled⟩ := lowerable.scheduled
  rcases fails_of_lower h with ⟨after, run⟩ | ⟨_, invalid, _⟩ | ⟨_, invalid, _⟩
  · have deep := (follows_lowerAll lowerable.short lowerable.few acyclic).of_fails run
    cases (settles_lowerAll document).of_fails run with
    | name clash => exact clash.not_namesApart lowerable.namesApart
    | broken isBroken =>
      rcases isBroken with ⟨_, _, cycle⟩ | ⟨chain, _, length, aliases⟩
      · exact lowerable.short (Glossary.hasLongAliases_of_cycle cycle)
      · exact lowerable.short ⟨chain, length, aliases⟩
    | excused excuse =>
      cases excuse with
      | circular cycle => exact acyclic _ cycle
      | aliases _ long => exact lowerable.short long
      | deep => cases scheduled.symm.trans (deep ⟨_, rfl⟩)
      | @unmeant _ name value _ is none =>
        obtain ⟨term, _, is', means⟩ := lowerable.meaningful name (Entries.mem_keys_of_lookup is)
        cases is.symm.trans is'
        exact none term means
  · cases hints.symm.trans invalid
  · cases mode.symm.trans invalid

/-- A document is lowered exactly if it has everything that it needs. -/
theorem exists_lower_iff : (∃ lowered, document.lower = .ok lowered) ↔ document.Lowerable := by
  refine ⟨fun ⟨_, h⟩ => lowerable_of_lower h, fun lowerable => ?_⟩
  cases h : document.lower with
  | ok lowered => exact ⟨lowered, rfl⟩
  | error error => exact absurd h lowerable.not_refused

end Document

end ModelForms
