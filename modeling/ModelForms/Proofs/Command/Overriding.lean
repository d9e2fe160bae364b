import ModelForms.Command.Rendering

/-!
# Options over documents

What the options of a run choose, the document does not.  That takes two things.  The types come
from the leaf types and the models of the document alone, and where the options choose, what the
document chooses is not read from what was lowered (`Rendering.ofLowered_congr`).

But lowering decodes the hints and the mode of the document before the options are looked at.  A
document whose hints or mode do not decode is refused for that, also where the options choose others
(`Rendering.not_forall_ofSource_eq`).  So under options that choose everything, what a document
chooses counts by its problem and by nothing else (`Rendering.ofSource_eq_ofLowering`).
-/

namespace ModelForms

/-- The options choose everything that a document may choose. -/
structure Options.Complete (options : Options) : Prop where
  root : options.root.isSome
  mode : options.mode.isSome
  hints : options.hints.isSome

namespace Document

/-- The problem with what a document chooses: with its hints, or else with its mode. -/
def undecoded? (document : Document) : Option Diagnostic :=
  match document.hint, document.modeChoice with
  | .error error, _ => some (DocumentError.invalidHint error).diagnostic
  | .ok _, .error error => some (DocumentError.mode error).diagnostic
  | .ok _, .ok _ => none

/-- Two documents declare the same and differ only in what they choose. -/
structure SameTypes (document other : Document) : Prop where
  leaves : document.leaves = other.leaves
  models : document.models = other.models

end Document

namespace Rendering

variable {source other : String} {document document' : Document} {options : Options}
  {value : Option Json}

theorem ofSource_eq (parsed : Document.parse source = .ok document) :
    ofSource source options value =
      (Document.lower { document with
        leaves := Options.addNew document.leaves options.leaves }).mapError
          DocumentError.diagnostic >>= ofLowered options value := by
  unfold ofSource
  rw [parsed]
  rfl

/-- What is chosen by the options is not taken from the document. -/
theorem ofLowered_congr (complete : options.Complete) {lowered lowered' : Lowered}
    (catalog : lowered.catalog = lowered'.catalog) (models : lowered.models = lowered'.models) :
    ofLowered options value lowered = ofLowered options value lowered' := by
  obtain ⟨root, hroot⟩ := Option.isSome_iff_exists.1 complete.root
  obtain ⟨mode, hmode⟩ := Option.isSome_iff_exists.1 complete.mode
  obtain ⟨hints, hhints⟩ := Option.isSome_iff_exists.1 complete.hints
  have sameRoot : lowered.rootModel options.root = lowered'.rootModel options.root := by
    unfold Lowered.rootModel
    rw [hroot, models, catalog]
    rfl
  have sameMode : Rendering.mode options lowered = Rendering.mode options lowered' := by
    unfold Rendering.mode
    rw [hmode]
  have sameHints : Rendering.hints options lowered = Rendering.hints options lowered' := by
    unfold Rendering.hints
    rw [hhints]
  unfold ofLowered
  rw [sameRoot, sameMode, sameHints, catalog]

/-- What lowering leaf types and models gives, with the leaf types of the options. -/
def lowerTypes (options : Options) (leaves : List String) (models : Entries Json) :
    Except DocumentError (Entries ModelId × Entries TypeId) × LoweringState :=
  (Lowering.lowerAll ⟨Options.addNew leaves options.leaves, models, none, none, none⟩).run.run
    LoweringState.start

/-- The rendering of what was lowered from a document whose choices may have a problem. -/
def ofLowering (options : Options) (value : Option Json) (problem : Option Diagnostic) :
    Except DocumentError (Entries ModelId × Entries TypeId) × LoweringState →
      Except Diagnostic Rendering
  | (.error error, _) => .error error.diagnostic
  | (.ok (models, leaves), state) =>
      match problem with
      | some problem => .error problem
      | none => ofLowered options value ⟨state.catalog, models, leaves, .unspecified, none, none⟩

/-- Under complete options, what a document chooses counts only by its problem. -/
theorem ofSource_eq_ofLowering (parsed : Document.parse source = .ok document)
    (complete : options.Complete) :
    ofSource source options value = ofLowering options value document.undecoded?
      (lowerTypes options document.leaves document.models) := by
  have lowers : (Lowering.lowerAll { document with
        leaves := Options.addNew document.leaves options.leaves }).run.run LoweringState.start
      = lowerTypes options document.leaves document.models := rfl
  rw [ofSource_eq parsed]
  unfold Document.lower
  rw [lowers]
  obtain ⟨⟨error⟩ | ⟨models, leaves⟩, state⟩ := lowerTypes options document.leaves document.models
  · rfl
  · show (Except.mapError DocumentError.diagnostic (do
        let hints ← document.hint.mapError .invalidHint
        let mode ← document.modeChoice.mapError .mode
        return ⟨state.catalog, models, leaves, hints, mode, document.root⟩))
          >>= ofLowered options value = _
    unfold Document.undecoded?
    cases document.hint with
    | error error => rfl
    | ok hints =>
      cases document.modeChoice with
      | error error => rfl
      | ok mode => exact ofLowered_congr complete rfl rfl

/-- Two documents that declare the same are rendered alike if the options choose a root, hints and a
mode and the same is wrong, or nothing, with the hints and the mode of the documents.  A document
whose hints or mode do not decode is refused for that, unless its types are refused before, and then
both documents are refused for the same. -/
theorem ofSource_of_sameTypes (parsed : Document.parse source = .ok document)
    (parsed' : Document.parse other = .ok document') (same : document.SameTypes document')
    (complete : options.Complete) :
    (document.undecoded? = document'.undecoded? →
      ofSource source options value = ofSource other options value)
    ∧ ∀ problem, document.undecoded? = some problem →
      ofSource source options value = .error problem
        ∨ ∃ error : DocumentError, ofSource source options value = .error error.diagnostic
          ∧ ofSource other options value = .error error.diagnostic := by
  rw [ofSource_eq_ofLowering parsed complete, ofSource_eq_ofLowering parsed' complete, same.leaves,
    same.models]
  refine ⟨fun alike => by rw [alike], fun problem found => ?_⟩
  rw [found]
  obtain ⟨⟨error⟩ | ⟨models, leaves⟩, state⟩ := lowerTypes options document'.leaves document'.models
  · exact .inr ⟨error, rfl, rfl⟩
  · exact .inl rfl

/-- A document with one model, and no mode. -/
def plainSource : String := "\x7b\"models\": \x7b\"A\": \x7b\"x\": \"string\"\x7d\x7d\x7d"

@[inherit_doc plainSource]
def plain : Document := ⟨[], [("A", .object [("x", .string "string")])], none, none, none⟩

/-- The same document with a word for its mode that is no flag. -/
def wrongModeSource : String :=
  "\x7b\"models\": \x7b\"A\": \x7b\"x\": \"string\"\x7d\x7d, \"mode\": \"Sometimes\"\x7d"

@[inherit_doc wrongModeSource]
def wrongMode : Document := { plain with mode := some (.expression "Sometimes") }

/-- Options that choose everything. -/
def chosen : Options := ⟨some "A", some "NonNullable", some (.object []), .ts, [], none, none⟩

deriving instance DecidableEq for Except

theorem parse_plain : Document.parse plainSource = .ok plain := by
  decide +kernel

theorem parse_wrongMode : Document.parse wrongModeSource = .ok wrongMode := by
  decide +kernel

theorem complete_chosen : chosen.Complete := ⟨rfl, rfl, rfl⟩

theorem sameTypes_wrongMode : wrongMode.SameTypes plain := ⟨rfl, rfl⟩

theorem ofSource_of_sameTypes_wrongMode :
    (wrongMode.undecoded? = plain.undecoded? →
      ofSource wrongModeSource chosen none = ofSource plainSource chosen none)
    ∧ ∀ problem, wrongMode.undecoded? = some problem →
      ofSource wrongModeSource chosen none = .error problem
        ∨ ∃ error : DocumentError,
          ofSource wrongModeSource chosen none = .error error.diagnostic
            ∧ ofSource plainSource chosen none = .error error.diagnostic :=
  ofSource_of_sameTypes parse_wrongMode parse_plain sameTypes_wrongMode complete_chosen

/-- A mode that does not decode is reported although another is chosen. -/
theorem not_forall_ofSource_eq :
    ¬ ∀ (source other : String) (document document' : Document) (options : Options)
      (value : Option Json), Document.parse source = .ok document →
      Document.parse other = .ok document' → document.SameTypes document' → options.Complete →
      ofSource source options value = ofSource other options value := by
  intro always
  have same := always wrongModeSource plainSource wrongMode plain chosen none parse_wrongMode
    parse_plain sameTypes_wrongMode complete_chosen
  rw [ofSource_eq_ofLowering parse_wrongMode complete_chosen,
    ofSource_eq_ofLowering parse_plain complete_chosen] at same
  have refused : (ofLowering chosen none wrongMode.undecoded?
      (lowerTypes chosen wrongMode.leaves wrongMode.models)).isOk = false := by decide +kernel
  have rendered : (ofLowering chosen none plain.undecoded?
      (lowerTypes chosen plain.leaves plain.models)).isOk = true := by decide +kernel
  rw [same, rendered] at refused
  cases refused

end Rendering

end ModelForms
