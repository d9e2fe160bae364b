import ModelForms.Proofs.Document.CircularModels
import ModelForms.Proofs.Document.ErrorLocations

/-!
# Where errors about names point

An error about a name carries the name and no location, and its diagnostic writes the name as it is
behind the key of the models.  The entry that declares the name is a model or a leaf
(`Document.DeclaredAt`).  The diagnostic points to that entry exactly if it is a model and its name
has neither a slash nor a tilde, which a pointer writes in another way
(`Document.leads_iff_of_lower`).
-/

namespace ModelForms

namespace Location

/-! ## Names in pointers -/

/-- Undoing escapes makes a text shorter by one character for each tilde that starts one. -/
theorem length_of_unescape? {text key : List Char} (read : unescape? text = some key) :
    key.length + text.count '~' = text.length := by
  fun_induction unescape? text generalizing key with
  | case1 rest ih | case2 rest ih =>
    obtain ⟨key, below, rfl⟩ := Option.map_eq_some_iff.1 read
    have := ih below
    simp only [List.length_cons, List.count_cons_self, List.count_cons_of_ne (by decide : '1' ≠ '~'),
      List.count_cons_of_ne (by decide : '0' ≠ '~')]
    omega
  | case3 => cases read
  | case4 c rest _ _ plain ih =>
    obtain ⟨key, below, rfl⟩ := Option.map_eq_some_iff.1 read
    have := ih below
    have other : c ≠ '~' := plain
    rw [List.length_cons, List.count_cons_of_ne other, List.length_cons]
    omega
  | case5 =>
    cases read
    rfl

/-- A text is read as itself exactly if it has no tilde. -/
theorem unescape?_eq_self_iff {text : List Char} : unescape? text = some text ↔ '~' ∉ text := by
  refine ⟨fun read => ?_, fun plain => ?_⟩
  · have := length_of_unescape? read
    exact List.count_eq_zero.1 (by omega)
  · fun_induction unescape? text with
    | case1 | case2 | case3 => exact absurd List.mem_cons_self plain
    | case4 c rest _ _ _ ih =>
      rw [ih fun mem => plain (List.mem_cons_of_mem c mem), Option.map_some]
    | case5 => rfl

/-- The keys that a text behind a slash is read as. -/
def keysBehind? (text : List Char) : Option (List String) :=
  (Text.pieces (· == '/') text).mapM fun piece => (unescape? piece).map String.ofList

theorem keysOf?_models (name : String) :
    keysOf? ("/models/" ++ name) = (keysBehind? name.toList).map ("models" :: ·) := by
  have cut : Text.pieces (· == '/') ("/models/" ++ name).toList
      = [] :: "models".toList :: Text.pieces (· == '/') name.toList := by
    have first : ∀ c ∈ "models".toList, (c == '/') = false :=
      Text.plain_of_notMem (by decide)
    rw [String.toList_append]
    exact (Text.pieces_cons rfl).trans (congrArg ([] :: ·) (Text.pieces_append_cons first rfl))
  have key : (unescape? "models".toList).map String.ofList = some "models" := by rfl
  unfold keysOf?
  rw [cut]
  show ("models".toList :: Text.pieces (· == '/') name.toList).mapM _ = _
  rw [List.mapM_cons, key]
  exact (Option.map_eq_bind).symm

/-- A name is read as itself exactly if a pointer writes it as it is. -/
theorem keysBehind?_eq_self_iff {name : String} :
    keysBehind? name.toList = some [name] ↔ '/' ∉ name.toList ∧ '~' ∉ name.toList := by
  unfold keysBehind?
  by_cases slash : '/' ∈ name.toList
  · -- Behind a slash there is a second piece, so there would be a second key.
    obtain ⟨front, rest, same, absent⟩ := List.eq_append_cons_of_mem slash
    rw [same, Text.pieces_append_cons (Text.plain_of_notMem absent) rfl]
    cases more : Text.pieces (· == '/') rest with
    | nil => exact absurd more (Text.pieces_ne_nil _ _)
    | cons second others => simp [List.mapM_cons, Option.bind_eq_some_iff]
  · rw [Text.pieces_of_plain (Text.plain_of_notMem slash), ← unescape?_eq_self_iff]
    cases unescaped : unescape? name.toList with
    | none => simp [unescaped]
    | some key => simp [unescaped, slash, ← String.toList_inj]

/-- A name behind the key of the models is read as the keys of a model of that name exactly if a
pointer writes it as it is. -/
theorem keysOf?_models_eq_iff {name : String} :
    keysOf? ("/models/" ++ name) = some ["models", name]
      ↔ '/' ∉ name.toList ∧ '~' ∉ name.toList := by
  rw [← keysBehind?_eq_self_iff, keysOf?_models]
  simp

/-- It is never read as the keys of a leaf. -/
theorem keysOf?_models_ne_leaves (name : String) (keys : List String) :
    keysOf? ("/models/" ++ name) ≠ some ("leaves" :: keys) := by
  intro same
  rw [keysOf?_models] at same
  obtain ⟨_, _, same⟩ := Option.map_eq_some_iff.1 same
  simp at same

end Location

namespace Document

open Lowering Relation

variable {document : Document} {error : DocumentError} {location : Location} {value : Json}

/-! ## Declarations of names -/

/-- The entry of a document that declares the name which an error is about: the first name that has
a meaning already, or a model that leads to a circle. -/
inductive DeclaredAt (document : Document) : DocumentError → Location → Json → Prop
  | leaf {name : String} {front rest : List String}
      (declared : document.leaves = front ++ name :: rest)
      (apart : front.Nodup) (untaken : ∀ other ∈ front, isTaken other = false)
      (clash : isTaken name = true ∨ name ∈ front) :
      DeclaredAt document (.duplicateModel name)
        ((Location.root.child "leaves").child (toString front.length)) (.string name)
  | model {name : String} {value : Json} (declared : document.models.lookup name = some value)
      (apart : document.leaves.Nodup) (untaken : ∀ leaf ∈ document.leaves, isTaken leaf = false)
      (clash : isTaken name = true ∨ name ∈ document.leaves) :
      DeclaredAt document (.duplicateModel name) (modelLocation name) value
  | circular {name : String} {value : Json} (declared : document.models.lookup name = some value) :
      DeclaredAt document (.circularComposition name) (modelLocation name) value

/-- Such an error names an entry of the document. -/
theorem exists_declaredAt_of_lower {name : String} (fails : document.lower = .error error)
    (about : error = .duplicateModel name ∨ error = .circularComposition name) :
    ∃ location value, document.DeclaredAt error location value := by
  have ofModel {name : String} (declared : name ∈ document.models.keys) :
      ∃ value, document.models.lookup name = some value :=
    Option.isSome_iff_exists.1 (Entries.hasKey_iff.2 declared)
  rcases about with rfl | rfl
  · rcases refuses_of_lower fails with refuses | ⟨_, _, impossible⟩ | ⟨_, _, impossible⟩
    · cases refuses with
      | name clash =>
        cases clash with
        | leaf declared apart untaken clash => exact ⟨_, _, .leaf declared apart untaken clash⟩
        | model declared apart untaken _ clash =>
          obtain ⟨value, is⟩ := ofModel (declared ▸ List.mem_append_cons_self)
          exact ⟨_, _, .model is apart untaken clash⟩
      | excused excuse =>
        cases excuse with
        | unmeant _ _ _ unlike | aliases _ _ unlike => exact absurd rfl (unlike name)
    · cases impossible
    · cases impossible
  · rcases refuses_of_lower fails with refuses | ⟨_, _, impossible⟩ | ⟨_, _, impossible⟩
    · suffices led : ∃ other, document.glossary.DependsOn name other by
        obtain ⟨value, is⟩ := led.choose_spec.exists_value
        exact ⟨_, _, .circular is⟩
      cases refuses with
      | excused excuse =>
        cases excuse with
        | circular cycle =>
          obtain ⟨other, first, _⟩ := TransGen.head'_iff.1 cycle
          exact ⟨other, .of_composedFrom first⟩
        | unmeant proper | aliases proper => exact absurd rfl (proper name)
      | broken isBroken =>
        rcases isBroken with ⟨_, reaches, cycle⟩ | ⟨chain, head, length, links⟩
        · obtain ⟨other, first, _⟩ := TransGen.head'_iff.1 (TransGen.trans_right reaches cycle)
          exact ⟨other, .of_alias first⟩
        · match chain, head, length, links with
          | _ :: other :: _, rfl, _, links =>
            exact ⟨other, .of_alias (List.isChain_cons_cons.1 links).1⟩
    · cases impossible
    · cases impossible

theorem DeclaredAt.base (declaredAt : document.DeclaredAt error location value) :
    location.base = "" := by
  cases declaredAt <;> rfl

/-- The entry stands where its location leads to. -/
theorem DeclaredAt.resolve? (declaredAt : document.DeclaredAt error location value) :
    document.toJson.resolve? location.text = some value := by
  have ofModel {name : String} (declared : document.models.lookup name = some value) :
      document.toJson.resolve? (modelLocation name).text = some value := by
    obtain ⟨members, same, found, _⟩ := @lookup_models document
    rw [Json.resolve?_text rfl, same]
    show (members.lookup "models").bind (Json.at? [name]) = some value
    rw [found]
    show (document.models.lookup name).bind some = some value
    rw [declared, Option.bind_some]
  cases declaredAt with
  | model declared | circular declared => exact ofModel declared
  | @leaf name front rest declared =>
    obtain ⟨first, others, nonempty⟩ : ∃ first others, document.leaves = first :: others :=
      List.exists_cons_of_ne_nil fun none => by simp [none] at declared
    have found : document.toJson.at? ["leaves"]
        = some (.array (document.leaves.map .string)) := by
      unfold toJson
      rw [nonempty]
      rfl
    rw [Json.resolve?_text rfl]
    show document.toJson.at? (["leaves"] ++ [toString front.length]) = _
    rw [Json.at?_append, found, declared]
    show ((Location.index? (toString front.length)).bind _).bind _ = _
    rw [Location.index?_toString]
    simp [Json.at?]

/-! ## Diagnostics about names -/

/-- A pointer leads to the entry at a location: it is read as the keys of the location, and the
value of the entry stands there. -/
def Leads (document : Document) (pointer : String) (location : Location) (value : Json) : Prop :=
  Location.keysOf? pointer = some location.keys ∧ document.toJson.resolve? pointer = some value

theorem DeclaredAt.leads_iff (declaredAt : document.DeclaredAt error location value)
    {pointer : String} :
    document.Leads pointer location value ↔ Location.keysOf? pointer = some location.keys := by
  refine ⟨And.left, fun read => ⟨read, ?_⟩⟩
  have stands := declaredAt.resolve?
  rw [Json.resolve?_text declaredAt.base] at stands
  rw [Json.resolve?, read, Option.bind_some, stands]

/-- If a document is refused for a name, there is an entry that declares the name.  The location of
the diagnostic leads to the entry exactly if it is a model and its name has neither a slash nor a
tilde. -/
theorem leads_iff_of_lower {name : String} (fails : document.lower = .error error)
    (about : error = .duplicateModel name ∨ error = .circularComposition name) :
    (∃ location value, document.DeclaredAt error location value)
      ∧ ∀ location value, document.DeclaredAt error location value →
        document.toJson.resolve? location.text = some value
          ∧ (document.Leads error.diagnostic.location location value
            ↔ location = modelLocation name ∧ '/' ∉ name.toList ∧ '~' ∉ name.toList) := by
  refine ⟨exists_declaredAt_of_lower fails about, fun location value declaredAt =>
    ⟨declaredAt.resolve?, ?_⟩⟩
  have written : error.diagnostic.location = "/models/" ++ name := by
    rcases about with rfl | rfl <;> rfl
  rw [declaredAt.leads_iff, written]
  have place : location = modelLocation name ∨ ∃ index, location.keys = ["leaves", index] := by
    rcases about with rfl | rfl
    · cases declaredAt with
      | leaf => exact .inr ⟨_, rfl⟩
      | model => exact .inl rfl
    · cases declaredAt with
      | circular => exact .inl rfl
  rcases place with rfl | ⟨index, keys⟩
  · exact Location.keysOf?_models_eq_iff.trans (and_iff_right rfl).symm
  · rw [keys]
    refine iff_of_false (Location.keysOf?_models_ne_leaves name _) ?_
    rintro ⟨rfl, _⟩
    simp [modelLocation, Location.child, Location.root] at keys

/-- A leaf and a model of one name. -/
def currencies : Document :=
  { Document.empty with leaves := ["Money"], models := [("Money", .string "number")] }

theorem leads_iff_of_lower_currencies :
    currencies.lower = .error (.duplicateModel "Money")
      ∧ currencies.DeclaredAt (.duplicateModel "Money") (modelLocation "Money") (.string "number")
      ∧ currencies.Leads "/models/Money" (modelLocation "Money") (.string "number") := by
  have refused : currencies.lower = .error (.duplicateModel "Money") := by rfl
  have declaredAt : currencies.DeclaredAt (.duplicateModel "Money") (modelLocation "Money")
      (.string "number") :=
    .model rfl (by decide) (by decide) (.inr (by decide))
  have leads_iff := ((leads_iff_of_lower refused (.inl rfl)).2 _ _ declaredAt).2
  exact ⟨refused, declaredAt, leads_iff.2 ⟨rfl, by decide, by decide⟩⟩

/-- A leaf that is declared twice. -/
def coins : Document := { Document.empty with leaves := ["Money", "Money"] }

/-- A model with a slash in its name that is an alias of an alias of itself. -/
def echoes : Document :=
  { Document.empty with
    models := [("call/answer", .string "Call"), ("Call", .string "Answer"),
      ("Answer", .string "Call")] }

/-- There may be nothing at all at the location of a diagnostic about a name, neither for a name
that is declared twice nor for a circle. -/
theorem not_forall_exists_resolve? :
    (¬ ∀ (document : Document) (name : String),
      document.lower = .error (.duplicateModel name) →
      ∃ value, document.toJson.resolve? (DocumentError.duplicateModel name).diagnostic.location
        = some value)
    ∧ ¬ ∀ (document : Document) (name : String),
      document.lower = .error (.circularComposition name) →
      ∃ value, document.toJson.resolve? (DocumentError.circularComposition name).diagnostic.location
        = some value := by
  constructor
  · intro all
    obtain ⟨value, stands⟩ := all coins "Money" (by rfl)
    have nothing : coins.toJson.resolve? "/models/Money" = none := by rfl
    cases nothing.symm.trans stands
  · intro all
    have refused : echoes.lower = .error (.circularComposition "call/answer") :=
      circular?_eq_some_iff.1 (by decide +kernel)
    obtain ⟨value, stands⟩ := all echoes "call/answer" refused
    have nothing : echoes.toJson.resolve? "/models/call/answer" = none := by rfl
    cases nothing.symm.trans stands

end Document

end ModelForms
