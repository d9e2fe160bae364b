import ModelForms.Proofs.Document.Lowerable
import ModelForms.Proofs.Document.NamedMeanings
import ModelForms.Proofs.Tree.Naming

/-!
# Documents with a named operand

An operand of a union in a property or element type may be made the value of a new model, and the
name of the model be written in its place (`Document.NamesOperand`).  If both documents are lowered,
the types of the second are those of the first but for the name (`Document.NamesOperand.naming`).
So they give forms of the same outline if the naming is harmless
(`Document.outline?_iff_of_namesOperand`).

A name for `null` does harm: the union with `null` itself is declared to be what is beside it, and
the union with the name is declared to be a control (`Document.kindAt?_ofHome`).
-/

namespace ModelForms

open NamedTerm (unnamed)

namespace Document

/-! ## Outlines -/

/-- The types of a document and its root among them. -/
def rootedCatalog? (document : Document) (explicit : Option String) :
    Option (Catalog × TypeId) := do
  let lowered ← document.lower.toOption
  let model ← (lowered.rootModel explicit).toOption
  return (lowered.catalog, model)

/-- The outline of the form that a document gives. -/
def outline? (document : Document) (explicit : Option String) (mode : Mode) (hint : Hint) :
    Option TreeNode := do
  let (catalog, model) ← document.rootedCatalog? explicit
  let tree ← (DerivedForm.derive catalog.models mode hint model catalog.types).1.toOption
  return tree.root.outline

/-- The kind of the node that the form of a document has at a path. -/
def kindAt? (document : Document) (explicit : Option String) (mode : Mode) (hint : Hint)
    (steps : List PathStep) : Option NodeKind := do
  let outline ← document.outline? explicit mode hint
  let node ← outline.follow? steps
  return node.kind

section

variable {document : Document} {explicit : Option String} {catalog : Catalog} {model : TypeId}

theorem exists_lowered_of_rootedCatalog?
    (rooted : document.rootedCatalog? explicit = some (catalog, model)) :
    ∃ lowered, document.lower = .ok lowered ∧ lowered.catalog = catalog := by
  obtain ⟨lowered, lowers, rooted⟩ := Option.bind_eq_some_iff.1 rooted
  obtain ⟨model, _, rooted⟩ := Option.bind_eq_some_iff.1 rooted
  cases rooted
  refine ⟨lowered, ?_, rfl⟩
  cases h : document.lower with
  | ok lowered =>
    rw [h] at lowers
    cases lowers
    rfl
  | error =>
    rw [h] at lowers
    cases lowers

theorem outline?_eq_some_iff {mode : Mode} {hint : Hint} {outline : TreeNode}
    (rooted : document.rootedCatalog? explicit = some (catalog, model)) :
    document.outline? explicit mode hint = some outline
      ↔ ∃ tree after, DerivedForm.derive catalog.models mode hint model catalog.types
          = (.ok tree, after) ∧ tree.root.outline = outline := by
  unfold outline?
  rw [rooted]
  show (DerivedForm.derive catalog.models mode hint model catalog.types).1.toOption.bind _ = _ ↔ _
  cases DerivedForm.derive catalog.models mode hint model catalog.types with
  | mk outcome after =>
    cases outcome with
    | error error =>
      constructor
      · intro h
        cases h
      · rintro ⟨_, _, h, _⟩
        cases h
    | ok tree =>
      constructor
      · intro h
        cases h
        exact ⟨tree, after, rfl, rfl⟩
      · rintro ⟨_, _, h, rfl⟩
        cases h
        rfl

end

/-! ## Naming an operand -/

/-- The second document has one model more, whose name is new.  Its value is an operand of a union
in the first document, and the name stands in the place of the operand. -/
inductive NamesOperand (document : Document) (name : String) (value : Json) : Document → Prop
  | intro {model : String} {given given' : Json} (before after front back : Entries Json)
      (distinct : document.models.keys.Nodup)
      (untaken : Lowering.isTaken name = false)
      (new : name ∉ document.leaves ++ document.models.keys)
      (models : document.models = before ++ (model, given) :: after)
      (names : Json.NamesOperand name value false given given')
      (split : before ++ (model, given') :: after = front ++ back) :
      NamesOperand document name value { document with models := front ++ (name, value) :: back }

namespace NamesOperand

variable {document document' : Document} {name : String} {value : Json}
  (names : document.NamesOperand name value document')

include names

theorem untaken : Lowering.isTaken name = false := by
  cases names with
  | intro _ _ _ _ _ untaken => exact untaken

theorem new : name ∉ document.leaves ++ document.models.keys := by
  cases names with
  | intro _ _ _ _ _ _ new => exact new

/-- The models of the second document are the new one and those of the first, with the name in their
values. -/
theorem exists_models : ∃ models, Json.NamesMembers name value false document.models models
    ∧ (∀ key, document'.models.lookup key = if name = key then some value else models.lookup key)
    ∧ ∀ key, key ∈ document'.models.keys ↔ key = name ∨ key ∈ document.models.keys := by
  cases names with
  | @intro model _ _ before after front back _ _ new models names split =>
    have same := names.namesParts.members model before after
    rw [← models, split] at same
    have keys := same.keys_eq
    refine ⟨front ++ back, same, fun key => Entries.lookup_insert ?_ key, fun key => ?_⟩
    · intro mem
      refine new (List.mem_append_right _ ?_)
      rw [← keys, Entries.keys, List.map_append]
      exact List.mem_append_left _ mem
    · rw [← keys]
      simp [Entries.keys, or_left_comm]

theorem mem_keys_iff {key : String} :
    key ∈ document'.models.keys ↔ key = name ∨ key ∈ document.models.keys := by
  obtain ⟨_, _, _, keys⟩ := names.exists_models
  exact keys key

theorem leaves : document'.leaves = document.leaves := by
  cases names
  rfl

theorem root : document'.root = document.root := by
  cases names
  rfl

/-- Parts of types in the glossary of the first document are named in that of the second. -/
theorem glossary : document.glossary.NamesParts name value document'.glossary where
  foreign := by
    have untaken := names.untaken
    simp only [Lowering.isTaken, Bool.or_eq_false_iff] at untaken
    simpa using untaken.1.1.2
  unused := Entries.lookup_eq_none_iff.2 fun mem => names.new (List.mem_append_right _ mem)
  notLeaf := fun mem => names.new (List.mem_append_left _ mem)
  named := by
    obtain ⟨_, _, lookup, _⟩ := names.exists_models
    exact (lookup name).trans (if_pos rfl)
  values := by
    intro model unequal
    obtain ⟨_, same, lookup, _⟩ := names.exists_models
    have lookup : document'.glossary.valueOf model = _ := (lookup model).trans (if_neg unequal.symm)
    rw [lookup]
    exact same.lookup model
  leaves := names.leaves

variable {lowered lowered' : Lowered} (lowers : document.lower = .ok lowered)

include lowers

/-- The operand means something. -/
theorem exists_valueMeans : ∃ type, document.glossary.ValueMeans value type := by
  cases names with
  | @intro model given given' before after _ _ distinct _ _ models names =>
    have mem : (model, given) ∈ document.models := by simp [models]
    obtain ⟨_, means⟩ := exists_means_of_lower lowers (List.mem_map_of_mem mem)
    exact means.exists_valueMeans (Entries.lookup_of_mem distinct mem) names

/-- The second document is lowered unless it has too many models or too many aliases in a row, its
models are composed too deeply, or something is composed from a union. -/
theorem lowers_iff : (∃ lowered', document'.lower = .ok lowered')
    ↔ ¬ document'.glossary.HasLongAliases ∧ ¬ document'.glossary.IsCrowded
      ∧ (∃ done, document'.schedule = some done) ∧ ¬ document'.glossary.ComposesUnion := by
  rw [exists_lower_iff]
  constructor
  · intro lowerable
    refine ⟨lowerable.short, lowerable.few, lowerable.scheduled, ?_⟩
    exact Glossary.not_composesUnion fun model _ is =>
      lowerable.meaningful model (Entries.mem_keys_of_lookup is)
  · rintro ⟨short, few, scheduled, single⟩
    obtain ⟨type, means⟩ := names.exists_valueMeans lowers
    have lowerable := lowerable_of_lower lowers
    refine ⟨⟨?_, ?_, ?_⟩, ?_, short, few, scheduled, ?_, ?_⟩
    · exact names.leaves ▸ lowerable.namesApart.leaves
    · intro other mem
      rw [names.leaves, List.mem_append, names.mem_keys_iff] at mem
      rcases mem with mem | rfl | mem
      · exact lowerable.namesApart.untaken other (List.mem_append_left _ mem)
      · exact names.untaken
      · exact lowerable.namesApart.untaken other (List.mem_append_right _ mem)
    · intro other mem
      rw [names.leaves]
      rcases names.mem_keys_iff.1 mem with rfl | mem
      · exact fun leaf => names.new (List.mem_append_left _ leaf)
      · exact lowerable.namesApart.models other mem
    · intro model mem
      rcases names.mem_keys_iff.1 mem with rfl | mem
      · obtain ⟨term, means, _⟩ := names.glossary.exists_means_name means single
        exact ⟨term, means⟩
      · obtain ⟨_, meaning⟩ := lowerable.meaningful model mem
        obtain ⟨term, means, _⟩ := names.glossary.exists_means means single meaning
        exact ⟨term, means⟩
    · cases names
      exact lowerable.hints
    · cases names
      exact lowerable.mode

variable (lowers' : document'.lower = .ok lowered')

include lowers'

/-- The types of the second document are those of the first but for the name. -/
theorem naming {type : NamedTerm} (means : document.glossary.ValueMeans value type) :
    lowered.catalog.Naming lowered'.catalog name type := by
  obtain ⟨closed, unbroken⟩ := closed_of_lower lowers
  obtain ⟨closed', unbroken'⟩ := closed_of_lower lowers'
  have single : ¬ document'.glossary.ComposesUnion :=
    ((names.lowers_iff lowers).1 ⟨lowered', lowers'⟩).2.2.2
  refine ⟨closed, closed', distinct_of_lower lowers, distinct_of_lower lowers', unbroken, unbroken',
    ?_, ?_⟩
  · -- The body of each model is what the model means, so it is compared by what values mean.
    intro definition body named defined
    obtain ⟨_, defined', meaning⟩ := exists_body_of_name? lowers' named
    cases defined.symm.trans defined'
    obtain ⟨term, meaning', same⟩ := names.glossary.exists_means_name means single
    rwa [meaning.unique meaning']
  · intro definition definition' model body' unequal named named' defined'
    obtain ⟨body, defined, meaning⟩ := exists_body_of_name? lowers named
    obtain ⟨_, defined'', meaning'⟩ := exists_body_of_name? lowers' named'
    cases defined'.symm.trans defined''
    obtain ⟨term, meaning'', same⟩ := names.glossary.exists_means means single meaning
    refine ⟨body, defined, ?_⟩
    rw [meaning'.unique meaning'', same]

end NamesOperand

/-! ## Roots -/

section

variable {document : Document} {lowered : Lowered} {explicit : Option String} {root : String}

theorem rootModel_of_lower (h : document.lower = .ok lowered)
    (chosen : explicit.or document.root = some root) :
    lowered.rootModel explicit = lowered.rootModel (some root) := by
  obtain ⟨_, _, _, _, _, _, _, rfl⟩ := lower_eq_ok_iff.1 h
  simp only [Lowered.rootModel, chooseRoot, chosen, Option.some_or]

/-- A root with a name is the reference to the model of this name. -/
theorem exists_rooted (h : document.lower = .ok lowered)
    (chosen : explicit.or document.root = some root) (declared : root ∈ document.models.keys) :
    ∃ model, document.rootedCatalog? explicit = some (lowered.catalog, model)
      ∧ lowered.catalog.types.Knows model
      ∧ lowered.catalog.types.unionMembers? model = none
      ∧ lowered.catalog.namedTerm model = .reference root := by
  obtain ⟨complete, _⟩ := complete_of_lower h
  obtain ⟨definition, _, found, _⟩ := exists_body_of_lower h declared
  obtain ⟨model, isRoot, reference⟩ := Lowered.exists_reference complete found
  obtain ⟨name, named, same⟩ :=
    complete.closed.namedTerm_of_referenced? (TypeTable.referenced?_eq_some_iff.2 reference)
  have named' :=
    Definitions.name?_eq_some_of_find? (complete.names _ (Entries.mem_of_lookup found))
  cases named.symm.trans named'
  refine ⟨model, ?_, TypeTable.knows_of_lookup reference, ?_, same⟩
  · simp [rootedCatalog?, h, rootModel_of_lower h chosen, isRoot, Except.toOption]
  · simp [TypeTable.unionMembers?, reference]

/-- A name that no model has is no root. -/
theorem outline?_eq_none (h : document.lower = .ok lowered)
    (chosen : explicit.or document.root = some root) (undeclared : root ∉ document.models.keys)
    (mode : Mode) (hint : Hint) : document.outline? explicit mode hint = none := by
  have unknown : lowered.models.lookup root = none := by
    rw [Entries.lookup_eq_none_iff, (complete_of_lower h).2]
    exact undeclared
  have refused : ∃ error, lowered.rootModel explicit = .error error := by
    refine ⟨.unknownName (Location.root.child "root") root, ?_⟩
    rw [rootModel_of_lower h chosen]
    simp only [Lowered.rootModel, chooseRoot, Option.some_or, Except.mapError, bind, Except.bind,
      unknown]
    rfl
  obtain ⟨error, refused⟩ := refused
  simp [outline?, rootedCatalog?, h, refused, Except.toOption]

end

/-! ## Outlines with and without the name -/

/-- With a name for an operand a document is lowered unless it has too many models or aliases in a
row by then, its models are composed too deeply, or something is composed from a union.  Exactly
the harmless namings leave what declared types are.  Where the naming is harmless, the outlines of
forms over any root are as they are without the name, of all that have no more groups than models
may be entered. -/
theorem outline?_iff_of_namesOperand {document document' : Document} {name : String} {value : Json}
    {lowered : Lowered} (names : document.NamesOperand name value document')
    (lowers : document.lower = .ok lowered) :
    ((∃ lowered', document'.lower = .ok lowered')
        ↔ ¬ document'.glossary.HasLongAliases ∧ ¬ document'.glossary.IsCrowded
          ∧ (∃ done, document'.schedule = some done) ∧ ¬ document'.glossary.ComposesUnion)
      ∧ ∃ type, document.glossary.ValueMeans value type
        ∧ ∀ lowered', document'.lower = .ok lowered' →
          (lowered.catalog.NamesHarmlessly lowered'.catalog name type
            ↔ lowered.catalog.Agree lowered'.catalog
              (lowered.catalog.Related lowered'.catalog name type))
          ∧ (lowered.catalog.NamesHarmlessly lowered'.catalog name type →
            ∀ explicit root mode hint outline, explicit.or document.root = some root →
              root ≠ name → outline.groups ≤ Limits.expansionSteps →
              (document.outline? explicit mode hint = some outline
                ↔ document'.outline? explicit mode hint = some outline)) := by
  obtain ⟨type, means⟩ := names.exists_valueMeans lowers
  refine ⟨names.lowers_iff lowers, type, means, fun lowered' lowers' => ?_⟩
  have naming := names.naming lowers lowers' means
  refine ⟨naming.namesHarmlessly_iff, fun harmless explicit root mode hint outline chosen unequal
    few => ?_⟩
  have chosen' : explicit.or document'.root = some root := names.root ▸ chosen
  have same : root ∈ document'.models.keys ↔ root ∈ document.models.keys := by
    rw [names.mem_keys_iff, or_iff_right unequal]
  by_cases declared : root ∈ document.models.keys
  · obtain ⟨model, rooted, known, _, is⟩ := exists_rooted lowers chosen declared
    obtain ⟨model', rooted', known', flat, is'⟩ := exists_rooted lowers' chosen' (same.2 declared)
    have related : lowered.catalog.Related lowered'.catalog name type model model' :=
      .of_flat ⟨known, known', by rw [is, is', NamedTerm.unnamed_reference unequal]⟩ flat
    rw [outline?_eq_some_iff rooted, outline?_eq_some_iff rooted']
    exact DerivedForm.derive_iff_of_naming naming harmless related few
  · rw [outline?_eq_none lowers chosen declared,
      outline?_eq_none lowers' chosen' (mt same.1 declared)]

/-! ## A name for homes -/

/-- A form with one property `home`, a model for addresses, and more models. -/
def ofHome (home : String) (more : Entries Json) : Document where
  leaves := []
  models := ("Address", .object [("street", .string "string")])
    :: ("Form", .object [("home", .string home)]) :: more
  root := some "Form"
  hints := none
  mode := none

/-- The types of a form with a home that is an address or `null`. -/
def home : Catalog where
  types.entries := [.object [⟨"street", .ofIntrinsic .string, false⟩], .reference ⟨1⟩,
    .union [TypeId.null, ⟨101⟩], .object [⟨"home", ⟨102⟩, false⟩], .reference ⟨2⟩]
  types.names := ⟨NameRegister.builtin.names ++ ["Address", "Form", "street", "home"]⟩
  models.entries := [⟨"Address", some ⟨100⟩⟩, ⟨"Form", some ⟨103⟩⟩]

/-- The same with the name `Home` for an address in the place of a home. -/
def namedHome : Catalog where
  types.entries := [.object [⟨"street", .ofIntrinsic .string, false⟩], .reference ⟨3⟩,
    .union [TypeId.null, ⟨101⟩], .object [⟨"home", ⟨102⟩, false⟩], .reference ⟨1⟩, .reference ⟨2⟩]
  types.names := ⟨NameRegister.builtin.names ++ ["Address", "Form", "Home", "street", "home"]⟩
  models.entries := [⟨"Address", some ⟨100⟩⟩, ⟨"Form", some ⟨103⟩⟩, ⟨"Home", some ⟨104⟩⟩]

theorem rootedCatalog?_ofHome :
    (ofHome "Address | null" []).rootedCatalog? none = some (home, ⟨104⟩)
      ∧ (ofHome "Home | null" [("Home", .string "Address")]).rootedCatalog? none
        = some (namedHome, ⟨105⟩) := by
  decide +kernel

/-- One of the operands of the type of a home is named. -/
theorem namesOperand_ofHome {home home' name written : String} {part : TypeExpr}
    {before after : List TypeExpr} (untaken : Lowering.isTaken name = false)
    (new : name ∉ ["Address", "Form"]) (writes : TypeExpr.parse written = .ok part)
    (parses : TypeExpr.parse home = .ok (.union (before ++ part :: after)))
    (parses' : TypeExpr.parse home' = .ok (.union (before ++ .reference name [] :: after))) :
    (ofHome home []).NamesOperand name (.string written)
      (ofHome home' [(name, .string written)]) := by
  have plain : ∀ only inner, [("home", Json.string home)] = [(only, inner)] →
      Lowering.isDirective only = false := by
    rintro _ _ ⟨⟩
    rfl
  exact .intro [("Address", .object [("street", .string "string")])] [] (ofHome home' []).models []
    (by simp [ofHome, Entries.keys]) untaken new rfl
    (.property "home" [] [] plain (.text rfl writes parses parses' (.operand before after))) rfl

theorem namesOperand_home : (ofHome "Address | null" []).NamesOperand "Home" (.string "Address")
    (ofHome "Home | null" [("Home", .string "Address")]) :=
  @namesOperand_ofHome _ _ _ _ _ [] [.keyword .null] (by decide) (by decide) rfl rfl rfl

/-- In a table with one union there is one id of a union. -/
theorem eq_of_unionMembers? {types : TypeTable} {id d : TypeId} {members only : List TypeId}
    (wf : types.WellFormed) (single : ∀ ms, TypeEntry.union ms ∈ types.entries → ms = only)
    (is : types.unionMembers? id = some only) (h : types.unionMembers? d = some members) :
    d = id ∧ members = only := by
  have found := TypeTable.unionMembers?_eq_some_iff.1 h
  cases single members (TypeTable.mem_entries_of_lookup found (by simp))
  exact ⟨wf.lookup_injective found (TypeTable.unionMembers?_eq_some_iff.1 is) (by simp), rfl⟩

/-- The name for an address does no harm, since only `null` is beside it. -/
theorem namesHarmlessly_home (naming : home.Naming namedHome "Home" (.reference "Address")) :
    home.NamesHarmlessly namedHome "Home" (.reference "Address") := by
  intro d d' members' related right _
  obtain ⟨rfl, rfl⟩ := @eq_of_unionMembers? _ ⟨102⟩ _ _ [TypeId.null, ⟨101⟩]
    naming.closed'.wellFormed.types (by simp [namedHome]) rfl right
  have isName : namedHome.IsName "Home" ⟨101⟩ := by
    have refers : namedHome.types.referenced? ⟨101⟩ = some ⟨3⟩ := rfl
    obtain ⟨_, named, same⟩ := naming.closed'.namedTerm_of_referenced? refers
    cases named
    exact same
  have beside : namedHome.Beside "Home" [TypeId.null, ⟨101⟩] := by
    simp [Catalog.Beside, isName, TypeId.isNullish]
  obtain ⟨_, _, isUnion, _⟩ := naming.exists_kept_eq right beside (by simp) isName related.unnamed
    (by simp) (by simp [NamedTerm.IsMute])
  obtain ⟨rfl, _⟩ := @eq_of_unionMembers? _ ⟨102⟩ _ _ [TypeId.null, ⟨101⟩]
    naming.closed.wellFormed.types (by simp [home]) rfl isUnion
  exact ⟨by decide, .inr ⟨by simp, beside⟩⟩

/-- A home is a group.  With the name for it the outline is the same. -/
theorem outline?_iff_of_namesOperand_home :
    (ofHome "Address | null" []).NamesOperand "Home" (.string "Address")
        (ofHome "Home | null" [("Home", .string "Address")])
      ∧ ∃ outline, (ofHome "Address | null" []).outline? none ⟨.never, .declared⟩ .unspecified
          = some outline
        ∧ (ofHome "Home | null" [("Home", .string "Address")]).outline? none ⟨.never, .declared⟩
          .unspecified = some outline
        ∧ (outline.follow? [.field "home"]).map TreeNode.kind = some .group := by
  have views : ((ofHome "Address | null" []).outline? none ⟨.never, .declared⟩ .unspecified).map
      (fun outline => (outline.groups, (outline.follow? [.field "home"]).map TreeNode.kind))
        = some (2, some .group) := by
    decide +kernel
  obtain ⟨outline, gives, view⟩ := Option.map_eq_some_iff.1 views
  obtain ⟨groups, kind⟩ := Prod.mk.inj view
  have few : outline.groups ≤ Limits.expansionSteps := by
    rw [groups]
    decide
  obtain ⟨lowered, lowers, catalog⟩ := exists_lowered_of_rootedCatalog? rootedCatalog?_ofHome.1
  obtain ⟨lowered', lowers', catalog'⟩ := exists_lowered_of_rootedCatalog? rootedCatalog?_ofHome.2
  obtain ⟨_, type, means, forms⟩ := outline?_iff_of_namesOperand namesOperand_home lowers
  have isAddress : type = .reference "Address" := by
    obtain ⟨_, parses, means⟩ := Glossary.valueMeans_text_iff.1 means
    cases parses
    cases (Glossary.exprMeans_name_iff.1 means : some _ = some type)
    rfl
  subst isAddress
  have naming := namesOperand_home.naming lowers lowers' means
  have forms := (forms lowered' lowers').2
  rw [catalog, catalog'] at naming forms
  exact ⟨namesOperand_home, outline, gives, (forms (namesHarmlessly_home naming) none "Form" _ _ _
    rfl (by decide) few).1 gives, kind⟩

/-- An address that may be `null` is a group.  With a name for `null` it is a control, since the
naming does harm. -/
theorem kindAt?_ofHome :
    (ofHome "Address | null" []).NamesOperand "Nothing" (.string "null")
        (ofHome "Address | Nothing" [("Nothing", .string "null")])
      ∧ (ofHome "Address | null" []).kindAt? none ⟨.never, .never⟩ .unspecified [.field "home"]
        = some .group
      ∧ (ofHome "Address | Nothing" [("Nothing", .string "null")]).kindAt? none ⟨.never, .never⟩
          .unspecified [.field "home"] = some .control := by
  refine ⟨@namesOperand_ofHome _ _ _ _ _ [.reference "Address" []] [] ?_ ?_ rfl rfl rfl, ?_⟩
  all_goals decide +kernel

end Document

end ModelForms
