import ModelForms.Proofs.Tree.Guarded
import ModelForms.Proofs.Tree.Positions

/-!
# Null under a rule that never allows it

Under a mode whose rule for `null` is `never`, the type of a control is what is left of the declared
type when `null` and `undefined` are set aside.  That looks at one level: at the end of the chain of
aliases that the declared type starts, and at the members of the union there.  A member that is
itself an alias of something with `null` stays, and `null` with it.

So the type of a control admits `null` exactly where an alternative of the declared type hides it
(`admitsNull_iff_hidesNull`).  Declared types that are nothing but `null` and `undefined`, and those
that come to `unknown`, are left out of this: nothing can be set aside of them.
-/

namespace ModelForms

namespace Catalog

/-- A type comes to nothing but `null` and `undefined`, or it comes to `unknown`. -/
def NullByNature (catalog : Catalog) (declared : TypeId) : Prop :=
  (∀ target, catalog.Reaches declared target → catalog.types.unionMembers? target = none →
    catalog.types.referenced? target = none → target.isNullish = true)
  ∨ catalog.Reaches declared TypeId.unknown

/-- An alternative of a type is neither `null` nor `undefined` but comes to `null`. -/
def HidesNull (catalog : Catalog) (declared : TypeId) : Prop :=
  ∃ m ∈ catalog.alternatives declared, m.isNullish = false ∧ catalog.Reaches m TypeId.null

section

variable {catalog : Catalog} {declared : TypeId}

/-- What a type reaches beyond references is reached from the end of its chain of aliases. -/
theorem LeadsTo.reaches_of_reaches {end_ target : TypeId} (leads : catalog.LeadsTo declared end_)
    (reaches : catalog.Reaches declared target) (proper : catalog.types.referenced? target = none) :
    catalog.Reaches end_ target := by
  induction leads with
  | here => exact reaches
  | onwards reference defined _ ih =>
    cases reaches with
    | here =>
      rw [reference] at proper
      cases proper
    | member union =>
      simp only [TypeTable.referenced?, TypeTable.unionMembers?_eq_some_iff.1 union] at reference
      cases reference
    | body reference' defined' rest =>
      rw [reference] at reference'
      cases reference'
      rw [defined] at defined'
      cases defined'
      exact ih rest

/-- A type of which nothing is kept when `null` and `undefined` are set aside has nothing else. -/
theorem nullByNature_of_filter (h : (catalog.alternatives declared).filter (!·.isNullish) = []) :
    catalog.NullByNature declared := by
  have nullish {m : TypeId} (hm : m ∈ catalog.alternatives declared) : m.isNullish = true := by
    simpa using List.filter_eq_nil_iff.1 h m hm
  refine Or.inl fun target reaches notUnion notReference => ?_
  have fromEnd := (leadsTo_resolved catalog declared).reaches_of_reaches reaches notReference
  have ofNullish {m : TypeId} (hm : m ∈ catalog.alternatives declared)
      (rest : catalog.Reaches m target) : target.isNullish = true := by
    obtain ⟨k, _, rfl⟩ := TypeId.exists_intrinsic_of_isNullish (nullish hm)
    exact rest.eq_of_intrinsic ▸ nullish hm
  cases hu : catalog.types.unionMembers? (catalog.resolved declared) with
  | none => exact ofNullish (by simp [alternatives, hu]) fromEnd
  | some members =>
    cases fromEnd with
    | here =>
      rw [hu] at notUnion
      cases notUnion
    | member union mem rest =>
      rw [hu] at union
      cases union
      exact ofNullish (by simpa [alternatives, hu] using mem) rest
    | body reference =>
      simp only [TypeTable.referenced?, TypeTable.unionMembers?_eq_some_iff.1 hu] at reference
      cases reference

/-- What is left of a type admits `null` exactly if the type hides it, unless that is its nature. -/
theorem ControlTypeOf.admitsNull_iff (wf : catalog.WellFormed) {value : TypeId}
    (typed : catalog.ControlTypeOf declared false value)
    (nature : ¬ catalog.NullByNature declared) :
    catalog.AdmitsNull value ↔ catalog.HidesNull declared := by
  have filter_ne : (catalog.alternatives declared).filter (!·.isNullish) ≠ [] := fun h =>
    nature (nullByNature_of_filter h)
  have hkept : catalog.kept declared = (catalog.alternatives declared).filter (!·.isNullish) := by
    simp [kept, filter_ne]
  rw [typed.iff_exists wf (AdmitsNull.additive catalog), hkept]
  constructor
  · rintro (⟨m, hm, hnull⟩ | ⟨h, _⟩)
    · obtain ⟨hmem, hnullish⟩ := List.mem_filter.1 hm
      refine ⟨m, hmem, by simpa using hnullish, ?_⟩
      rcases hnull with hnull | hunknown
      · exact hnull
      · exact absurd (Or.inr ((reaches_of_mem_alternatives hmem).trans hunknown)) nature
    · cases h
  · rintro ⟨m, hmem, hnullish, hnull⟩
    exact Or.inl ⟨m, List.mem_filter.2 ⟨hmem, by simpa using hnullish⟩, Or.inl hnull⟩

/-! ## In a later table -/

theorem Reaches.knows (wf : catalog.WellFormed) {target : TypeId}
    (h : catalog.Reaches declared target) (known : catalog.types.Knows declared) :
    catalog.types.Knows target := by
  induction h with
  | here => exact known
  | member union mem _ ih => exact ih ((wf.types.normalUnion union).known _ mem)
  | body _ defined _ ih => exact ih (wf.bodies _ _ defined)

theorem GrowsTo.hidesNull_iff {later : Catalog} (grows : catalog.GrowsTo later)
    (wf : catalog.WellFormed) (known : catalog.types.Knows declared) :
    later.HidesNull declared ↔ catalog.HidesNull declared := by
  unfold HidesNull
  rw [grows.alternatives_eq wf known]
  refine exists_congr fun m => and_congr_right fun hm => and_congr_right fun _ => ?_
  exact grows.reaches_iff wf (wf.knows_alternative known hm)

theorem GrowsTo.nullByNature_iff {later : Catalog} (grows : catalog.GrowsTo later)
    (wf : catalog.WellFormed) (known : catalog.types.Knows declared) :
    later.NullByNature declared ↔ catalog.NullByNature declared := by
  unfold NullByNature
  rw [grows.reaches_iff wf known]
  refine or_congr_left (forall_congr' fun target => ?_)
  rw [grows.reaches_iff wf known]
  refine imp_congr_right fun reaches => ?_
  have knownTarget := reaches.knows wf known
  rw [grows.types.unionMembers?_eq knownTarget, grows.types.referenced?_eq knownTarget]

end

end Catalog

namespace DerivedForm

/-- Under a rule that never allows `null`, the type of a control admits `null` exactly where the
declared type hides it, unless `null` or `unknown` is the declared type's nature. -/
theorem admitsNull_iff_hidesNull {models : Definitions} {mode : Mode} {hint : Hint}
    {model : TypeId} {types after : TypeTable} {tree : DerivedForm}
    (wf : Catalog.WellFormed ⟨types, models⟩) (never : mode.nullable = .never)
    (derives : derive models mode hint model types = (.ok tree, after)) {steps : List PathStep}
    {value : TypeId} (found : tree.root.follow? steps = some (.control value)) :
    ∃ declared, Catalog.declaredAt? ⟨types, models⟩ model steps = some declared
      ∧ (¬ Catalog.NullByNature ⟨types, models⟩ declared →
        (Catalog.AdmitsNull ⟨after, models⟩ value
          ↔ Catalog.HidesNull ⟨types, models⟩ declared)) := by
  obtain ⟨_, _, named, expands, _⟩ := expands_of_derive derives
  have known := knows_of_derive derives
  have settled := expands.settles wf known
  have grows := settled.grows
  obtain ⟨declared, hdeclared, hint', nullable, yields, hnullable⟩ :=
    (settled.holds ⟨after, models⟩ (.refl _)).follow found
  have isFalse : nullable = false := by
    rcases hnullable with h | ⟨_, _, h⟩
    · exact h
    · rw [h, Catalog.decided, Mode.decide, never]
      rfl
  subst isFalse
  rw [grows.declaredAt?_eq wf steps known] at hdeclared
  have knownDeclared := Catalog.knows_declaredAt wf steps known hdeclared
  refine ⟨declared, hdeclared, fun nature => ?_⟩
  rw [← grows.hidesNull_iff wf knownDeclared]
  rw [← grows.nullByNature_iff wf knownDeclared] at nature
  cases yields with
  | control plan typed => exact typed.admitsNull_iff settled.wellFormed nature

/-- The types of two models: `Maybe` is a text or `null`, and `Form` has one property `a`, which is
a number or a `Maybe`. -/
def maybeTypes : TypeTable where
  entries := [.union [TypeId.null, .ofIntrinsic .string], .reference ⟨1⟩,
    .union [.ofIntrinsic .number, ⟨101⟩], .object [⟨"a", ⟨102⟩, false⟩]]
  names := .builtin

@[inherit_doc maybeTypes]
def maybeModels : Definitions := ⟨[⟨"Maybe", some ⟨100⟩⟩, ⟨"Form", some ⟨103⟩⟩]⟩

theorem derive_maybe :
    derive maybeModels ⟨.never, .never⟩ .unspecified ⟨103⟩ maybeTypes =
      (.ok ⟨.group [("a", (false, .control ⟨102⟩))], ⟨.never, .never⟩, ⟨103⟩⟩, maybeTypes) :=
  rfl

theorem admitsNull_iff_hidesNull_maybe :
    ∃ declared, Catalog.declaredAt? ⟨maybeTypes, maybeModels⟩ ⟨103⟩ [.field "a"] = some declared
      ∧ (¬ Catalog.NullByNature ⟨maybeTypes, maybeModels⟩ declared →
        (Catalog.AdmitsNull ⟨maybeTypes, maybeModels⟩ ⟨102⟩
          ↔ Catalog.HidesNull ⟨maybeTypes, maybeModels⟩ declared)) :=
  admitsNull_iff_hidesNull (by decide) rfl derive_maybe rfl

/-! ## A hidden null -/

theorem not_nullByNature_maybe : ¬ Catalog.NullByNature ⟨maybeTypes, maybeModels⟩ ⟨102⟩ := by
  have union : maybeTypes.unionMembers? ⟨102⟩ = some [.ofIntrinsic .number, ⟨101⟩] := rfl
  rintro (nullish | unknown)
  · have reaches : Catalog.Reaches ⟨maybeTypes, maybeModels⟩ ⟨102⟩ (.ofIntrinsic .number) :=
      .member union List.mem_cons_self (.here _)
    cases nullish _ reaches rfl rfl
  · obtain ⟨m, hm, unknown⟩ := (Catalog.reaches_union_iff union).1 unknown
    rcases List.mem_cons.1 hm with rfl | hm
    · cases unknown.eq_of_intrinsic
    · cases List.mem_singleton.1 hm
      rw [Catalog.reaches_reference_iff rfl rfl, Catalog.reaches_union_iff rfl] at unknown
      obtain ⟨m, hm, unknown⟩ := unknown
      rcases List.mem_cons.1 hm with rfl | hm
      · cases unknown.eq_of_intrinsic
      · cases List.mem_singleton.1 hm
        cases unknown.eq_of_intrinsic

/-- A rule that never allows `null` does not keep `null` out of the types of controls, even where
neither `null` nor `unknown` is the nature of the declared type. -/
theorem not_forall_not_admitsNull :
    ¬ ∀ (models : Definitions) (mode : Mode) (hint : Hint) (model : TypeId)
      (types after : TypeTable) (tree : DerivedForm) (steps : List PathStep)
      (value declared : TypeId),
      Catalog.WellFormed ⟨types, models⟩ → mode.nullable = .never →
      derive models mode hint model types = (.ok tree, after) →
      tree.root.follow? steps = some (.control value) →
      Catalog.declaredAt? ⟨types, models⟩ model steps = some declared →
      ¬ Catalog.NullByNature ⟨types, models⟩ declared →
      ¬ Catalog.AdmitsNull ⟨after, models⟩ value := by
  intro always
  have text : Catalog.Reaches ⟨maybeTypes, maybeModels⟩ ⟨101⟩ TypeId.null :=
    .body rfl rfl (.member rfl List.mem_cons_self (.here _))
  have admits : Catalog.AdmitsNull ⟨maybeTypes, maybeModels⟩ ⟨102⟩ :=
    Or.inl (.member rfl (List.mem_cons_of_mem _ List.mem_cons_self) text)
  exact always maybeModels ⟨.never, .never⟩ .unspecified ⟨103⟩ maybeTypes maybeTypes _ [.field "a"]
    ⟨102⟩ ⟨102⟩ (by decide) rfl derive_maybe rfl rfl not_nullByNature_maybe admits

end DerivedForm

end ModelForms
