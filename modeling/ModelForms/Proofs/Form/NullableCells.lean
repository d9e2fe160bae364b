import ModelForms.Proofs.Form.Defects
import ModelForms.Proofs.Tree.NullFree

/-!
# Cells that may be null

A cell that may be null is a mismatch where its type has no `null`.  `Catalog.includesNull` decides
that: it follows the references that a type starts with, and looks for `null` and `unknown` among
the alternatives there.  It does not follow a reference that is an alternative itself, as matching
does, so it sees the `null` of an alternative only if that alternative is no alias.

Where all aliases lead somewhere, a type admits `null` through an alternative that is no alias or
through one that is.  The first way is what is decided (`includesNull_iff_admitsNullOpenly`), and so
a cell that may be null is reported exactly where there is no such alternative.
-/

namespace ModelForms

namespace Catalog

/-- A type comes to `null` or `unknown` through an alternative that is no alias. -/
def AdmitsNullOpenly (catalog : Catalog) (type : TypeId) : Prop :=
  ∃ m ∈ catalog.alternatives type, catalog.types.referenced? m = none ∧ catalog.AdmitsNull m

/-- A type comes to `null` or `unknown` through an alternative that is an alias. -/
def AdmitsNullByAlias (catalog : Catalog) (type : TypeId) : Prop :=
  ∃ m ∈ catalog.alternatives type, catalog.types.referenced? m ≠ none ∧ catalog.AdmitsNull m

section

variable {catalog : Catalog} {type : TypeId}

theorem admitsNull_iff_openly_or_byAlias :
    catalog.AdmitsNull type ↔ catalog.AdmitsNullOpenly type ∨ catalog.AdmitsNullByAlias type := by
  rw [(AdmitsNull.additive catalog).iff_exists_alternative type]
  constructor
  · rintro ⟨m, mem, admits⟩
    by_cases proper : catalog.types.referenced? m = none
    · exact Or.inl ⟨m, mem, proper, admits⟩
    · exact Or.inr ⟨m, mem, proper, admits⟩
  · rintro (⟨m, mem, _, admits⟩ | ⟨m, mem, _, admits⟩)
    · exact ⟨m, mem, admits⟩
    · exact ⟨m, mem, admits⟩

/-- What is neither a union nor an alias admits `null` only as `null` or `unknown` itself. -/
theorem admitsNull_iff_of_not_unfolds (notUnion : catalog.types.unionMembers? type = none)
    (notAlias : catalog.types.referenced? type = none) :
    catalog.AdmitsNull type ↔ type = TypeId.null ∨ type = TypeId.unknown := by
  have here {target : TypeId} : catalog.Reaches type target ↔ type = target := by
    refine ⟨fun reaches => ?_, fun same => same ▸ .here type⟩
    cases reaches with
    | here => rfl
    | member union =>
      rw [notUnion] at union
      cases union
    | body reference =>
      rw [notAlias] at reference
      cases reference
  rw [AdmitsNull, here, here]

theorem includesNull_iff :
    catalog.includesNull type = true
      ↔ TypeId.null ∈ catalog.alternatives type ∨ TypeId.unknown ∈ catalog.alternatives type := by
  simp [includesNull]

theorem WellFormed.includesNull_iff_openly (wf : catalog.WellFormed) :
    catalog.includesNull type = true ↔ catalog.AdmitsNullOpenly type := by
  rw [includesNull_iff]
  constructor
  · rintro (mem | mem)
    · exact ⟨_, mem, rfl, Or.inl (.here _)⟩
    · exact ⟨_, mem, rfl, Or.inr (.here _)⟩
  · rintro ⟨m, mem, notAlias, admits⟩
    have notUnion := wf.unionMembers?_of_mem_alternatives mem
    rcases (admitsNull_iff_of_not_unfolds notUnion notAlias).1 admits with rfl | rfl
    · exact Or.inl mem
    · exact Or.inr mem

/-- A cell of a form that may be null is reported exactly where its type does not openly admit
`null`. -/
theorem WellFormed.nullable_mem_mismatches_iff (wf : catalog.WellFormed) {tree : TreeNode}
    (distinct : tree.Distinct) (form : Control) (steps : List PathStep) :
    .nullable ⟨steps⟩ ∈ Conformance.mismatches catalog .root tree form
      ↔ ∃ type c, tree.follow? steps = some (.control type) ∧ form.at? steps = some (.cell c)
        ∧ c.nonNullable = false ∧ ¬ catalog.AdmitsNullOpenly type := by
  rw [mem_mismatches_iff_defect distinct]
  constructor
  · rintro ⟨walked, node, control, follows, found, flaw⟩
    cases flaw with
    | nullable mayBeNull without =>
      refine ⟨_, _, follows, found, mayBeNull, ?_⟩
      rw [← wf.includesNull_iff_openly, without]
      exact Bool.false_ne_true
  · rintro ⟨type, c, follows, found, mayBeNull, notOpenly⟩
    rw [← wf.includesNull_iff_openly, Bool.not_eq_true] at notOpenly
    exact ⟨steps, .control type, .cell c, follows, found, .nullable mayBeNull notOpenly⟩

/-- The `null` of a type is seen exactly if an alternative that is no alias admits it, and it is
missed where only aliases do.  So a cell that may be null is reported exactly where no alternative
of the first kind admits `null`. -/
theorem includesNull_iff_admitsNullOpenly (wf : catalog.WellFormed) :
    (∀ type, catalog.includesNull type = true ↔ catalog.AdmitsNullOpenly type)
    ∧ (∀ type, catalog.AdmitsNull type
        ↔ catalog.AdmitsNullOpenly type ∨ catalog.AdmitsNullByAlias type)
    ∧ ∀ (tree : TreeNode) (form : Control) (steps : List PathStep), tree.Distinct →
      (.nullable ⟨steps⟩ ∈ Conformance.mismatches catalog .root tree form
        ↔ ∃ type c, tree.follow? steps = some (.control type) ∧ form.at? steps = some (.cell c)
          ∧ c.nonNullable = false ∧ ¬ catalog.AdmitsNullOpenly type) :=
  ⟨fun _ => wf.includesNull_iff_openly, fun _ => admitsNull_iff_openly_or_byAlias,
    fun _ form steps distinct => wf.nullable_mem_mismatches_iff distinct form steps⟩

end

end Catalog

namespace DerivedForm

/-- A cell that may be null is reported although `null` is one of the type behind the alias, and one
of the alias itself is not. -/
theorem includesNull_iff_admitsNullOpenly_maybe :
    Catalog.AdmitsNullOpenly ⟨maybeTypes, maybeModels⟩ ⟨101⟩
      ∧ .nullable ⟨[]⟩ ∈ Conformance.mismatches ⟨maybeTypes, maybeModels⟩ .root
          (.control ⟨102⟩) (.cell (.new .null false)) := by
  have wf : Catalog.WellFormed ⟨maybeTypes, maybeModels⟩ := by decide
  obtain ⟨seen, _, reported⟩ := Catalog.includesNull_iff_admitsNullOpenly wf
  have missed : ¬ Catalog.AdmitsNullOpenly ⟨maybeTypes, maybeModels⟩ ⟨102⟩ := fun admits => by
    cases (seen ⟨102⟩).2 admits
  exact ⟨(seen ⟨101⟩).1 rfl,
    (reported _ _ [] (.control _)).2 ⟨⟨102⟩, _, rfl, rfl, rfl, missed⟩⟩

/-- Not every `null` that is reached through references and unions is seen, where every chain of
aliases ends. -/
theorem not_forall_includesNull_iff_admitsNull :
    ¬ ∀ (catalog : Catalog) (type : TypeId), catalog.WellFormed → catalog.Unbroken →
      (catalog.includesNull type = true ↔ catalog.AdmitsNull type) := by
  intro always
  have behind : Catalog.Reaches ⟨maybeTypes, maybeModels⟩ ⟨101⟩ TypeId.null :=
    .body rfl rfl (.member rfl List.mem_cons_self (.here _))
  have admits : Catalog.AdmitsNull ⟨maybeTypes, maybeModels⟩ ⟨102⟩ :=
    Or.inl (.member rfl (List.mem_cons_of_mem _ List.mem_cons_self) behind)
  cases (always ⟨maybeTypes, maybeModels⟩ ⟨102⟩ (by decide) (by decide)).2 admits

end DerivedForm

end ModelForms
