import ModelForms.Proofs.Tree.Rules

/-!
# Models that contain themselves

`Catalog.Below` relates the declared type of a position to those of the positions just below it, as
the shapes of types give them.  Hints can only leave positions out.  So if a declared type comes to
a node under a hint that describes nothing below, there is no endless way down from it
(`acc_of_yields`).

The guard holds the models of the groups around a position.  `Encloses` is what is known of each of
them: a group that stands for the model lies further up.  All groups that stand for one model have
the same shape, so a position whose own model encloses it has an endless way down
(`not_acc_of_encloses`).
-/

namespace ModelForms

namespace NodePlan

/-- What becomes a control unasked is neither an object nor an array. -/
theorem not_structural_of_ofClass? {type : Catalog.TypeClass} {kind : Option NodeKind}
    (h : ofClass? type kind = some .control) (unasked : kind ≠ some .control) :
    (∀ properties, type ≠ .object properties) ∧ ∀ element, type ≠ .array element := by
  unfold ofClass? at h
  split at h <;> simp_all

end NodePlan

/-- A hint leaves nothing out below a position: it says nothing of what lies below and does not ask
for a control. -/
structure Hint.Silent (hint : Hint) : Prop where
  below : hint.describesBelow = false
  here : hint.kind? ≠ some .control

namespace Hint.Silent

theorem unspecified : Silent .unspecified := ⟨rfl, by simp [kind?]⟩

theorem field {hint : Hint} (silent : hint.Silent) (name : String) : (hint.field name).Silent := by
  have := silent.below
  cases hint with
  | unspecified | kind => exact unspecified
  | fields | elements => cases this

theorem element {hint : Hint} (silent : hint.Silent) : hint.element.Silent := by
  have := silent.below
  cases hint with
  | unspecified | kind => exact unspecified
  | fields | elements => cases this

end Hint.Silent

namespace Catalog

/-! ## Ways down -/

/-- A declared type is that of a position just below one of another declared type. -/
inductive Below (catalog : Catalog) : TypeId → TypeId → Prop
  | property {declared : TypeId} {properties : List Property} {p : Property}
      (shape : catalog.shape declared = .object properties) (mem : p ∈ properties) :
      Below catalog p.type declared
  | element {declared element : TypeId} (shape : catalog.shape declared = .array element) :
      Below catalog element declared

theorem Below.of_shape_eq {catalog : Catalog} {below declared other : TypeId}
    (same : catalog.shape declared = catalog.shape other) (h : catalog.Below below declared) :
    catalog.Below below other := by
  cases h with
  | property shape mem => exact .property (same.symm.trans shape) mem
  | element shape => exact .element (same.symm.trans shape)

mutual

/-- A declared type with a node that no hint cuts short has no endless way down. -/
theorem acc_of_yields {catalog : Catalog} {mode : Mode} {declared : TypeId} {hint : Hint}
    {nullable : Bool} {node : TreeNode} (silent : hint.Silent) :
    catalog.Yields mode declared hint nullable node → Acc catalog.Below declared
  | .control plan typed => by
    obtain ⟨notObject, notArray⟩ := NodePlan.not_structural_of_ofClass? plan silent.here
    refine .intro _ fun below h => ?_
    cases h with
    | property shape mem => exact absurd shape (notObject _)
    | element shape => exact absurd shape (notArray _)
  | .group shape below => by
    have parts := acc_of_yieldsMembers silent below
    refine .intro _ fun below h => ?_
    cases h with
    | property shape' mem =>
      rw [shape] at shape'
      cases shape'
      exact parts _ mem
    | element shape' =>
      rw [shape] at shape'
      cases shape'
  | .array shape below => by
    have part := acc_of_yields silent.element below
    refine .intro _ fun below h => ?_
    cases h with
    | property shape' mem =>
      rw [shape] at shape'
      cases shape'
    | element shape' =>
      rw [shape] at shape'
      cases shape'
      exact part

theorem acc_of_yieldsMembers {catalog : Catalog} {mode : Mode} {hint : Hint}
    {properties : List Property} {members : List (String × (Bool × TreeNode))}
    (silent : hint.Silent) :
    catalog.YieldsMembers mode hint properties members →
      ∀ p ∈ properties, Acc catalog.Below p.type
  | .nil => by simp
  | .cons decides head tail => by
    have first := acc_of_yields (silent.field _) head
    have others := acc_of_yieldsMembers silent tail
    exact List.forall_mem_cons.2 ⟨first, others⟩

end

/-! ## Named models -/

section

variable {catalog : Catalog} {declared : TypeId} {definition : ModelId}

/-- Nothing is set aside of an object. -/
theorem shape_eq_of_classify_eq_object {properties : List Property}
    (h : catalog.classify declared = .object properties) :
    catalog.shape declared = .object properties := by
  have hstrip : catalog.strip declared = .single declared := by
    unfold classify at h
    split at h
    next target hresolve =>
      have found := classOfEntry_eq_object_iff.1 h
      simp [strip, resolved, hresolve, TypeTable.unionMembers?, found]
    next => cases h
  rw [shape, hstrip]
  exact h

/-- A declared type that names a model refers to it, or is a union of nothing else with `null` and
`undefined`. -/
theorem WellFormed.exists_reference (wf : catalog.WellFormed)
    (h : catalog.namedModel? declared = some definition) :
    ∃ reference, catalog.types.lookup reference = some (.reference definition)
      ∧ (reference = declared ∨ ∃ members, catalog.types.unionMembers? declared = some members
        ∧ members.filter (!·.isNullish) = [reference]) := by
  unfold namedModel? namedModelWithin at h
  split at h
  next found =>
    cases h
    exact ⟨declared, found, Or.inl rfl⟩
  next members found =>
    have union := TypeTable.unionMembers?_eq_some_iff.2 found
    split at h
    next only hfilter =>
      have hmem : only ∈ members :=
        (List.mem_filter.1 (hfilter ▸ List.mem_singleton_self only)).1
      have flat := (wf.types.normalUnion union).flat only hmem
      cases hsize : catalog.types.size with
      | zero => simp [namedModelWithin, hsize] at h
      | succ size =>
        rw [hsize, namedModelWithin] at h
        split at h
        next found' =>
          cases h
          exact ⟨only, found', Or.inr ⟨members, union, hfilter⟩⟩
        next found' =>
          rw [TypeTable.unionMembers?_eq_some_iff.2 found'] at flat
          cases flat
        next => cases h
    next => cases h
  next => cases h

/-- The references to a model have the shape of an object. -/
def ModelHas (catalog : Catalog) (definition : ModelId) (properties : List Property) : Prop :=
  ∃ reference, catalog.types.lookup reference = some (.reference definition)
    ∧ catalog.shape reference = .object properties

theorem ModelHas.growsTo {later : Catalog} (grows : catalog.GrowsTo later)
    (wf : catalog.WellFormed) {properties : List Property}
    (h : catalog.ModelHas definition properties) : later.ModelHas definition properties := by
  obtain ⟨reference, found, shape⟩ := h
  refine ⟨reference, grows.types.lookup found, ?_⟩
  rw [grows.shape_eq wf (TypeTable.knows_of_lookup found)]
  exact shape

theorem ModelHas.unique (wf : catalog.WellFormed) {properties others : List Property}
    (h : catalog.ModelHas definition properties) (h' : catalog.ModelHas definition others) :
    properties = others := by
  obtain ⟨reference, found, shape⟩ := h
  obtain ⟨other, found', shape'⟩ := h'
  have same : reference = other := wf.types.lookup_injective found found' (by simp)
  subst same
  rw [shape] at shape'
  cases shape'
  rfl

/-- An object that names a model has the shape of the references to the model. -/
theorem WellFormed.modelHas (wf : catalog.WellFormed)
    (h : catalog.namedModel? declared = some definition) {properties : List Property}
    (shape : catalog.shape declared = .object properties) :
    catalog.ModelHas definition properties := by
  obtain ⟨reference, found, rfl | ⟨members, union, only⟩⟩ := wf.exists_reference h
  · exact ⟨reference, found, shape⟩
  · have several := (wf.types.normalUnion union).several
    have hreference : catalog.types.referenced? declared = none := by
      simp [TypeTable.referenced?, TypeTable.unionMembers?_eq_some_iff.1 union]
    have hresolved : catalog.resolved declared = declared := by
      simp only [resolved, resolve_of_referenced?_eq_none hreference]
    have hlength : 1 ≠ members.length := by omega
    have hstrip : catalog.strip declared = .single reference := by
      simp [strip, hresolved, union, only, hlength]
    have hclass : catalog.classify reference = .object properties := by
      rw [← shape, Catalog.shape, hstrip]
    exact ⟨reference, found, shape_eq_of_classify_eq_object hclass⟩

end

/-! ## Models around a position -/

/-- A model is that of an object somewhere above a declared type. -/
def Encloses (catalog : Catalog) (definition : ModelId) (declared : TypeId) : Prop :=
  ∃ above properties, Relation.TransGen catalog.Below declared above
    ∧ catalog.shape above = .object properties ∧ catalog.ModelHas definition properties

section

variable {catalog : Catalog} {declared part : TypeId} {definition : ModelId}
  {properties : List Property}

theorem Encloses.below (h : catalog.Encloses definition declared)
    (below : catalog.Below part declared) : catalog.Encloses definition part := by
  obtain ⟨above, properties, way, shape, model⟩ := h
  exact ⟨above, properties, .trans (.single below) way, shape, model⟩

theorem ModelHas.encloses (model : catalog.ModelHas definition properties)
    (shape : catalog.shape declared = .object properties) (below : catalog.Below part declared) :
    catalog.Encloses definition part :=
  ⟨declared, properties, .single below, shape, model⟩

/-- An object of a model that encloses it lies below itself. -/
theorem not_acc_of_encloses (wf : catalog.WellFormed)
    (model : catalog.ModelHas definition properties)
    (shape : catalog.shape declared = .object properties)
    (encloses : catalog.Encloses definition declared) : ¬ Acc catalog.Below declared := by
  obtain ⟨above, others, way, habove, model'⟩ := encloses
  have hshape : catalog.shape above = catalog.shape declared := by
    rw [habove, shape, model.unique wf model']
  have cycle : Relation.TransGen catalog.Below declared declared := by
    cases way with
    | single step => exact .single (step.of_shape_eq hshape)
    | tail steps step => exact .tail steps (step.of_shape_eq hshape)
  have irreflexive {x : TypeId} (acc : Acc (Relation.TransGen catalog.Below) x) :
      ¬ Relation.TransGen catalog.Below x x := by
    induction acc with
    | intro x _ ih => exact fun h => ih x h h
  exact fun acc => irreflexive acc.transGen cycle

end

end Catalog

end ModelForms
