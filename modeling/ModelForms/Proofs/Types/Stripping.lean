import ModelForms.Proofs.Types.Reach

/-!
# What is left of a type

A position of a form is decided by its declared type with `null` and `undefined` set aside, and the
value of a control has that type, with `null` added where the mode says so.  Both types are
interned while a form is derived.  `StrippedTo` and `ControlTypeOf` say of one catalog which ids
they come to, so they can be said of any later catalog too.  `withoutNullish_spec` and
`controlType_spec` are all that later modules use of the two computations.

The declared type counts only through its alternatives.  `kept` are those that are left, and
`StrippedTo.iff_exists` and `ControlTypeOf.iff_exists` say what that means for an additive property:
what is left of a type has it exactly if a kept alternative has.

`shape` is what a declared type is when references are followed and `null` and `undefined` are set
aside.  It needs nothing interned, and it is what the interned type is classified as
(`classify_of_strippedTo`).

Derivations add to one table.  `Over` says of a table that it is well-formed and has grown from a
given one, and both computations keep that.
-/

namespace ModelForms

namespace Catalog

/-! ## Stripping -/

/-- The alternatives of a type that are neither `null` nor `undefined`, or all of them if there is
nothing else. -/
def kept (catalog : Catalog) (id : TypeId) : List TypeId :=
  let rest := (catalog.alternatives id).filter (!·.isNullish)
  if rest.isEmpty then catalog.alternatives id else rest

theorem mem_alternatives_of_mem_kept {catalog : Catalog} {id m : TypeId}
    (h : m ∈ catalog.kept id) : m ∈ catalog.alternatives id := by
  simp only [kept] at h
  split at h
  · exact h
  · exact (List.mem_filter.1 h).1

/-- The three ways in which a type is stripped. -/
inductive StripCase (catalog : Catalog) (id : TypeId) : Prop
  /-- The type is left alone. -/
  | whole (strips : catalog.strip id = .single id)
      (kept : catalog.kept id = catalog.alternatives id)
  /-- One member of a union is left. -/
  | only (m : TypeId) (strips : catalog.strip id = .single m) (kept : catalog.kept id = [m])
  /-- Several members of a union are left. -/
  | several (ms : List TypeId) (strips : catalog.strip id = .several ms)
      (kept : catalog.kept id = ms) (normal : catalog.types.NormalUnion ms)

theorem WellFormed.stripCase {catalog : Catalog} (wf : catalog.WellFormed) (id : TypeId) :
    catalog.StripCase id := by
  cases hu : catalog.types.unionMembers? (catalog.resolved id) with
  | none =>
    have halt : catalog.alternatives id = [catalog.resolved id] := by simp [alternatives, hu]
    refine .whole (by simp [strip, hu]) ?_
    unfold kept
    rw [halt]
    by_cases h : (catalog.resolved id).isNullish <;> simp [h]
  | some members =>
    have halt : catalog.alternatives id = members := by simp [alternatives, hu]
    by_cases hempty : (members.filter (!·.isNullish)).isEmpty
    · exact .whole (by simp [strip, hu, hempty]) (by simp [kept, halt, hempty])
    · by_cases hall : (members.filter (!·.isNullish)).length = members.length
      · refine .whole (by simp [strip, hu, hall]) ?_
        simp only [kept, halt, hempty, Bool.false_eq_true, if_false]
        exact List.filter_eq_self.2 (List.length_filter_eq_length_iff.1 hall)
      · have hkept : catalog.kept id = members.filter (!·.isNullish) := by
          simp [kept, halt, hempty]
        cases hl : members.filter (!·.isNullish) with
        | nil => simp [hl] at hempty
        | cons first rest =>
          rw [hl] at hkept hall
          cases rest with
          | nil =>
            refine .only first ?_ hkept
            simp only [strip, hu, hl, List.isEmpty_cons, hall, Bool.false_or, decide_false,
              Bool.false_eq_true, if_false]
          | cons second more =>
            have sub : (first :: second :: more).Sublist members := hl ▸ List.filter_sublist
            refine .several _ ?_ hkept ((wf.types.normalUnion hu).sublist sub (by simp))
            simp only [strip, hu, hl, List.isEmpty_cons, hall, Bool.false_or, decide_false,
              Bool.false_eq_true, if_false]

/-- The type that is left of another. -/
def StrippedTo (catalog : Catalog) (id stripped : TypeId) : Prop :=
  match catalog.strip id with
  | .single only => stripped = only
  | .several ms => catalog.types.UnionOf ms stripped

/-- The three ways in which a type is what is left of another. -/
inductive LeftOf (catalog : Catalog) (id : TypeId) : TypeId → Prop
  /-- Nothing is set aside. -/
  | whole (strips : catalog.strip id = .single id)
      (kept : catalog.kept id = catalog.alternatives id) : LeftOf catalog id id
  /-- One member of a union is left. -/
  | only {m : TypeId} (strips : catalog.strip id = .single m) (kept : catalog.kept id = [m]) :
      LeftOf catalog id m
  /-- A union of several members is left. -/
  | several {stripped : TypeId} (strips : catalog.strip id = .several (catalog.kept id))
      (stored : catalog.types.lookup stripped = some (.union (catalog.kept id))) :
      LeftOf catalog id stripped

theorem StrippedTo.leftOf {catalog : Catalog} (wf : catalog.WellFormed) {id stripped : TypeId}
    (h : catalog.StrippedTo id stripped) : catalog.LeftOf id stripped := by
  unfold StrippedTo at h
  cases wf.stripCase id with
  | whole strips kept =>
    rw [strips] at h
    cases h
    exact .whole strips kept
  | only m strips kept =>
    rw [strips] at h
    cases h
    exact .only strips kept
  | several ms strips kept normal =>
    subst kept
    rw [strips] at h
    exact .several strips (normal.unionOf_iff.1 h)

/-- What is left of a type has an additive property exactly if a kept alternative has. -/
theorem StrippedTo.iff_exists {catalog : Catalog} (wf : catalog.WellFormed)
    {holds : TypeId → Prop} (additive : catalog.Additive holds) {id stripped : TypeId}
    (h : catalog.StrippedTo id stripped) : holds stripped ↔ ∃ m ∈ catalog.kept id, holds m := by
  cases h.leftOf wf with
  | whole strips kept =>
    rw [kept]
    exact additive.iff_exists_alternative id
  | only strips kept => simp [kept]
  | several strips stored =>
    exact additive.union _ _ (TypeTable.unionMembers?_eq_some_iff.2 stored)

/-- The type of a control's value over a declared type. -/
def ControlTypeOf (catalog : Catalog) (id : TypeId) (nullable : Bool) (value : TypeId) : Prop :=
  ∃ stripped, catalog.StrippedTo id stripped
    ∧ if nullable then catalog.types.UnionOf [stripped, TypeId.null] value else value = stripped

/-- The type of a control's value has an additive property exactly if a kept alternative has, or if
`null` has and was added. -/
theorem ControlTypeOf.iff_exists {catalog : Catalog} (wf : catalog.WellFormed)
    {holds : TypeId → Prop} (additive : catalog.Additive holds) {id value : TypeId}
    {nullable : Bool} (h : catalog.ControlTypeOf id nullable value) :
    holds value ↔ (∃ m ∈ catalog.kept id, holds m) ∨ nullable = true ∧ holds TypeId.null := by
  obtain ⟨stripped, hs, hv⟩ := h
  rw [← hs.iff_exists wf additive]
  cases nullable with
  | false =>
    simp only [Bool.false_eq_true, if_false] at hv
    simp [hv]
  | true =>
    simp only [if_true] at hv
    rw [hv.iff_exists additive.toAdditive]
    simp

/-! ## The two computations -/

theorem withoutNullish_eq (models : Definitions) (id : TypeId) (table : TypeTable) :
    Interning.withoutNullish models id table =
      match strip ⟨table, models⟩ id with
      | .single only => (only, table)
      | .several ms => Interning.union ms table := by
  show (match strip ⟨table, models⟩ id with
    | .single only => (pure only : Interning TypeId)
    | .several ms => Interning.union ms) table = _
  cases strip ⟨table, models⟩ id with
  | single only => rfl
  | several ms => rfl

theorem controlType_eq (models : Definitions) (id : TypeId) (nullable : Bool) (table : TypeTable) :
    Interning.controlType models id nullable table =
      if nullable then
        Interning.union [(Interning.withoutNullish models id table).1, TypeId.null]
          (Interning.withoutNullish models id table).2
      else Interning.withoutNullish models id table := by
  unfold Interning.controlType
  show (if nullable then Interning.nullable (Interning.withoutNullish models id table).1
    else (pure (Interning.withoutNullish models id table).1 : Interning TypeId))
      (Interning.withoutNullish models id table).2 = _
  generalize Interning.withoutNullish models id table = stripped
  cases nullable with
  | false => rfl
  | true => rfl

section

variable {catalog : Catalog} {id : TypeId}

theorem WellFormed.knows_kept (wf : catalog.WellFormed) (known : catalog.types.Knows id)
    {m : TypeId} (h : m ∈ catalog.kept id) : catalog.types.Knows m :=
  wf.knows_alternative known (mem_alternatives_of_mem_kept h)

theorem StrippedTo.growsTo {later : Catalog} (grows : catalog.GrowsTo later)
    (wf : catalog.WellFormed) (known : catalog.types.Knows id) {stripped : TypeId}
    (h : catalog.StrippedTo id stripped) : later.StrippedTo id stripped := by
  unfold StrippedTo at h ⊢
  rw [grows.strip_eq wf known]
  cases wf.stripCase id with
  | whole strips kept =>
    rw [strips] at h ⊢
    exact h
  | only m strips kept =>
    rw [strips] at h ⊢
    exact h
  | several ms strips kept normal =>
    rw [strips] at h ⊢
    exact h.growsTo grows.types normal.known

theorem StrippedTo.knows (wf : catalog.WellFormed) (known : catalog.types.Knows id)
    {stripped : TypeId} (h : catalog.StrippedTo id stripped) : catalog.types.Knows stripped := by
  cases h.leftOf wf with
  | whole => exact known
  | only strips kept => exact wf.knows_kept known (by simp [kept])
  | several strips stored => exact TypeTable.knows_of_lookup stored

theorem ControlTypeOf.knows (wf : catalog.WellFormed) (known : catalog.types.Knows id)
    {nullable : Bool} {value : TypeId} (h : catalog.ControlTypeOf id nullable value) :
    catalog.types.Knows value := by
  obtain ⟨stripped, hs, hv⟩ := h
  cases nullable with
  | false => exact hv ▸ hs.knows wf known
  | true =>
    refine TypeTable.UnionOf.knows wf.types (fun m hm => ?_) hv
    rcases List.mem_cons.1 hm with rfl | hm
    · exact hs.knows wf known
    · exact List.mem_singleton.1 hm ▸ TypeTable.knows_intrinsic _ .null

theorem ControlTypeOf.growsTo {later : Catalog} (grows : catalog.GrowsTo later)
    (wf : catalog.WellFormed) (known : catalog.types.Knows id) {nullable : Bool} {value : TypeId}
    (h : catalog.ControlTypeOf id nullable value) : later.ControlTypeOf id nullable value := by
  obtain ⟨stripped, hs, hv⟩ := h
  refine ⟨stripped, hs.growsTo grows wf known, ?_⟩
  cases nullable with
  | false => exact hv
  | true =>
    refine TypeTable.UnionOf.growsTo grows.types (fun m hm => ?_) hv
    rcases List.mem_cons.1 hm with rfl | hm
    · exact hs.knows wf known
    · exact List.mem_singleton.1 hm ▸ TypeTable.knows_intrinsic _ .null

/-- One type is left of a type. -/
theorem StrippedTo.unique (wf : catalog.WellFormed) {stripped other : TypeId}
    (h : catalog.StrippedTo id stripped) (h' : catalog.StrippedTo id other) :
    stripped = other := by
  unfold StrippedTo at h h'
  cases strips : catalog.strip id with
  | single only =>
    rw [strips] at h h'
    exact h.trans h'.symm
  | several ms =>
    rw [strips] at h h'
    exact h.unique wf.types h'

/-- The value of a control over a declared type has one type. -/
theorem ControlTypeOf.unique (wf : catalog.WellFormed) {nullable : Bool} {value other : TypeId}
    (h : catalog.ControlTypeOf id nullable value) (h' : catalog.ControlTypeOf id nullable other) :
    value = other := by
  obtain ⟨stripped, strips, typed⟩ := h
  obtain ⟨stripped', strips', typed'⟩ := h'
  obtain rfl := strips.unique wf strips'
  cases nullable with
  | false => exact typed.trans typed'.symm
  | true => exact typed.unique wf.types typed'

theorem withoutNullish_spec {table : TypeTable} {models : Definitions}
    (wf : WellFormed ⟨table, models⟩) (known : table.Knows id) :
    table.Made (Interning.withoutNullish models id table).2
        (Interning.withoutNullish models id table).1
      ∧ StrippedTo ⟨(Interning.withoutNullish models id table).2, models⟩ id
          (Interning.withoutNullish models id table).1 := by
  rw [withoutNullish_eq]
  cases wf.stripCase id with
  | whole strips kept =>
    simp only [strips]
    exact ⟨⟨wf.types, .refl table, known⟩, by simp only [StrippedTo, strips]⟩
  | only m strips kept =>
    simp only [strips]
    have hm : m ∈ Catalog.kept ⟨table, models⟩ id := by simp [kept]
    exact ⟨⟨wf.types, .refl table, wf.knows_kept known hm⟩, by simp only [StrippedTo, strips]⟩
  | several ms strips kept normal =>
    simp only [strips]
    obtain ⟨made, unionOf⟩ := TypeTable.union_spec wf.types normal.known
    have grows := GrowsTo.of_types made.adds.growsTo models
    refine ⟨made, ?_⟩
    unfold StrippedTo
    rw [grows.strip_eq wf known, strips]
    exact unionOf

theorem controlType_spec {table : TypeTable} {models : Definitions}
    (wf : WellFormed ⟨table, models⟩) (known : table.Knows id) (nullable : Bool) :
    table.Made (Interning.controlType models id nullable table).2
        (Interning.controlType models id nullable table).1
      ∧ ControlTypeOf ⟨(Interning.controlType models id nullable table).2, models⟩ id nullable
          (Interning.controlType models id nullable table).1 := by
  obtain ⟨made, stripped⟩ := withoutNullish_spec wf known
  rw [controlType_eq]
  cases nullable with
  | false =>
    rw [if_neg Bool.false_ne_true]
    exact ⟨made, _, stripped, rfl⟩
  | true =>
    rw [if_pos rfl]
    have both : ∀ m ∈ [(Interning.withoutNullish models id table).1, TypeId.null],
        (Interning.withoutNullish models id table).2.Knows m := by
      simp only [List.forall_mem_cons, List.not_mem_nil, false_imp_iff, implies_true, and_true]
      exact ⟨made.knows, TypeTable.knows_intrinsic _ .null⟩
    obtain ⟨again, unionOf⟩ := TypeTable.union_spec made.wellFormed both
    have wf' := wf.of_types made.adds.growsTo made.wellFormed
    have grows := GrowsTo.of_types again.adds.growsTo models
    exact ⟨⟨again.wellFormed, made.adds.trans again.adds, again.knows⟩, _,
      stripped.growsTo grows wf' (made.adds.growsTo.knows known), unionOf⟩

end

/-! ## Shapes -/

/-- What a declared type is when references are followed and `null` and `undefined` are set
aside. -/
def shape (catalog : Catalog) (id : TypeId) : TypeClass :=
  match catalog.strip id with
  | .single only => catalog.classify only
  | .several ms => .union ms

theorem classify_of_strippedTo {catalog : Catalog} (wf : catalog.WellFormed)
    {id stripped : TypeId} (h : catalog.StrippedTo id stripped) :
    catalog.classify stripped = catalog.shape id := by
  unfold shape
  cases h.leftOf wf with
  | whole strips | only strips => rw [strips]
  | several strips stored =>
    have notReference : catalog.types.referenced? stripped = none := by
      simp [TypeTable.referenced?, stored]
    rw [strips, classify_of_lookup stored notReference, classOfEntry]

theorem GrowsTo.shape_eq {earlier later : Catalog} (grows : earlier.GrowsTo later)
    (wf : earlier.WellFormed) {id : TypeId} (known : earlier.types.Knows id) :
    later.shape id = earlier.shape id := by
  unfold shape
  rw [grows.strip_eq wf known]
  cases wf.stripCase id with
  | whole strips kept =>
    rw [strips]
    exact grows.classify_eq wf known
  | only m strips kept =>
    rw [strips]
    exact grows.classify_eq wf (wf.knows_kept known (by simp [kept]))
  | several ms strips kept normal => rw [strips]

theorem classOfEntry_eq_object_iff {entry : Option TypeEntry} {properties : List Property} :
    classOfEntry entry = .object properties ↔ entry = some (.object properties) := by
  constructor
  · intro h
    unfold classOfEntry at h
    split at h <;> simp_all
  · rintro rfl
    rfl

/-- What comes to an object is known. -/
theorem knows_of_classify_eq_object {catalog : Catalog} {id : TypeId}
    {properties : List Property} (h : catalog.classify id = .object properties) :
    catalog.types.Knows id := by
  unfold classify at h
  split at h
  next target hresolve =>
    cases leadsTo_of_resolve hresolve with
    | here => exact TypeTable.knows_of_lookup (classOfEntry_eq_object_iff.1 h)
    | onwards reference =>
      exact TypeTable.knows_of_lookup (TypeTable.referenced?_eq_some_iff.1 reference)
  next => cases h

theorem classOfEntry_eq_array_iff {entry : Option TypeEntry} {element : TypeId} :
    classOfEntry entry = .array element ↔ entry = some (.array element) := by
  constructor
  · intro h
    unfold classOfEntry at h
    split at h <;> simp_all
  · rintro rfl
    rfl

section

variable {catalog : Catalog} {id : TypeId}

theorem mem_kept_of_mem_alternatives {m : TypeId} (h : m ∈ catalog.alternatives id)
    (proper : m.isNullish = false) : m ∈ catalog.kept id := by
  have left : m ∈ (catalog.alternatives id).filter (!·.isNullish) :=
    List.mem_filter.2 ⟨h, by simp [proper]⟩
  simp only [kept]
  split
  · exact h
  · exact left

theorem kept_eq_singleton (notReference : catalog.types.referenced? id = none)
    (notUnion : catalog.types.unionMembers? id = none) : catalog.kept id = [id] := by
  have alternatives := alternatives_eq_singleton notReference notUnion
  by_cases nullish : id.isNullish <;> simp [kept, alternatives, nullish]

theorem WellFormed.kept_ne_nil (wf : catalog.WellFormed) (id : TypeId) : catalog.kept id ≠ [] := by
  have some_alternative : catalog.alternatives id ≠ [] := by
    rcases catalog.alternatives_cases id with ⟨_, single⟩ | union
    · simp [single]
    · intro empty
      have several := (wf.types.normalUnion union).several
      simp [empty] at several
  simp only [kept]
  split
  next => exact some_alternative
  next rest => exact fun h => rest (List.isEmpty_iff.2 h)

theorem Unbroken.shape_eq (unbroken : catalog.Unbroken) {target : TypeId}
    (leads : catalog.LeadsTo id target) : catalog.shape id = catalog.shape target := by
  have same := unbroken.classify_eq_of_leadsTo leads
  unfold shape strip
  rw [unbroken.resolved_eq leads]
  cases catalog.types.unionMembers? (catalog.resolved target) with
  | none => exact same
  | some members =>
    by_cases whole : ((members.filter (!·.isNullish)).isEmpty
        || (members.filter (!·.isNullish)).length = members.length) = true
    · simpa only [if_pos whole] using same
    · simp only [if_neg whole]

theorem Unbroken.shape_ne_unresolved (unbroken : catalog.Unbroken) (id : TypeId)
    (definition : ModelId) : catalog.shape id ≠ .unresolved definition := by
  unfold shape
  cases catalog.strip id with
  | single only => exact unbroken.classify_ne_unresolved only definition
  | several ms => nofun

/-- Where one alternative is left of a type, the type is what that alternative is. -/
theorem WellFormed.shape_of_kept_eq_singleton (wf : catalog.WellFormed)
    (unbroken : catalog.Unbroken) {m : TypeId} (h : catalog.kept id = [m]) :
    catalog.shape id = catalog.classify m := by
  unfold shape
  cases wf.stripCase id with
  | whole strips kept =>
    rw [strips]
    rw [kept] at h
    rcases catalog.alternatives_cases id with ⟨_, single⟩ | union
    · cases single.symm.trans h
      show catalog.classify id = _
      rw [unbroken.classify_eq, unbroken.classify_eq,
        ← unbroken.resolved_eq (leadsTo_resolved catalog id)]
    · have several := (wf.types.normalUnion union).several
      rw [h] at several
      exact absurd several (by simp)
  | only m' strips kept =>
    rw [strips]
    rw [kept] at h
    cases h
    rfl
  | several ms strips kept normal =>
    have several := normal.several
    rw [← kept, h] at several
    exact absurd several (by simp)

/-- Where several alternatives are left of a type, the type is their union. -/
theorem WellFormed.exists_shape_eq_union (wf : catalog.WellFormed) (unbroken : catalog.Unbroken)
    (h : 2 ≤ (catalog.kept id).length) : ∃ ms, catalog.shape id = .union ms := by
  unfold shape
  cases wf.stripCase id with
  | whole strips kept =>
    rw [strips]
    rw [kept] at h
    rcases catalog.alternatives_cases id with ⟨_, single⟩ | union
    · simp [single] at h
    · refine ⟨catalog.alternatives id, ?_⟩
      simp only [unbroken.classify_eq, TypeTable.unionMembers?_eq_some_iff.1 union, classOfEntry]
  | only m' strips kept =>
    rw [kept] at h
    exact absurd h (by simp)
  | several ms strips kept normal => exact ⟨ms, by rw [strips]⟩

/-- A shape that is neither a union nor a broken reference is the class of a type within reach. -/
theorem WellFormed.exists_reaches_of_shape (wf : catalog.WellFormed)
    (notUnion : ∀ ms, catalog.shape id ≠ .union ms)
    (unbroken : ∀ definition, catalog.shape id ≠ .unresolved definition) :
    ∃ target, catalog.Reaches id target
      ∧ classOfEntry (catalog.types.lookup target) = catalog.shape id := by
  have along {only : TypeId} (hshape : catalog.shape id = catalog.classify only)
      (hreach : catalog.Reaches id only) : ∃ target, catalog.Reaches id target
        ∧ classOfEntry (catalog.types.lookup target) = catalog.shape id := by
    cases hr : catalog.resolve only with
    | ok target =>
      refine ⟨target, hreach.trans (leadsTo_of_resolve hr).reaches, ?_⟩
      rw [hshape, classify, hr]
    | error definition => exact absurd (by rw [hshape, classify, hr]) (unbroken definition)
  cases wf.stripCase id with
  | whole strips kept => exact along (by rw [shape, strips]) (.here id)
  | only m strips kept =>
    have hm : m ∈ catalog.kept id := by simp [kept]
    exact along (by rw [shape, strips])
      (reaches_of_mem_alternatives (mem_alternatives_of_mem_kept hm))
  | several ms strips kept normal => exact absurd (by rw [shape, strips]) (notUnion ms)

theorem WellFormed.exists_object_of_shape (wf : catalog.WellFormed) {properties : List Property}
    (h : catalog.shape id = .object properties) :
    ∃ target, catalog.Reaches id target
      ∧ catalog.types.lookup target = some (.object properties) := by
  obtain ⟨target, reaches, class_eq⟩ :=
    @WellFormed.exists_reaches_of_shape _ id wf (by simp [h]) (by simp [h])
  exact ⟨target, reaches, classOfEntry_eq_object_iff.1 (class_eq.trans h)⟩

theorem WellFormed.exists_array_of_shape (wf : catalog.WellFormed) {element : TypeId}
    (h : catalog.shape id = .array element) :
    ∃ target, catalog.Reaches id target
      ∧ catalog.types.lookup target = some (.array element) := by
  obtain ⟨target, reaches, class_eq⟩ :=
    @WellFormed.exists_reaches_of_shape _ id wf (by simp [h]) (by simp [h])
  exact ⟨target, reaches, classOfEntry_eq_array_iff.1 (class_eq.trans h)⟩

theorem WellFormed.knows_property (wf : catalog.WellFormed) {properties : List Property}
    (h : catalog.shape id = .object properties) {p : Property} (hp : p ∈ properties) :
    catalog.types.Knows p.type := by
  obtain ⟨target, _, found⟩ := wf.exists_object_of_shape h
  exact wf.types.knows_part found (List.mem_map_of_mem hp)

/-- Objects have no two properties of one name if those of the table do not. -/
theorem WellFormed.nodup_names (wf : catalog.WellFormed)
    (distinct : catalog.types.DistinctNames) {properties : List Property}
    (h : catalog.shape id = .object properties) : (properties.map Property.name).Nodup := by
  obtain ⟨target, _, found⟩ := wf.exists_object_of_shape h
  exact distinct properties (TypeTable.mem_entries_of_lookup found (by simp))

theorem WellFormed.knows_element (wf : catalog.WellFormed) {element : TypeId}
    (h : catalog.shape id = .array element) : catalog.types.Knows element := by
  obtain ⟨target, _, found⟩ := wf.exists_array_of_shape h
  exact wf.types.knows_part found (List.mem_singleton_self _)

end

/-! ## Tables that have grown from one -/

/-- A well-formed table that has grown from another. -/
structure Over (models : Definitions) (base types : TypeTable) : Prop where
  wellFormed : WellFormed ⟨types, models⟩
  grows : base.GrowsTo types

namespace Over

variable {models : Definitions} {base types : TypeTable}

theorem catalog (grown : Over models base types) : GrowsTo ⟨base, models⟩ ⟨types, models⟩ :=
  .of_types grown.grows models

theorem made (grown : Over models base types) {after : TypeTable} {id : TypeId}
    (made : types.Made after id) : Over models base after :=
  ⟨grown.wellFormed.of_types made.adds.growsTo made.wellFormed,
    grown.grows.trans made.adds.growsTo⟩

theorem trans {later : TypeTable} (grown : Over models base types)
    (further : Over models types later) : Over models base later :=
  ⟨further.wellFormed, grown.grows.trans further.grows⟩

/-- What is left of a type is known by its shape in the table that everything has grown from. -/
theorem withoutNullish (grown : Over models base types) (wf : WellFormed ⟨base, models⟩)
    {declared : TypeId} (known : base.Knows declared) :
    Over models base (Interning.withoutNullish models declared types).2
      ∧ StrippedTo ⟨(Interning.withoutNullish models declared types).2, models⟩ declared
        (Interning.withoutNullish models declared types).1
      ∧ classify ⟨(Interning.withoutNullish models declared types).2, models⟩
          (Interning.withoutNullish models declared types).1
        = shape ⟨base, models⟩ declared := by
  obtain ⟨made, strippedTo⟩ := withoutNullish_spec grown.wellFormed (grown.grows.knows known)
  have after := grown.made made
  refine ⟨after, strippedTo, ?_⟩
  rw [classify_of_strippedTo after.wellFormed strippedTo, after.catalog.shape_eq wf known]

theorem controlType (grown : Over models base types) {declared : TypeId}
    (known : base.Knows declared) (nullable : Bool) :
    Over models base (Interning.controlType models declared nullable types).2
      ∧ ControlTypeOf ⟨(Interning.controlType models declared nullable types).2, models⟩ declared
        nullable (Interning.controlType models declared nullable types).1 := by
  obtain ⟨made, typed⟩ := controlType_spec grown.wellFormed (grown.grows.knows known) nullable
  exact ⟨grown.made made, typed⟩

/-- The type of a control's value is the same when it is asked for again in a later table. -/
theorem controlType_eq (grown : Over models base types) {declared : TypeId}
    (known : base.Knows declared) {nullable : Bool} {value : TypeId} {after later : TypeTable}
    (typed : Interning.controlType models declared nullable types = (value, after))
    (further : Over models after later) :
    (Interning.controlType models declared nullable later).1 = value := by
  obtain ⟨grownAfter, typeOf⟩ := grown.controlType known nullable
  rw [typed] at grownAfter typeOf
  have knownAfter : after.Knows declared := grownAfter.grows.knows known
  have knownLater : later.Knows declared := further.grows.knows knownAfter
  obtain ⟨made, again⟩ := controlType_spec further.wellFormed knownLater nullable
  have toLater := typeOf.growsTo further.catalog grownAfter.wellFormed knownAfter
  have toLast := toLater.growsTo (.of_types made.adds.growsTo models) further.wellFormed knownLater
  exact again.unique (further.wellFormed.of_types made.adds.growsTo made.wellFormed) toLast

end Over

end Catalog

end ModelForms
