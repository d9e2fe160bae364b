import ModelForms.Proofs.Form.BlankForms

/-!
# Values of what is left of a type

Setting `null` and `undefined` aside takes `null` from a type at most.  No other value is lost, and
none is gained, whatever the type is: a reference that is left alone, one member that is left of a
union, a union that is interned anew, a type that has nothing but `null`, or an id that the table
does not know.  Adding `null` again changes no more than that.

Having a given value is an additive property of types, so what is left of a type has it exactly if
a kept alternative has (`StrippedTo.iff_exists`).  The alternatives that are not kept are `null` and
`undefined`, and they have no value but `null` (`inhabits_iff_exists_kept`).

An id that the table does not know has no values.  It may get some later, when the table comes to
give it to a new union.  The one union that the type of a control adds is that of the id itself and
`null`, which still has no value but `null` (`isNull_of_lookup`).
-/

namespace ModelForms

/-! ## Ids that a table does not know -/

namespace TypeTable

section

variable {table : TypeTable} {type : TypeId}

theorem lookup_of_not_knows (unknown : ¬ table.Knows type) : table.lookup type = none := by
  simpa [Knows] using unknown

/-- An id that is not known gets the new entry or none. -/
theorem lookup_intern_of_not_knows (unknown : ¬ table.Knows type) (entry : TypeEntry) :
    (Interning.intern entry table).2.lookup type = none
      ∨ (Interning.intern entry table).2.lookup type = some entry := by
  have nothing := lookup_of_not_knows unknown
  rcases entries_intern entry table with same | added
  · exact Or.inl (by simpa [lookup, same] using nothing)
  · unfold lookup at nothing ⊢
    split
    next intrinsic => exact Or.inl (by simpa [intrinsic] using nothing)
    next foreign =>
      simp only [foreign, Bool.false_eq_true, if_false] at nothing
      rw [added, List.getElem?_append_right (List.getElem?_eq_none_iff.1 nothing)]
      cases place : type.index - TypeId.first - table.entries.length with
      | zero => exact Or.inr rfl
      | succ place => exact Or.inl rfl

/-- The normal form of two types of which neither is dropped has them both. -/
theorem normalize_pair {first second : TypeId} (different : first ≠ second)
    (proper : ∀ m ∈ [first, second], m ≠ TypeId.never ∧ m ≠ TypeId.unknown) :
    normalize [first, second] = .several (ascending [first, second]) := by
  have one : first ∈ ascending [first, second] :=
    mem_ascending.2 List.mem_cons_self
  have two : second ∈ ascending [first, second] :=
    mem_ascending.2 (List.mem_cons_of_mem first List.mem_cons_self)
  unfold normalize
  rw [if_neg fun mem => (proper _ mem).2 rfl,
    List.filter_eq_self.2 fun m mem => by simpa using (proper m mem).1]
  match sorted : ascending [first, second] with
  | [] =>
    rw [sorted] at one
    cases one
  | [m] =>
    rw [sorted, List.mem_singleton] at one two
    exact absurd (one.trans two.symm) different
  | _ :: _ :: _ => rfl

end

end TypeTable

/-! ## Alternatives that are kept -/

/-- `null` and `undefined` have no value but `null`. -/
theorem Inhabits.isNull_of_isNullish {catalog : Catalog} {value : Json} {type : TypeId}
    (inhabits : Inhabits catalog value type) (nullish : type.isNullish = true) :
    value.isNull = true := by
  simp only [TypeId.isNullish, Bool.or_eq_true, beq_iff_eq] at nullish
  rcases nullish with rfl | rfl
  · have accepts := (Inhabits.intrinsic_iff (k := .null) rfl).1 inhabits
    cases value <;> first | rfl | cases accepts
  · have accepts := (Inhabits.intrinsic_iff (k := .undefined) rfl).1 inhabits
    cases value <;> first | rfl | cases accepts

namespace Catalog

section

variable {catalog : Catalog} {value : Json} {type : TypeId}

/-- A value other than `null` is one of a kept alternative. -/
theorem inhabits_iff_exists_kept (present : value.isNull = false) :
    Inhabits catalog value type ↔ ∃ m ∈ catalog.kept type, Inhabits catalog value m := by
  rw [(Inhabits.additive catalog value).iff_exists_alternative type]
  constructor
  · rintro ⟨m, mem, inhabits⟩
    refine ⟨m, mem_kept_of_mem_alternatives mem (Bool.eq_false_iff.2 fun nullish => ?_), inhabits⟩
    rw [inhabits.isNull_of_isNullish nullish] at present
    cases present
  · rintro ⟨m, mem, inhabits⟩
    exact ⟨m, mem_alternatives_of_mem_kept mem, inhabits⟩

theorem StrippedTo.inhabits_iff (wf : catalog.WellFormed) {stripped : TypeId}
    (strips : catalog.StrippedTo type stripped) (present : value.isNull = false) :
    Inhabits catalog value stripped ↔ Inhabits catalog value type :=
  (strips.iff_exists wf (Inhabits.additive catalog value)).trans
    (inhabits_iff_exists_kept present).symm

theorem ControlTypeOf.inhabits_iff (wf : catalog.WellFormed) {nullable : Bool}
    {control : TypeId} (typed : catalog.ControlTypeOf type nullable control)
    (present : value.isNull = false) :
    Inhabits catalog value control ↔ Inhabits catalog value type := by
  have notNull : ¬ (nullable = true ∧ Inhabits catalog value TypeId.null) := fun ⟨_, inhabits⟩ => by
    rw [inhabits.isNull_of_isNullish rfl] at present
    cases present
  rw [typed.iff_exists wf (Inhabits.additive catalog value), or_iff_left notNull]
  exact (inhabits_iff_exists_kept present).symm

theorem TakesNull.inhabits (takes : catalog.TakesNull type) : Inhabits catalog .null type :=
  inhabits_of_accepts takes.accepts

end

/-! ## Stripping what is not known -/

section

variable {models : Definitions} {table : TypeTable} {value : Json} {type : TypeId}

theorem not_inhabits_of_not_knows (unknown : ¬ table.Knows type) :
    ¬ Inhabits ⟨table, models⟩ value type := by
  intro inhabits
  have nothing := TypeTable.lookup_of_not_knows unknown
  cases inhabits <;> simp_all

/-- An id that is not known is left alone. -/
theorem withoutNullish_of_not_knows (unknown : ¬ table.Knows type) :
    Interning.withoutNullish models type table = (type, table) := by
  have nothing := TypeTable.lookup_of_not_knows unknown
  have alone : Catalog.resolved ⟨table, models⟩ type = type :=
    resolved_of_referenced?_eq_none (by simp [TypeTable.referenced?, nothing])
  rw [withoutNullish_eq, strip, alone]
  simp [TypeTable.unionMembers?, nothing]

/-- The type of a control that may be null over an id that is not known is the union of that id and
`null`. -/
theorem controlType_of_not_knows (unknown : ¬ table.Knows type) :
    Interning.controlType models type true table
      = Interning.intern (.union (TypeTable.ascending [type, TypeId.null])) table := by
  have ne (k : Intrinsic) : type ≠ TypeId.ofIntrinsic k := fun same =>
    unknown (same ▸ table.knows_intrinsic k)
  have nothing := TypeTable.lookup_of_not_knows unknown
  have flat : table.flatten [type, TypeId.null] = [type, TypeId.null] :=
    TypeTable.flatten_of_flat (by
      simp [TypeTable.unionMembers?, nothing, TypeId.null, table.lookup_ofIntrinsic])
  have proper : ∀ m ∈ [type, TypeId.null], m ≠ TypeId.never ∧ m ≠ TypeId.unknown := by
    simp only [List.forall_mem_cons, List.not_mem_nil, false_imp_iff, implies_true, and_true]
    exact ⟨⟨ne .never, ne .unknown⟩, by decide⟩
  rw [controlType_eq, if_pos rfl, withoutNullish_of_not_knows unknown, TypeTable.union_eq, flat,
    TypeTable.normalize_pair (ne .null) proper]

/-- A type that is nothing, or a union of itself and `null`, has no value but `null`. -/
theorem isNull_of_lookup {catalog : Catalog} {members : List TypeId}
    (entry : catalog.types.lookup type = none
      ∨ catalog.types.lookup type = some (.union members))
    (among : ∀ m ∈ members, m = type ∨ m = TypeId.null) (inhabits : Inhabits catalog value type) :
    value.isNull = true := by
  induction inhabits with
  | intrinsic found | literal found | leaf found | object found | array found
  | reference found => simp_all
  | union found mem inhabits ih =>
    have same : some (TypeEntry.union _) = some (.union members) :=
      found.symm.trans (entry.resolve_left (by simp [found]))
    cases same
    rcases among _ mem with rfl | rfl
    · exact ih entry among
    · exact inhabits.isNull_of_isNullish rfl

/-- Over an id that is not known, the type of a control that may be null has `null` and no other
value. -/
theorem inhabits_controlType_of_not_knows (unknown : ¬ table.Knows type) :
    Inhabits ⟨(Interning.controlType models type true table).2, models⟩ value
      (Interning.controlType models type true table).1 ↔ value.isNull = true := by
  rw [controlType_of_not_knows unknown]
  have among : ∀ m, m ∈ TypeTable.ascending [type, TypeId.null] ↔ m = type ∨ m = TypeId.null :=
    fun m => by simp [TypeTable.mem_ascending]
  rw [Inhabits.union_iff (TypeTable.lookup_intern _ table)]
  constructor
  · rintro ⟨m, mem, inhabits⟩
    have entry := TypeTable.lookup_intern_of_not_knows unknown
      (.union (TypeTable.ascending [type, TypeId.null]))
    rcases (among m).1 mem with rfl | rfl
    · exact isNull_of_lookup entry (fun m => (among m).1) inhabits
    · exact inhabits.isNull_of_isNullish rfl
  · intro isNull
    refine ⟨TypeId.null, (among _).2 (Or.inr rfl), (Inhabits.intrinsic_iff (k := .null) rfl).2 ?_⟩
    cases value <;> first | rfl | cases isNull

end

/-! ## What stripping leaves -/

/-- A value is one of a type that was made, in the table that this left. -/
def InhabitsMade (models : Definitions) (value : Json) (made : TypeId × TypeTable) : Prop :=
  Inhabits ⟨made.2, models⟩ value made.1

section

variable {models : Definitions} {table : TypeTable}

theorem inhabitsMade_withoutNullish_iff (wf : WellFormed ⟨table, models⟩) (type : TypeId)
    {value : Json} (present : value.isNull = false) :
    InhabitsMade models value (Interning.withoutNullish models type table)
      ↔ Inhabits ⟨table, models⟩ value type := by
  by_cases known : table.Knows type
  · obtain ⟨made, strips⟩ := withoutNullish_spec wf known
    have grown := made.adds.growsTo
    exact (strips.inhabits_iff (wf.of_types grown made.wellFormed) present).trans
      ((GrowsTo.of_types grown models).inhabits_iff wf known)
  · rw [withoutNullish_of_not_knows known]
    exact Iff.rfl

theorem inhabitsMade_controlType_iff (wf : WellFormed ⟨table, models⟩) (type : TypeId)
    (nullable : Bool) {value : Json} (present : value.isNull = false) :
    InhabitsMade models value (Interning.controlType models type nullable table)
      ↔ Inhabits ⟨table, models⟩ value type := by
  by_cases known : table.Knows type
  · obtain ⟨made, typed⟩ := controlType_spec wf known nullable
    have grown := made.adds.growsTo
    exact (typed.inhabits_iff (wf.of_types grown made.wellFormed) present).trans
      ((GrowsTo.of_types grown models).inhabits_iff wf known)
  · cases nullable with
    | false =>
      rw [controlType_eq, if_neg Bool.false_ne_true]
      exact inhabitsMade_withoutNullish_iff wf type present
    | true =>
      have no : ¬ Inhabits ⟨table, models⟩ value type := not_inhabits_of_not_knows known
      unfold InhabitsMade
      rw [inhabits_controlType_of_not_knows known, present]
      exact iff_of_false Bool.false_ne_true no

theorem inhabitsMade_controlType_null (wf : WellFormed ⟨table, models⟩) (type : TypeId) :
    InhabitsMade models .null (Interning.controlType models type true table) := by
  by_cases known : table.Knows type
  · exact (controlType_spec wf known true).2.takesNull.inhabits
  · exact (inhabits_controlType_of_not_knows known).2 rfl

/-- Of a type, of what is left of it, and of the type of a control's value over it, the values other
than `null` are the same.  Where the control may be null its type has `null` too. -/
theorem inhabits_iff_of_stripping (wf : WellFormed ⟨table, models⟩) (type : TypeId) :
    (∀ (nullable : Bool) (value : Json), value.isNull = false →
      (Inhabits ⟨table, models⟩ value type
        ↔ InhabitsMade models value (Interning.withoutNullish models type table))
      ∧ (Inhabits ⟨table, models⟩ value type
        ↔ InhabitsMade models value (Interning.controlType models type nullable table)))
    ∧ InhabitsMade models .null (Interning.controlType models type true table) :=
  ⟨fun nullable _ present => ⟨(inhabitsMade_withoutNullish_iff wf type present).symm,
      (inhabitsMade_controlType_iff wf type nullable present).symm⟩,
    inhabitsMade_controlType_null wf type⟩

end

/-- A friend, whom a person has or `null`, is one of what is left of that type, and of the type of a
control's value over it. -/
theorem inhabits_iff_of_stripping_friend :
    InhabitsMade person.models (.object [("name", .string "Ada")])
        (Interning.withoutNullish person.models ⟨101⟩ person.types)
      ∧ InhabitsMade person.models (.object [("name", .string "Ada")])
        (Interning.controlType person.models ⟨101⟩ false person.types)
      ∧ InhabitsMade person.models .null
        (Interning.controlType person.models ⟨101⟩ true person.types) := by
  have wf : WellFormed ⟨person.types, person.models⟩ := by decide
  obtain ⟨same, null⟩ := inhabits_iff_of_stripping wf ⟨101⟩
  have friend : Inhabits person (.object [("name", .string "Ada")]) ⟨101⟩ := inhabits_of_accepts rfl
  obtain ⟨left, control⟩ := same false (.object [("name", .string "Ada")]) rfl
  exact ⟨left.1 friend, control.1 friend, null⟩

example : (Interning.withoutNullish person.models ⟨101⟩ person.types).1 = ⟨100⟩ := rfl

end Catalog

end ModelForms
