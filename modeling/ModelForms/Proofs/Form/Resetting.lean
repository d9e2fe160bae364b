import ModelForms.Proofs.Form.CheckedValues

/-!
# Resetting

A reset undoes whatever was set.  It gives every cell a value that does not depend on the one that
the cell holds, so it comes out the same before and after any values are set (`Control.reset_edit`).

That a reset control still conforms rests on two readings of a type.  A cell may be null where
`Catalog.includesNull` finds `null` or `unknown` among the alternatives at the end of a chain of
aliases, and the check matches the `null` that the cell is reset to level by level.  A chain that is
followed to its end takes one level for each model on it, and there are more levels than models on
any such chain, so matching gets there as well (`Catalog.accepts_null_of_includesNull`).
-/

namespace ModelForms

/-! ## Types that include `null` -/

namespace Catalog

variable {catalog : Catalog} {id target : TypeId} {levels : Nat} {value : Json}

theorem inhabitsWithin_reference_iff {definition : ModelId}
    (reference : catalog.types.referenced? id = some definition) :
    catalog.InhabitsWithin (levels + 1) value id
      ↔ ∃ body, catalog.models.body? definition = some body
        ∧ catalog.InhabitsWithin levels value body := by
  show catalog.Suits (catalog.InhabitsWithin levels) value id ↔ _
  unfold Suits
  rw [TypeTable.referenced?_eq_some_iff.1 reference]

/-- A step along a chain of aliases is one level of matching. -/
theorem inhabitsWithin_of_followStep
    {onwards : TypeId → StateM (Guard ModelId) (Except ModelId TypeId)} {guard : Guard ModelId}
    (below : ∀ body guard, (onwards body guard).1 = .ok target →
      catalog.InhabitsWithin levels value body)
    (here : catalog.InhabitsWithin (levels + 1) value target)
    (followed : (catalog.followStep onwards id guard).1 = .ok target) :
    catalog.InhabitsWithin (levels + 1) value id := by
  cases hr : catalog.types.referenced? id with
  | none =>
    rw [followStep_none hr] at followed
    cases followed
    exact here
  | some definition =>
    rw [followStep_some hr] at followed
    split at followed
    next =>
      cases hb : catalog.models.body? definition with
      | none => simp [hb] at followed
      | some body =>
        simp only [hb] at followed
        exact (inhabitsWithin_reference_iff hr).2 ⟨body, hb, below body _ followed⟩
    next => cases followed

/-- What is a value of the end of a chain is one of its start, over a level more for each step. -/
theorem inhabitsWithin_of_follow (inhabits : catalog.InhabitsWithin levels value target) :
    ∀ (steps : Nat) (id : TypeId) (guard : Guard ModelId),
      (catalog.follow steps id guard).1 = .ok target →
      catalog.InhabitsWithin (levels + steps + 1) value id
  | 0, _, _, followed =>
      inhabitsWithin_of_followStep (fun _ _ same => by cases same; exact inhabits)
        (inhabits.mono (Nat.le_add_right _ _)) followed
  | steps + 1, _, _, followed =>
      inhabitsWithin_of_followStep
        (fun body guard => inhabitsWithin_of_follow inhabits steps body guard)
        (inhabits.mono (by omega)) followed

theorem inhabitsWithin_of_resolved (inhabits : catalog.InhabitsWithin levels value
      (catalog.resolved id)) :
    catalog.InhabitsWithin (levels + WalkKind.aliases.maxDepth + 1) value id := by
  unfold resolved at inhabits
  split at inhabits
  next target resolves => exact inhabitsWithin_of_follow inhabits _ _ _ resolves
  next => exact inhabits.mono (by omega)

/-- `null` is a value of a type with it, or with every value, among its alternatives. -/
theorem inhabitsWithin_null_of_alternative {m : TypeId} (mem : m ∈ catalog.alternatives id)
    (takes : catalog.InhabitsWithin 1 .null m) :
    catalog.InhabitsWithin 2 .null (catalog.resolved id) := by
  rcases catalog.alternatives_cases id with ⟨_, single⟩ | union
  · rw [single, List.mem_singleton] at mem
    subst mem
    exact takes.mono (by omega)
  · show catalog.Suits (catalog.InhabitsWithin 1) .null _
    unfold Suits
    rw [TypeTable.unionMembers?_eq_some_iff.1 union]
    exact ⟨m, mem, takes⟩

/-- A type that includes `null`, aliases followed, accepts it.  The levels of a match are more than
the models on a chain of aliases, the union at its end and the member in it. -/
theorem accepts_null_of_includesNull (includes : catalog.includesNull id = true) :
    catalog.accepts .null id = true := by
  have alternative : TypeId.null ∈ catalog.alternatives id
      ∨ TypeId.unknown ∈ catalog.alternatives id := by
    simpa [includesNull] using includes
  have inhabits : catalog.InhabitsWithin 2 .null (catalog.resolved id) := by
    rcases alternative with mem | mem
    · exact inhabitsWithin_null_of_alternative mem rfl
    · exact inhabitsWithin_null_of_alternative mem rfl
  exact accepts_iff.2 ((inhabitsWithin_of_resolved inhabits).mono (by decide))

end Catalog

namespace Control

/-! ## The cells of a control -/

/-- Induction over a control, its members and its items. -/
theorem parts_induction {motive : Control → Prop} (cell : ∀ c, motive (.cell c))
    (group : ∀ members : List (String × Control), (∀ m ∈ members, motive m.2) →
      motive (.group members))
    (array : ∀ items : List Control, (∀ item ∈ items, motive item) → motive (.array items))
    (control : Control) : motive control := by
  refine @Control.rec motive (fun members => ∀ m ∈ members, motive m.2)
    (fun items => ∀ item ∈ items, motive item) (fun m => motive m.2) cell group array
    ?_ ?_ ?_ ?_ ?_ control
  · exact fun _ hm => by cases hm
  · exact fun m rest head tail => List.forall_mem_cons.2 ⟨head, tail⟩
  · exact fun _ hitem => by cases hitem
  · exact fun item rest head tail => List.forall_mem_cons.2 ⟨head, tail⟩
  · exact fun _ _ below => below

/-- Every cell of a control has some property. -/
inductive EachCell (holds : Cell → Prop) : Control → Prop
  | cell {c : Cell} (h : holds c) : EachCell holds (.cell c)
  | group {members : List (String × Control)} (parts : ∀ m ∈ members, EachCell holds m.2) :
      EachCell holds (.group members)
  | array {items : List Control} (parts : ∀ item ∈ items, EachCell holds item) :
      EachCell holds (.array items)

/-- The value of a cell that is set, and the place of the cell. -/
structure Edit where
  place : List Part
  value : Json

/-- The control with another value, if it is a cell. -/
def setValue (value : Json) : Control → Control
  | .cell c => .cell (c.set value)
  | control => control

/-- The control after values are set, one after another. -/
def edit (control : Control) (edits : List Edit) : Control :=
  edits.foldl (fun control e => control.change (setValue e.value) e.place) control

/-! ## Resetting -/

theorem resetMembers_eq_map (members : List (String × Control)) :
    resetMembers members = members.map fun m => (m.1, m.2.reset) := by
  induction members with
  | nil => rfl
  | cons first rest ih => exact congrArg ((first.1, first.2.reset) :: ·) ih

theorem resetItems_eq_map (items : List Control) : resetItems items = items.map reset := by
  induction items with
  | nil => rfl
  | cons first rest ih => exact congrArg (first.reset :: ·) ih

theorem reset_group (members : List (String × Control)) :
    reset (.group members) = .group (members.map fun m => (m.1, m.2.reset)) :=
  congrArg Control.group (resetMembers_eq_map members)

theorem reset_array (items : List Control) : reset (.array items) = .array (items.map reset) :=
  congrArg Control.array (resetItems_eq_map items)

theorem reset_setValue (value : Json) (control : Control) :
    (control.setValue value).reset = control.reset := by
  cases control with
  | cell c => rfl
  | group members => rfl
  | array items => rfl

theorem map_reset_modify {f : Control → Control} (same : ∀ c, (f c).reset = c.reset) (name : String)
    (members : Entries Control) :
    (Entries.modify name f members).map (fun m => (m.1, m.2.reset))
      = members.map fun m => (m.1, m.2.reset) := by
  induction members with
  | nil => rfl
  | cons first rest ih =>
    obtain ⟨key, control⟩ := first
    unfold Entries.modify
    split
    next => rw [List.map_cons, List.map_cons, same]
    next => rw [List.map_cons, List.map_cons, ih]

/-- A change that a reset undoes where it is made is undone by a reset of the whole. -/
theorem reset_change {f : Control → Control} (same : ∀ c, (f c).reset = c.reset)
    (place : List Part) (control : Control) : (control.change f place).reset = control.reset := by
  induction place generalizing control with
  | nil => exact same control
  | cons part rest ih =>
    cases control with
    | cell c => cases part <;> rfl
    | group members =>
      cases part with
      | member name =>
        show reset (.group (Entries.modify name (change f rest) members)) = _
        rw [reset_group, reset_group, map_reset_modify ih]
      | item index => rfl
    | array items =>
      cases part with
      | member name => rfl
      | item index =>
        show reset (.array (items.modify index (change f rest))) = _
        rw [reset_array, reset_array]
        congr 1
        refine List.ext_getElem? fun i => ?_
        rw [List.getElem?_map, List.getElem?_map, List.getElem?_modify]
        split
        next => cases items[i]? <;> simp [ih]
        next => simp

/-- A reset undoes all that was set. -/
theorem reset_edit (control : Control) (edits : List Edit) :
    (control.edit edits).reset = control.reset := by
  induction edits generalizing control with
  | nil => rfl
  | cons e rest ih =>
    calc ((control.change (setValue e.value) e.place).edit rest).reset
      _ = (control.change (setValue e.value) e.place).reset := ih _
      _ = control.reset := reset_change (reset_setValue e.value) e.place control

theorem reset_reset (control : Control) : control.reset.reset = control.reset := by
  induction control using parts_induction with
  | cell c => rfl
  | group members ih =>
    rw [reset_group, reset_group, List.map_map]
    exact congrArg Control.group
      (List.map_congr_left fun m hm => congrArg (Prod.mk m.1) (ih m hm))
  | array items ih =>
    rw [reset_array, reset_array, List.map_map]
    exact congrArg Control.array (List.map_congr_left ih)

/-- After a reset every cell holds what it is reset to. -/
theorem eachCell_reset (control : Control) :
    control.reset.EachCell fun c => c.value = if c.nonNullable then c.initial else .null := by
  induction control using parts_induction with
  | cell c => exact .cell rfl
  | group members ih =>
    rw [reset_group]
    refine .group fun m hm => ?_
    obtain ⟨m', hm', rfl⟩ := List.mem_map.1 hm
    exact ih m' hm'
  | array items ih =>
    rw [reset_array]
    refine .array fun item hitem => ?_
    obtain ⟨item', hitem', rfl⟩ := List.mem_map.1 hitem
    exact ih item' hitem'

theorem part?_reset (place : List Part) (control : Control) :
    control.reset.part? place = (control.part? place).map reset := by
  induction place generalizing control with
  | nil => rfl
  | cons part rest ih =>
    cases control with
    | cell c => cases part <;> rfl
    | group members =>
      cases part with
      | member name =>
        rw [reset_group]
        simp only [part?]
        rw [Entries.lookup_map fun _ (m : Control) => m.reset, Option.bind_map, Option.map_bind]
        exact Option.bind_congr fun below _ => ih below
      | item index => rfl
    | array items =>
      cases part with
      | member name => rfl
      | item index =>
        rw [reset_array]
        simp only [part?]
        rw [List.getElem?_map, Option.bind_map, Option.map_bind]
        exact Option.bind_congr fun below _ => ih below

end Control

/-! ## Conforming again -/

namespace Conformance

variable {catalog : Catalog}

theorem cell_eq_nil_iff {path : FieldPath} {type : TypeId} {c : Cell} :
    cell catalog path type c = []
      ↔ (c.nonNullable = true ∨ catalog.includesNull type = true)
        ∧ catalog.accepts c.value type = true := by
  unfold cell
  rw [List.append_eq_nil_iff]
  cases c.nonNullable <;> cases catalog.includesNull type <;> simp

/-- Where a cell that holds its first value conforms, so does the cell reset. -/
theorem cell_reset {path : FieldPath} {type : TypeId} {c : Cell} (fresh : c.value = c.initial)
    (conforms : cell catalog path type c = []) : cell catalog path type c.reset = [] := by
  obtain ⟨value, initial, nonNullable⟩ := c
  cases fresh
  obtain ⟨allowed, accepts⟩ := cell_eq_nil_iff.1 conforms
  cases nonNullable with
  | true => exact cell_eq_nil_iff.2 ⟨Or.inl rfl, accepts⟩
  | false =>
    have includes := allowed.resolve_left Bool.false_ne_true
    exact cell_eq_nil_iff.2 ⟨Or.inr includes, Catalog.accepts_null_of_includesNull includes⟩

/-- A control whose cells hold their first values still conforms when it is reset. -/
theorem mismatches_reset {control : Control} {node : TreeNode} {path : FieldPath}
    (fresh : control.EachCell fun c => c.value = c.initial)
    (conforms : mismatches catalog path node control = []) :
    mismatches catalog path node control.reset = [] := by
  induction fresh generalizing node path with
  | @cell c fresh =>
    cases node with
    | control type => exact cell_reset fresh conforms
    | group declared => cases conforms
    | array element => cases conforms
  | @group members parts ih =>
    cases node with
    | control type => cases conforms
    | array element => cases conforms
    | group declared =>
      obtain ⟨known, unknown⟩ := List.append_eq_nil_iff.1 conforms
      have names : Entries.keys (members.map fun m => (m.1, m.2.reset)) = Entries.keys members := by
        rw [Entries.keys, List.map_map]
        rfl
      rw [Control.reset_group]
      refine List.append_eq_nil_iff.2 ⟨?_, by rw [unexpected, names]; exact unknown⟩
      rw [List.eq_nil_iff_forall_not_mem] at known ⊢
      intro mismatch reported
      obtain ⟨m, hm, reported⟩ := mem_declaredMismatches_iff.1 reported
      rw [Entries.lookup_map fun _ (part : Control) => part.reset] at reported
      rcases reported with ⟨control, found, reported⟩ | ⟨absent, required⟩
      · obtain ⟨part, hpart, rfl⟩ := Option.map_eq_some_iff.1 found
        have clean : mismatches catalog (path.field m.1) m.2.2 part = [] :=
          List.eq_nil_iff_forall_not_mem.2 fun other h =>
            known other (mem_declaredMismatches_iff.2 ⟨m, hm, Or.inl ⟨part, hpart, h⟩⟩)
        rw [ih _ (Entries.mem_of_lookup hpart) clean] at reported
        cases reported
      · exact known mismatch (mem_declaredMismatches_iff.2
          ⟨m, hm, Or.inr ⟨Option.map_eq_none_iff.1 absent, required⟩⟩)
  | @array items parts ih =>
    cases node with
    | control type => cases conforms
    | group declared => cases conforms
    | array element =>
      rw [Control.reset_array]
      rw [List.eq_nil_iff_forall_not_mem] at conforms ⊢
      intro mismatch reported
      obtain ⟨index, control, found, reported⟩ := mem_mismatches_array_iff.1 reported
      rw [List.getElem?_map] at found
      obtain ⟨item, hitem, rfl⟩ := Option.map_eq_some_iff.1 found
      have clean : mismatches catalog (path.index index) element item = [] :=
        List.eq_nil_iff_forall_not_mem.2 fun other h =>
          conforms other (mem_mismatches_array_iff.2 ⟨index, item, hitem, h⟩)
      rw [ih item (List.mem_of_getElem? hitem) clean] at reported
      cases reported

end Conformance

namespace DerivedForm

/-- Whatever is set in a form that conforms with its first values, a reset makes it conform again.
Each cell is where it was, and holds `null` or its first value by whether it may be null.  A second
reset changes nothing. -/
theorem conforms_reset {tree : DerivedForm} {catalog : Catalog} {control : Control}
    (conforms : Conformance.check catalog tree.root control Limits.reportedMismatches = [])
    (fresh : control.EachCell fun c => c.value = c.initial) (edits : List Control.Edit) :
    Conformance.check catalog tree.root (control.edit edits).reset Limits.reportedMismatches = []
      ∧ ((control.edit edits).reset.EachCell fun c =>
          c.value = if c.nonNullable then c.initial else .null)
      ∧ (∀ place c, control.part? place = some (.cell c) →
          (control.edit edits).reset.part? place
            = some (.cell { c with value := if c.nonNullable then c.initial else .null }))
      ∧ (control.edit edits).reset.reset = (control.edit edits).reset := by
  have same := control.reset_edit edits
  have clean := Conformance.mismatches_reset fresh (Conformance.mismatches_of_check conforms)
  refine ⟨?_, Control.eachCell_reset _, fun place c found => ?_, Control.reset_reset _⟩
  · rw [same, Conformance.check, clean, List.take_nil]
  · rw [same, Control.part?_reset, found]
    rfl

/-- A name that is no text and a friend who is a number are set, and both are reset. -/
theorem conforms_reset_ofPerson :
    (personControl.EachCell fun c => c.value = c.initial)
      ∧ Conformance.check Catalog.person ofPerson.root
          (personControl.edit [⟨[.member "name"], .null⟩,
            ⟨[.member "friends", .item 1], .number (.int 3)⟩]).reset
          Limits.reportedMismatches = [] := by
  have fresh : personControl.EachCell fun c => c.value = c.initial := by
    refine .group fun m hm => ?_
    rcases List.mem_cons.1 hm with rfl | hm
    · exact .cell rfl
    · cases List.mem_singleton.1 hm
      refine .array fun item hitem => ?_
      rcases List.mem_cons.1 hitem with rfl | hitem
      · exact .cell rfl
      · cases List.mem_singleton.1 hitem
        exact .cell rfl
  exact ⟨fresh, (conforms_reset rfl fresh _).1⟩

end DerivedForm

end ModelForms
