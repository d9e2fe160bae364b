import ModelForms.Proofs.Form.TreeValues
import ModelForms.Proofs.Tree.Guarded

/-!
# Forms that widen nothing

A mode in which neither rule is `always` asks for nothing that the model does not declare.  A
control that conforms to a form derived in such a mode has a value of the model itself
(`inhabits_model`): `null` that was set aside is put back only where it is declared, and an entry is
absent only where the model has it so.

The induction is over the derivation of the tree by the rules.  At a control it is the additivity of
inhabitation that carries the step: the type of the control has no values but those of alternatives
of the declared type.
-/

namespace ModelForms

/-- Neither rule of a mode goes beyond what a model declares. -/
structure Mode.Strict (mode : Mode) : Prop where
  nullable : mode.nullable ≠ .always
  optional : mode.optional ≠ .always

theorem ModifierRule.of_decide {rule : ModifierRule} (strict : rule ≠ .always) {declared : Bool}
    (h : rule.decide declared = true) : declared = true := by
  cases rule with
  | always => exact absurd rfl strict
  | never => cases h
  | declared => exact h

namespace Catalog

variable {catalog later : Catalog} {mode : Mode}

theorem allowsAbsence_of_mem_alternatives {type : TypeId}
    (h : TypeId.undefined ∈ catalog.alternatives type) : catalog.allowsAbsence type = true := by
  simp only [alternatives] at h
  simp only [allowsAbsence]
  cases hu : catalog.types.unionMembers? (catalog.resolved type) with
  | some members => simpa [hu] using h
  | none =>
    simp only [hu, Option.getD_none, List.mem_singleton] at h
    simp [← h]

/-- What a strict mode decides is declared. -/
theorem decided_nullable (strict : mode.Strict) {type : TypeId} {optional : Bool}
    (h : (catalog.decided mode type optional).nullable = true) :
    TypeId.null ∈ catalog.alternatives type := by
  have := ModifierRule.of_decide strict.nullable h
  simpa [declared] using this

theorem decided_optional (strict : mode.Strict) {type : TypeId} {optional : Bool}
    (h : (catalog.decided mode type optional).optional = true) :
    optional = true ∨ catalog.allowsAbsence type = true := by
  have := ModifierRule.of_decide strict.optional h
  simp only [declared, Bool.or_eq_true, List.contains_iff_mem] at this
  exact this.imp_right allowsAbsence_of_mem_alternatives

mutual

theorem Yields.inhabits (strict : mode.Strict) (wf : catalog.WellFormed)
    (distinct : catalog.types.DistinctNames) (grows : catalog.GrowsTo later) {declared : TypeId}
    {hint : Hint} {nullable : Bool} {node : TreeNode} (known : catalog.types.Knows declared)
    (null : nullable = true → TypeId.null ∈ catalog.alternatives declared) :
    catalog.Yields mode declared hint nullable node →
      ∀ (path : FieldPath) (control : Control),
        Conformance.mismatches later path node control = [] →
          Inhabits catalog control.value declared
  | .control plan typed => by
    intro path control h
    obtain ⟨cell, rfl, accepts⟩ := Conformance.of_control h
    have inhabits := (grows.inhabits_iff wf (typed.knows wf known)).1 (inhabits_of_accepts accepts)
    have additive := Inhabits.additive catalog cell.value
    refine (additive.iff_exists_alternative declared).2 ?_
    rcases (typed.iff_exists wf additive).1 inhabits with ⟨m, hm, hmInhabits⟩ | ⟨hnullable, isNull⟩
    · exact ⟨m, mem_alternatives_of_mem_kept hm, hmInhabits⟩
    · exact ⟨TypeId.null, null hnullable, isNull⟩
  | @Yields.group _ _ _ _ _ properties members shape below => by
    intro path control h
    rw [below.collect_eq (wf.nodup_names distinct shape)] at h
    obtain ⟨controls, rfl, hdeclared, names⟩ := Conformance.of_group h
    have suits := below.inhabits strict wf distinct grows (fun p hp => wf.knows_property shape hp)
      path controls hdeclared
    obtain ⟨target, reaches, found⟩ := wf.exists_object_of_shape shape
    refine (Inhabits.additive catalog _).of_reaches reaches ?_
    refine .object found (fun p hp value hvalue => ?_) (fun p hp hvalue => ?_)
      (fun name hname => ?_)
    · rw [Control.lookup_memberValues] at hvalue
      obtain ⟨control, hcontrol, rfl⟩ := Option.map_eq_some_iff.1 hvalue
      exact (suits p hp).1 control hcontrol
    · rw [Control.lookup_memberValues, Option.map_eq_none_iff] at hvalue
      exact (suits p hp).2 hvalue
    · rw [Control.keys_memberValues] at hname
      have hmem := names name hname
      rw [below.keys_eq] at hmem
      obtain ⟨p, hp, hname⟩ := List.mem_map.1 hmem
      exact ⟨p, hp, hname⟩
  | .array shape below => by
    intro path control h
    obtain ⟨items, rfl, hitems⟩ := Conformance.of_array h
    obtain ⟨target, reaches, found⟩ := wf.exists_array_of_shape shape
    refine (Inhabits.additive catalog _).of_reaches reaches (.array found fun v hv => ?_)
    obtain ⟨item, hitem, rfl⟩ := Control.mem_itemValues hv
    obtain ⟨place, conforms⟩ := hitems item hitem
    exact below.inhabits strict wf distinct grows (wf.knows_element shape)
      (decided_nullable strict) place item conforms

theorem YieldsMembers.inhabits (strict : mode.Strict) (wf : catalog.WellFormed)
    (distinct : catalog.types.DistinctNames) (grows : catalog.GrowsTo later) {hint : Hint}
    {properties : List Property} {members : List (String × (Bool × TreeNode))}
    (known : ∀ p ∈ properties, catalog.types.Knows p.type) :
    catalog.YieldsMembers mode hint properties members →
      ∀ (path : FieldPath) (controls : Entries Control),
        Conformance.declaredMismatches later path controls members = [] →
          ∀ p ∈ properties, (∀ control, controls.lookup p.name = some control →
              Inhabits catalog control.value p.type)
            ∧ (controls.lookup p.name = none →
              p.optional = true ∨ catalog.allowsAbsence p.type = true)
  | .nil => fun _ _ _ _ hp => by cases hp
  | .cons decides head tail => by
    intro path controls h
    obtain ⟨present, absent, others⟩ := Conformance.of_declared h
    have suits := tail.inhabits strict wf distinct grows
      (fun p hp => known p (List.mem_cons_of_mem _ hp)) path controls others
    refine List.forall_mem_cons.2 ⟨⟨fun control found => ?_, fun missing => ?_⟩, suits⟩
    · exact head.inhabits strict wf distinct grows (known _ List.mem_cons_self)
        (fun h => decided_nullable strict (decides ▸ h)) _ control (present control found)
    · exact decided_optional strict (decides ▸ absent missing)

end

end Catalog

namespace DerivedForm

/-- A control that conforms to a form derived in a strict mode has a value of the model, as the
model was before the form was derived. -/
theorem inhabits_model {models : Definitions} {mode : Mode} {hint : Hint} {model : TypeId}
    {types after later : TypeTable} {tree : DerivedForm} {control : Control}
    (wf : Catalog.WellFormed ⟨types, models⟩) (distinct : types.DistinctNames)
    (strict : mode.Strict) (derives : derive models mode hint model types = (.ok tree, after))
    (grows : after.GrowsTo later)
    (conforms : Conformance.check ⟨later, models⟩ tree.root control Limits.reportedMismatches = []) :
    Inhabits ⟨types, models⟩ control.value model := by
  obtain ⟨_, _, named, expands, _⟩ := expands_of_derive derives
  have known := knows_of_derive derives
  have settled := expands.settles wf known
  have yields := settled.holds ⟨after, models⟩ (.refl _)
  have inhabits := yields.inhabits strict settled.wellFormed (distinct.addsUnions settled.adds)
    (Catalog.GrowsTo.of_types grows models) (settled.adds.growsTo.knows known) (by simp) .root
    control (Conformance.mismatches_of_check conforms)
  exact (settled.grows.inhabits_iff wf known).1 inhabits

theorem inhabits_model_ofPerson :
    derive Catalog.person.models ⟨.declared, .declared⟩
        (.fields [("friends", .elements (.kind .control))]) ⟨103⟩ Catalog.person.types
        = (.ok ofPerson, Catalog.person.types)
      ∧ Conformance.check Catalog.person ofPerson.root personControl Limits.reportedMismatches = []
      ∧ Inhabits Catalog.person personControl.value ⟨103⟩ := by
  have derives : derive Catalog.person.models ⟨.declared, .declared⟩
      (.fields [("friends", .elements (.kind .control))]) ⟨103⟩ Catalog.person.types
      = (.ok ofPerson, Catalog.person.types) := rfl
  have strict : Mode.Strict ⟨.declared, .declared⟩ := ⟨by decide, by decide⟩
  exact ⟨derives, rfl,
    inhabits_model (by decide) (by decide) strict derives (.refl Catalog.person.types) rfl⟩

end DerivedForm

end ModelForms
