import ModelForms.Proofs.Types.UnionForm
import ModelForms.Types.Nullability

/-!
# Chains of aliases

`Catalog.resolve` follows a chain of aliases under a guard.  `LeadsTo` is the chain alone: one step
goes from a reference to the body of its model.  Where the guard lets the chain end, its end is one
that the type leads to (`leadsTo_of_resolve`), and nothing else is used of the guard here.

A catalog is well-formed if its table is and the bodies of its models are known there.  Everything
that is read off a known type in a well-formed catalog is read off it again when the table has
grown, since a chain that starts at a known type meets known types only.  The lemmas that end in
`_eq` under `Catalog.GrowsTo` say so for each way of reading.

A chain has one end, a type that is no reference.  In a catalog that is `Unbroken` the guard lets
every chain end, so all types on a chain are read alike.
-/

namespace ModelForms

theorem TypeId.exists_intrinsic_of_isNullish {id : TypeId} (nullish : id.isNullish = true) :
    ∃ k ∈ [Intrinsic.null, .undefined], id = TypeId.ofIntrinsic k := by
  simp only [TypeId.isNullish, Bool.or_eq_true, beq_iff_eq] at nullish
  rcases nullish with rfl | rfl
  · exact ⟨.null, by simp, rfl⟩
  · exact ⟨.undefined, by simp, rfl⟩

namespace Catalog

/-- A well-formed table, and models whose bodies are in it. -/
structure WellFormed (catalog : Catalog) : Prop where
  types : catalog.types.WellFormed
  bodies : ∀ definition body, catalog.models.body? definition = some body →
    catalog.types.Knows body

/-- The same models over a later table. -/
structure GrowsTo (earlier later : Catalog) : Prop where
  types : earlier.types.GrowsTo later.types
  models : later.models = earlier.models

namespace GrowsTo

theorem refl (catalog : Catalog) : catalog.GrowsTo catalog := ⟨.refl _, rfl⟩

theorem trans {first second third : Catalog} (h₁ : first.GrowsTo second)
    (h₂ : second.GrowsTo third) : first.GrowsTo third :=
  ⟨h₁.types.trans h₂.types, h₂.models.trans h₁.models⟩

theorem of_types {earlier later : TypeTable} (grows : earlier.GrowsTo later)
    (models : Definitions) : GrowsTo ⟨earlier, models⟩ ⟨later, models⟩ := ⟨grows, rfl⟩

end GrowsTo

theorem WellFormed.of_types {catalog : Catalog} (wf : catalog.WellFormed) {later : TypeTable}
    (grows : catalog.types.GrowsTo later) (types : later.WellFormed) :
    WellFormed ⟨later, catalog.models⟩ :=
  ⟨types, fun definition body h => grows.knows (wf.bodies definition body h)⟩

theorem wellFormed_iff (catalog : Catalog) :
    catalog.WellFormed ↔ catalog.types.WellFormed
      ∧ ∀ entry ∈ catalog.models.entries, ∀ body ∈ entry.body, catalog.types.Knows body := by
  constructor
  · intro wf
    refine ⟨wf.types, fun entry h body hbody => ?_⟩
    obtain ⟨i, hi, rfl⟩ := List.mem_iff_getElem.1 h
    refine wf.bodies ⟨i + 1⟩ body ?_
    simpa [Definitions.body?, Definitions.get?, List.getElem?_eq_getElem hi] using hbody
  · rintro ⟨types, bodies⟩
    refine ⟨types, fun definition body h => ?_⟩
    obtain ⟨entry, hentry, hbody⟩ := Option.bind_eq_some_iff.1 h
    refine bodies entry ?_ body hbody
    unfold Definitions.get? at hentry
    split at hentry
    · cases hentry
    · exact List.mem_of_getElem? hentry

instance (catalog : Catalog) : Decidable catalog.WellFormed :=
  decidable_of_iff _ catalog.wellFormed_iff.symm

/-! ## Chains -/

/-- A type leads to another along the bodies of the models that it refers to. -/
inductive LeadsTo (catalog : Catalog) : TypeId → TypeId → Prop
  | here (id : TypeId) : LeadsTo catalog id id
  | onwards {id body target : TypeId} {definition : ModelId}
      (reference : catalog.types.referenced? id = some definition)
      (defined : catalog.models.body? definition = some body)
      (rest : LeadsTo catalog body target) : LeadsTo catalog id target

section

variable {catalog : Catalog} {onwards : TypeId → StateM (Guard ModelId) (Except ModelId TypeId)}
  {id : TypeId} {definition : ModelId}

theorem followStep_none (h : catalog.types.referenced? id = none) (guard : Guard ModelId) :
    catalog.followStep onwards id guard = (.ok id, guard) := by
  unfold followStep
  rw [h]
  rfl

theorem followStep_some (h : catalog.types.referenced? id = some definition)
    (guard : Guard ModelId) :
    catalog.followStep onwards id guard =
      match (guard.enter definition).1 with
      | .entered =>
          let (result, guard) := match catalog.models.body? definition with
            | some body => onwards body (guard.enter definition).2
            | none => (.error definition, (guard.enter definition).2)
          (result, guard.leave definition)
      | _ => (.error definition, (guard.enter definition).2) := by
  unfold followStep
  rw [h]
  show (match (guard.enter definition).1 with
    | .entered => _
    | _ => _ : StateM (Guard ModelId) (Except ModelId TypeId)) (guard.enter definition).2 = _
  cases (guard.enter definition).1 with
  | entered => cases catalog.models.body? definition <;> rfl
  | cycle => rfl
  | tooDeep => rfl
  | tooMany => rfl

/-- One step of the way ends where the rest of the way does. -/
theorem leadsTo_of_followStep
    (ih : ∀ body guard target, (onwards body guard).1 = .ok target → catalog.LeadsTo body target)
    {guard : Guard ModelId} {target : TypeId}
    (h : (catalog.followStep onwards id guard).1 = .ok target) : catalog.LeadsTo id target := by
  cases hr : catalog.types.referenced? id with
  | none =>
    rw [followStep_none hr] at h
    cases h
    exact .here id
  | some definition =>
    rw [followStep_some hr] at h
    split at h
    · cases hb : catalog.models.body? definition with
      | none => simp [hb] at h
      | some body =>
        simp only [hb] at h
        exact .onwards hr hb (ih _ _ _ h)
    · cases h

end

theorem leadsTo_of_follow (catalog : Catalog) :
    ∀ (levels : Nat) (id : TypeId) (guard : Guard ModelId) (target : TypeId),
      (catalog.follow levels id guard).1 = .ok target → catalog.LeadsTo id target
  | 0, _, _, _, h => leadsTo_of_followStep
      (fun body _ _ h' => by cases h'; exact .here body) h
  | levels + 1, _, _, _, h => leadsTo_of_followStep (leadsTo_of_follow catalog levels) h

theorem leadsTo_of_resolve {catalog : Catalog} {id target : TypeId}
    (h : catalog.resolve id = .ok target) : catalog.LeadsTo id target :=
  leadsTo_of_follow catalog _ _ _ _ h

theorem leadsTo_resolved (catalog : Catalog) (id : TypeId) :
    catalog.LeadsTo id (catalog.resolved id) := by
  unfold resolved
  split
  next h => exact leadsTo_of_resolve h
  next => exact .here id

theorem follow_none {catalog : Catalog} {id : TypeId}
    (h : catalog.types.referenced? id = none) :
    ∀ (levels : Nat) (guard : Guard ModelId), catalog.follow levels id guard = (.ok id, guard)
  | 0, guard => followStep_none h guard
  | _ + 1, guard => followStep_none h guard

/-- A type that is no reference is the end of its chain. -/
theorem resolve_of_referenced?_eq_none {catalog : Catalog} {id : TypeId}
    (h : catalog.types.referenced? id = none) : catalog.resolve id = .ok id := by
  unfold resolve
  rw [follow_none h]

theorem resolved_of_referenced?_eq_none {catalog : Catalog} {id : TypeId}
    (h : catalog.types.referenced? id = none) : catalog.resolved id = id := by
  simp only [resolved, resolve_of_referenced?_eq_none h]

/-- At the end of the aliases of a type there is a union of the alternatives, or the only one. -/
theorem alternatives_cases (catalog : Catalog) (id : TypeId) :
    (catalog.types.unionMembers? (catalog.resolved id) = none
        ∧ catalog.alternatives id = [catalog.resolved id])
      ∨ catalog.types.unionMembers? (catalog.resolved id) = some (catalog.alternatives id) := by
  cases union : catalog.types.unionMembers? (catalog.resolved id) with
  | none => exact .inl ⟨rfl, by simp [alternatives, union]⟩
  | some members => exact .inr (by simp [alternatives, union])

theorem alternatives_eq_singleton {catalog : Catalog} {id : TypeId}
    (notReference : catalog.types.referenced? id = none)
    (notUnion : catalog.types.unionMembers? id = none) : catalog.alternatives id = [id] := by
  simp [alternatives, resolved_of_referenced?_eq_none notReference, notUnion]

theorem classify_of_lookup {catalog : Catalog} {id : TypeId} {entry : TypeEntry}
    (found : catalog.types.lookup id = some entry)
    (proper : catalog.types.referenced? id = none) : catalog.classify id = classOfEntry entry := by
  simp only [classify, resolve_of_referenced?_eq_none proper, found]

theorem classify_of_unionMembers? {catalog : Catalog} {id : TypeId} {members : List TypeId}
    (union : catalog.types.unionMembers? id = some members) :
    catalog.classify id = .union members :=
  classify_of_lookup (TypeTable.unionMembers?_eq_some_iff.1 union)
    (TypeTable.referenced?_of_unionMembers? union)

theorem alternatives_of_unionMembers? {catalog : Catalog} {id : TypeId} {members : List TypeId}
    (union : catalog.types.unionMembers? id = some members) :
    catalog.alternatives id = members := by
  have proper := TypeTable.referenced?_of_unionMembers? union
  simp [alternatives, resolved_of_referenced?_eq_none proper, union]

/-- A chain from a known type stays with known types. -/
theorem LeadsTo.knows {catalog : Catalog} (wf : catalog.WellFormed) {id target : TypeId}
    (h : catalog.LeadsTo id target) (known : catalog.types.Knows id) :
    catalog.types.Knows target := by
  induction h with
  | here => exact known
  | onwards _ defined _ ih => exact ih (wf.bodies _ _ defined)

theorem WellFormed.knows_resolved {catalog : Catalog} (wf : catalog.WellFormed) {id : TypeId}
    (known : catalog.types.Knows id) : catalog.types.Knows (catalog.resolved id) :=
  (leadsTo_resolved catalog id).knows wf known

theorem WellFormed.knows_alternative {catalog : Catalog} (wf : catalog.WellFormed) {id m : TypeId}
    (known : catalog.types.Knows id) (h : m ∈ catalog.alternatives id) :
    catalog.types.Knows m := by
  rcases catalog.alternatives_cases id with ⟨_, single⟩ | union
  · rw [single, List.mem_singleton] at h
    exact h ▸ wf.knows_resolved known
  · exact (wf.types.normalUnion union).known m h

/-- No alternative is a union. -/
theorem WellFormed.unionMembers?_of_mem_alternatives {catalog : Catalog} (wf : catalog.WellFormed)
    {id m : TypeId} (mem : m ∈ catalog.alternatives id) : catalog.types.unionMembers? m = none := by
  rcases catalog.alternatives_cases id with ⟨notUnion, single⟩ | union
  · rw [single, List.mem_singleton] at mem
    exact mem ▸ notUnion
  · exact (wf.types.normalUnion union).flat m mem

/-! ## Ends of chains -/

section

variable {catalog : Catalog}

theorem referenced?_of_followStep
    {onwards : TypeId → StateM (Guard ModelId) (Except ModelId TypeId)} {id target : TypeId}
    {guard : Guard ModelId}
    (ih : ∀ body entered, guard.depth + 1 = entered.depth → guard.depth < guard.maxDepth →
      entered.maxDepth = guard.maxDepth → (onwards body entered).1 = .ok target →
      catalog.types.referenced? target = none)
    (h : (catalog.followStep onwards id guard).1 = .ok target) :
    catalog.types.referenced? target = none := by
  cases hr : catalog.types.referenced? id with
  | none =>
    rw [followStep_none hr] at h
    cases h
    exact hr
  | some definition =>
    rw [followStep_some hr] at h
    split at h
    next entered =>
      cases hb : catalog.models.body? definition with
      | none => simp [hb] at h
      | some body =>
        simp only [hb] at h
        obtain ⟨room, same⟩ := Guard.room_of_enter entered
        have deeper : guard.depth + 1 = (guard.enter definition).2.depth := by
          simp [Guard.depth, Guard.keys_enter_of_eq entered]
        exact ih body _ deeper room same h
    next => cases h

/-- A chain that is followed over as many models as the guard has room for ends at no reference. -/
theorem referenced?_of_follow : ∀ (levels : Nat) (id : TypeId) (guard : Guard ModelId)
    (target : TypeId), guard.maxDepth ≤ guard.depth + levels →
      (catalog.follow levels id guard).1 = .ok target → catalog.types.referenced? target = none
  | 0, _, _, _, enough, h => referenced?_of_followStep
      (fun _ _ _ room _ _ => absurd room (by omega)) h
  | levels + 1, _, _, _, enough, h => referenced?_of_followStep
      (fun body entered deeper _ same h' =>
        referenced?_of_follow levels body entered _ (by omega) h') h

theorem referenced?_of_resolve {id target : TypeId} (h : catalog.resolve id = .ok target) :
    catalog.types.referenced? target = none :=
  referenced?_of_follow WalkKind.aliases.maxDepth id (Guard.forWalk .aliases) target
    (Nat.le_add_left _ _) h

theorem LeadsTo.trans {first second third : TypeId} (h : catalog.LeadsTo first second)
    (h' : catalog.LeadsTo second third) : catalog.LeadsTo first third := by
  induction h with
  | here => exact h'
  | onwards reference defined _ ih => exact .onwards reference defined (ih h')

/-- A chain has one end. -/
theorem LeadsTo.unique {id target other : TypeId} (h : catalog.LeadsTo id target)
    (ends : catalog.types.referenced? target = none) (h' : catalog.LeadsTo id other)
    (ends' : catalog.types.referenced? other = none) : target = other := by
  induction h with
  | here =>
    cases h' with
    | here => rfl
    | onwards reference =>
      rw [reference] at ends
      cases ends
  | onwards reference defined _ ih =>
    cases h' with
    | here =>
      rw [reference] at ends'
      cases ends'
    | onwards reference' defined' rest =>
      rw [reference] at reference'
      cases reference'
      rw [defined] at defined'
      cases defined'
      exact ih ends rest

/-- What is no reference is not taken for one that leads nowhere. -/
theorem classOfEntry_ne_unresolved {id : TypeId} (proper : catalog.types.referenced? id = none)
    (definition : ModelId) :
    classOfEntry (catalog.types.lookup id) ≠ .unresolved definition := by
  intro broken
  cases found : catalog.types.lookup id with
  | none =>
    rw [found] at broken
    cases broken
  | some entry =>
    rw [found] at broken
    cases entry with
    | reference => simp [TypeTable.referenced?, found] at proper
    | intrinsic k => cases k <;> cases broken
    | literal | leaf | object | array | union => cases broken

/-- Every chain of aliases is followed to its end. -/
def Unbroken (catalog : Catalog) : Prop :=
  ∀ id, ∃ target, catalog.resolve id = .ok target

theorem unbroken_iff (catalog : Catalog) :
    catalog.Unbroken ↔ ∀ i < catalog.types.entries.length,
      (catalog.resolve ⟨TypeId.first + i⟩).toOption.isSome := by
  constructor
  · intro unbroken i _
    obtain ⟨target, h⟩ := unbroken ⟨TypeId.first + i⟩
    rw [h]
    rfl
  · intro every id
    cases hr : catalog.types.referenced? id with
    | none => exact ⟨id, resolve_of_referenced?_eq_none hr⟩
    | some definition =>
      have found := TypeTable.referenced?_eq_some_iff.1 hr
      unfold TypeTable.lookup at found
      split at found
      next => simp [Option.map_eq_some_iff] at found
      next later =>
        have le : TypeId.first ≤ id.index := by simpa [TypeId.isIntrinsic] using later
        have ends := every _ (List.getElem?_eq_some_iff.1 found).1
        rw [Nat.add_sub_cancel' le] at ends
        cases h : catalog.resolve id with
        | ok target => exact ⟨target, rfl⟩
        | error =>
          rw [h] at ends
          cases ends

instance (catalog : Catalog) : Decidable catalog.Unbroken :=
  decidable_of_iff _ catalog.unbroken_iff.symm

namespace Unbroken

theorem resolve_eq (unbroken : catalog.Unbroken) (id : TypeId) :
    catalog.resolve id = .ok (catalog.resolved id) := by
  obtain ⟨target, h⟩ := unbroken id
  simp only [resolved, h]

theorem referenced?_resolved (unbroken : catalog.Unbroken) (id : TypeId) :
    catalog.types.referenced? (catalog.resolved id) = none :=
  referenced?_of_resolve (unbroken.resolve_eq id)

theorem resolved_eq (unbroken : catalog.Unbroken) {id target : TypeId}
    (h : catalog.LeadsTo id target) : catalog.resolved id = catalog.resolved target :=
  (leadsTo_resolved catalog id).unique (unbroken.referenced?_resolved id)
    (h.trans (leadsTo_resolved catalog target)) (unbroken.referenced?_resolved target)

theorem classify_eq (unbroken : catalog.Unbroken) (id : TypeId) :
    catalog.classify id = classOfEntry (catalog.types.lookup (catalog.resolved id)) := by
  simp only [classify, unbroken.resolve_eq id]

theorem classify_ne_unresolved (unbroken : catalog.Unbroken) (id : TypeId) (definition : ModelId) :
    catalog.classify id ≠ .unresolved definition := by
  rw [unbroken.classify_eq]
  exact classOfEntry_ne_unresolved (unbroken.referenced?_resolved id) definition

theorem classify_eq_of_leadsTo (unbroken : catalog.Unbroken) {id target : TypeId}
    (leads : catalog.LeadsTo id target) : catalog.classify id = catalog.classify target := by
  rw [unbroken.classify_eq, unbroken.classify_eq, unbroken.resolved_eq leads]

theorem alternatives_eq (unbroken : catalog.Unbroken) {id target : TypeId}
    (leads : catalog.LeadsTo id target) : catalog.alternatives id = catalog.alternatives target := by
  simp only [alternatives, unbroken.resolved_eq leads]

end Unbroken

end

/-! ## Reading a type in a later table -/

namespace GrowsTo

variable {earlier later : Catalog} {id : TypeId}

theorem followStep_eq (grows : earlier.GrowsTo later) (wf : earlier.WellFormed)
    {onwards onwards' : TypeId → StateM (Guard ModelId) (Except ModelId TypeId)}
    (ih : ∀ body, earlier.types.Knows body → ∀ guard, onwards' body guard = onwards body guard)
    (known : earlier.types.Knows id) (guard : Guard ModelId) :
    later.followStep onwards' id guard = earlier.followStep onwards id guard := by
  have same := grows.types.referenced?_eq known
  cases hr : earlier.types.referenced? id with
  | none => rw [followStep_none hr, followStep_none (same.trans hr)]
  | some definition =>
    rw [followStep_some hr, followStep_some (same.trans hr), grows.models]
    cases hb : earlier.models.body? definition with
    | none => rfl
    | some body => simp only [ih body (wf.bodies definition body hb)]

theorem follow_eq (grows : earlier.GrowsTo later) (wf : earlier.WellFormed) :
    ∀ (levels : Nat) {id : TypeId}, earlier.types.Knows id → ∀ guard : Guard ModelId,
      later.follow levels id guard = earlier.follow levels id guard
  | 0, _, known, guard => grows.followStep_eq wf (fun _ _ _ => rfl) known guard
  | levels + 1, _, known, guard =>
      grows.followStep_eq wf (fun _ h guard => grows.follow_eq wf levels h guard) known guard

/-- A chain that ends at a known type ends there in every later catalog, whatever else is known. -/
theorem followStep_eq_ok (grows : earlier.GrowsTo later)
    {onwards onwards' : TypeId → StateM (Guard ModelId) (Except ModelId TypeId)} {target : TypeId}
    (ih : ∀ body guard, (onwards body guard).1 = .ok target →
      onwards' body guard = onwards body guard)
    (known : earlier.types.Knows target) {guard : Guard ModelId}
    (h : (earlier.followStep onwards id guard).1 = .ok target) :
    later.followStep onwards' id guard = earlier.followStep onwards id guard := by
  cases hr : earlier.types.referenced? id with
  | none =>
    rw [followStep_none hr] at h ⊢
    cases h
    exact followStep_none ((grows.types.referenced?_eq known).trans hr) guard
  | some definition =>
    have hr' : later.types.referenced? id = some definition :=
      TypeTable.referenced?_eq_some_iff.2
        (grows.types.lookup (TypeTable.referenced?_eq_some_iff.1 hr))
    rw [followStep_some hr] at h ⊢
    rw [followStep_some hr', grows.models]
    split at h
    · cases hb : earlier.models.body? definition with
      | none => rfl
      | some body =>
        simp only [hb] at h ⊢
        rw [ih body _ h]
    · cases h

theorem follow_eq_ok (grows : earlier.GrowsTo later) {target : TypeId}
    (known : earlier.types.Knows target) :
    ∀ (levels : Nat) {id : TypeId} {guard : Guard ModelId},
      (earlier.follow levels id guard).1 = .ok target →
      later.follow levels id guard = earlier.follow levels id guard
  | 0, _, _, h => grows.followStep_eq_ok (fun _ _ _ => rfl) known h
  | levels + 1, _, _, h =>
      grows.followStep_eq_ok (fun _ _ h => grows.follow_eq_ok known levels h) known h

theorem resolve_eq_ok (grows : earlier.GrowsTo later) {target : TypeId}
    (known : earlier.types.Knows target) (h : earlier.resolve id = .ok target) :
    later.resolve id = .ok target := by
  unfold resolve at h ⊢
  rw [grows.follow_eq_ok known _ h]
  exact h

theorem resolve_eq (grows : earlier.GrowsTo later) (wf : earlier.WellFormed)
    (known : earlier.types.Knows id) : later.resolve id = earlier.resolve id := by
  unfold resolve
  rw [grows.follow_eq wf _ known]

theorem resolved_eq (grows : earlier.GrowsTo later) (wf : earlier.WellFormed)
    (known : earlier.types.Knows id) : later.resolved id = earlier.resolved id := by
  unfold resolved
  rw [grows.resolve_eq wf known]

theorem classify_eq (grows : earlier.GrowsTo later) (wf : earlier.WellFormed)
    (known : earlier.types.Knows id) : later.classify id = earlier.classify id := by
  unfold classify
  rw [grows.resolve_eq wf known]
  cases h : earlier.resolve id with
  | error definition => rfl
  | ok target =>
    simp only [grows.types.lookup_eq ((leadsTo_of_resolve h).knows wf known)]

theorem alternatives_eq (grows : earlier.GrowsTo later) (wf : earlier.WellFormed)
    (known : earlier.types.Knows id) : later.alternatives id = earlier.alternatives id := by
  simp only [alternatives, grows.resolved_eq wf known,
    grows.types.unionMembers?_eq (wf.knows_resolved known)]

theorem declared_eq (grows : earlier.GrowsTo later) (wf : earlier.WellFormed)
    (known : earlier.types.Knows id) (optional : Bool) :
    later.declared id optional = earlier.declared id optional := by
  unfold declared
  rw [grows.alternatives_eq wf known]

theorem strip_eq (grows : earlier.GrowsTo later) (wf : earlier.WellFormed)
    (known : earlier.types.Knows id) : later.strip id = earlier.strip id := by
  unfold strip
  rw [grows.resolved_eq wf known, grows.types.unionMembers?_eq (wf.knows_resolved known)]

end GrowsTo

/-! ## A recursive model -/

/-- One model, `Person`: a person has a name and possibly friends, each of whom may be `null`. -/
def person : Catalog where
  types.entries := [.reference ⟨1⟩, .union [TypeId.null, ⟨100⟩], .array ⟨101⟩,
    .object [⟨"name", .ofIntrinsic .string, false⟩, ⟨"friends", ⟨102⟩, true⟩]]
  types.names := .builtin
  models.entries := [⟨"Person", some ⟨103⟩⟩]

end Catalog

end ModelForms
