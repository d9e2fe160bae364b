import ModelForms.Proofs.Tree.UnnamedTypes

/-!
# Naming types

A new model may have a part of a type as its body, and a reference to the model may stand in the
place of the part.  Aliases are followed where a declared type starts, and not among the members of
a union, so what a union is declared to be may change with that.

It does not change if the naming is harmless, and only then (`Catalog.Naming.namesHarmlessly_iff`).
In every declared union that it touches, whether the union includes `undefined` is settled by the
members of the new union themselves, and either the union is a control unasked, or the part is no
union itself and its name stands beside nothing but `null` and `undefined`.

Then types that are the same without the name agree, so the forms over two related models have the
same outline (`DerivedForm.derive_iff_of_naming`).
-/

namespace ModelForms

open NamedTerm (unnamed)

/-- The types that say nothing of their own in a union. -/
def NamedTerm.IsMute (term : NamedTerm) : Prop :=
  ∃ k ∈ [Intrinsic.never, .unknown, .null, .undefined], term = .intrinsic k

theorem NamedTerm.isMute_of_nullish {k : Intrinsic} (nullish : k ∈ [Intrinsic.null, .undefined]) :
    (NamedTerm.intrinsic k).IsMute :=
  ⟨k, List.mem_cons_of_mem _ (List.mem_cons_of_mem _ nullish), rfl⟩

namespace Catalog

/-! ## What a naming touches -/

/-- The type of a property, of the elements of an array, or of a model. -/
inductive Declares (catalog : Catalog) (d : TypeId) : Prop
  | property {id : TypeId} {properties : List Property} {p : Property}
      (found : catalog.types.lookup id = some (.object properties)) (mem : p ∈ properties)
      (is : p.type = d)
  | element {id : TypeId} (found : catalog.types.lookup id = some (.array d))
  | body {definition : ModelId} (defined : catalog.models.body? definition = some d)

section

variable (catalog other : Catalog) (name : String) (type : NamedTerm)

/-- The types are the same without the name.  If the second one is a union, it is declared and not
just a member of another. -/
structure Related (d d' : TypeId) : Prop where
  unnamed : catalog.Unnamed other name type d d'
  declared : ∀ members', other.types.unionMembers? d' = some members' → other.Declares d'

/-- The name is a member of the union, or two members are the same without it. -/
def Touches (members' : List TypeId) : Prop :=
  (∃ m ∈ members', other.IsName name m)
    ∨ ¬ (members'.map (other.unnamedTerm name type)).Nodup

/-- Beside the name, there is nothing but `null` and `undefined` among the members of a union. -/
def Beside (members' : List TypeId) : Prop :=
  ∀ m ∈ members', other.IsName name m ∨ m.isNullish = true

/-- A union that remains what it is when its parts are named. -/
structure Harmless (d : TypeId) (members' : List TypeId) : Prop where
  absence : TypeId.undefined ∈ catalog.alternatives d ↔ TypeId.undefined ∈ members'
  shape : (catalog.shape d).isPlain = true
    ∨ (∀ members, type ≠ .union members) ∧ other.Beside name members'

/-- Every declared union that the naming touches remains what it is. -/
def NamesHarmlessly : Prop :=
  ∀ d d' members', catalog.Related other name type d d' →
    other.types.unionMembers? d' = some members' → other.Touches name type members' →
    catalog.Harmless other name type d members'

end

variable {catalog other : Catalog} {name : String} {type : NamedTerm} {d d' : TypeId}
  {members' : List TypeId}

/-! ## Controls unasked -/

/-- What has only controls for alternatives is a control. -/
theorem WellFormed.isPlain_shape (wf : catalog.WellFormed) (unbroken : catalog.Unbroken)
    (h : ∀ m ∈ catalog.alternatives d, (catalog.classify m).isPlain = true) :
    (catalog.shape d).isPlain = true := by
  match hk : catalog.kept d with
  | [] => exact absurd hk (wf.kept_ne_nil d)
  | [m] =>
    rw [wf.shape_of_kept_eq_singleton unbroken hk]
    exact h m (mem_alternatives_of_mem_kept (hk ▸ List.mem_singleton_self m))
  | _ :: _ :: _ =>
    obtain ⟨ms, shape⟩ := @WellFormed.exists_shape_eq_union _ d wf unbroken (by simp [hk])
    rw [shape]
    rfl

/-- What is left of a union with two members beside `null` and `undefined` is a control. -/
theorem WellFormed.isPlain_shape_of_ne (wf : catalog.WellFormed) (unbroken : catalog.Unbroken)
    {m m' : TypeId} (mem : m ∈ catalog.alternatives d) (mem' : m' ∈ catalog.alternatives d)
    (proper : m.isNullish = false) (proper' : m'.isNullish = false) (unequal : m ≠ m') :
    (catalog.shape d).isPlain = true := by
  have first := mem_kept_of_mem_alternatives mem proper
  have second := mem_kept_of_mem_alternatives mem' proper'
  match hk : catalog.kept d with
  | [] =>
    rw [hk] at first
    cases first
  | [only] =>
    rw [hk, List.mem_singleton] at first second
    exact absurd (first.trans second.symm) unequal
  | _ :: _ :: _ =>
    obtain ⟨ms, shape⟩ := @WellFormed.exists_shape_eq_union _ d wf unbroken (by simp [hk])
    rw [shape]
    rfl

theorem isPlain_classify_ofIntrinsic (catalog : Catalog) {k : Intrinsic} (h : k ≠ .date) :
    (catalog.classify (TypeId.ofIntrinsic k)).isPlain = true := by
  have found := catalog.types.lookup_ofIntrinsic k
  rw [classify_of_lookup found (by simp [TypeTable.referenced?, found])]
  cases k with
  | date => exact absurd rfl h
  | _ => rfl

theorem isNullish_of_referenced? {definition : ModelId}
    (refers : catalog.types.referenced? d = some definition) : d.isNullish = false := by
  rw [Bool.eq_false_iff]
  intro nullish
  obtain ⟨k, _, rfl⟩ := TypeId.exists_intrinsic_of_isNullish nullish
  cases k <;> cases refers

theorem Related.of_flat (h : catalog.Unnamed other name type d d')
    (flat : other.types.unionMembers? d' = none) : catalog.Related other name type d d' :=
  ⟨h, fun _ right => by cases flat.symm.trans right⟩

namespace Naming

variable (naming : catalog.Naming other name type)

include naming

/-- Types that say nothing of their own make a control. -/
theorem isPlain_shape_of_mute (known : catalog.types.Knows d)
    (mute : ∀ term ∈ (catalog.namedTerm d).alternatives, term.IsMute) :
    (catalog.shape d).isPlain = true := by
  have wf := naming.closed.wellFormed
  have proper : catalog.types.referenced? d = none := by
    rw [Option.eq_none_iff_forall_ne_some]
    intro definition refers
    obtain ⟨model, _, same⟩ := naming.closed.namedTerm_of_referenced? refers
    obtain ⟨k, _, intrinsic⟩ := mute (.reference model) (by simp [same, NamedTerm.alternatives])
    cases intrinsic
  refine wf.isPlain_shape naming.unbroken fun m mem => ?_
  have knownMember : catalog.types.Knows m := wf.knows_alternative known mem
  have among : m ∈ (catalog.types.unionMembers? d).getD [d] := by
    simpa only [alternatives, resolved_of_referenced?_eq_none proper] using mem
  obtain ⟨k, isMute, same⟩ :=
    mute _ ((mem_alternatives_namedTerm_iff wf.types known).2 ⟨m, among, rfl⟩)
  rw [namedTerm_eq_intrinsic_iff naming.closed naming.names knownMember] at same
  subst same
  refine isPlain_classify_ofIntrinsic catalog ?_
  rintro rfl
  simp at isMute

/-! ## The body of the name -/

/-- The name leads to a type that is, without the name, the part that is named. -/
theorem exists_body {r : TypeId} (known : other.types.Knows r) (isName : other.IsName name r) :
    ∃ body', other.LeadsTo r body' ∧ other.Declares body' ∧ other.types.Knows body'
      ∧ other.unnamedTerm name type body' = type ∧ ¬ other.IsName name body' := by
  obtain ⟨definition, refers, named⟩ := naming.closed'.exists_referenced? known isName
  have leads := leadsTo_resolved other r
  have ends := naming.unbroken'.referenced?_resolved r
  generalize other.resolved r = target at leads ends
  cases leads with
  | here => cases refers.symm.trans ends
  | @onwards _ body' _ _ refers' defined rest =>
    cases refers.symm.trans refers'
    have known' := naming.closed'.wellFormed.bodies definition body' defined
    refine ⟨body', .onwards refers defined (.here _), .body defined, known',
      naming.new _ _ named defined, fun isName' => ?_⟩
    -- A name for itself would have no end.
    obtain rfl := namedTerm_injective naming.closed' naming.names' known known'
      (isName.trans isName'.symm)
    have stays {a t : TypeId} (leads : other.LeadsTo a t) (here : a = r) : t = r := by
      induction leads with
      | here => exact here
      | onwards refers' defined' _ ih =>
        rw [here, refers] at refers'
        cases refers'
        exact ih (Option.some.inj (defined'.symm.trans defined))
    rw [stays rest rfl, refers] at ends
    cases ends

theorem isPlain_classify_body {body' : TypeId} (known : other.types.Knows body')
    (proper : ¬ other.IsName name body') (same : other.unnamedTerm name type body' = type)
    (plain : (∃ members, type = .union members) ∨ type.IsMute) :
    (other.classify body').isPlain = true := by
  cases right : other.types.unionMembers? body' with
  | some members' =>
    rw [classify_of_unionMembers? right]
    rfl
  | none =>
    rcases plain with ⟨members, union⟩ | ⟨k, mute, intrinsic⟩
    · exact absurd (same.trans union) (naming.unnamedTerm_ne_union known right proper members)
    · obtain rfl :=
        (naming.unnamedTerm_eq_intrinsic_iff known right proper).1 (same.trans intrinsic)
      refine isPlain_classify_ofIntrinsic other ?_
      rintro rfl
      simp at mute

/-! ## Touched unions -/

section

variable (right : other.types.unionMembers? d' = some members')

include right

/-- What is the same as `null` or `undefined` without the name is that with it. -/
theorem eq_of_isNullish {m m' : TypeId} (mem' : m' ∈ members') (proper : ¬ other.IsName name m')
    (nullish : m.isNullish = true)
    (same : other.unnamedTerm name type m = other.unnamedTerm name type m') : m = m' := by
  have normal := naming.closed'.wellFormed.types.normalUnion right
  obtain ⟨k, _, rfl⟩ := TypeId.exists_intrinsic_of_isNullish nullish
  rw [naming.unnamedTerm_ofIntrinsic] at same
  exact ((naming.unnamedTerm_eq_intrinsic_iff (normal.known m' mem') (normal.flat m' mem')
    proper).1 same.symm).symm

/-- If the name is not a member, a touched union has two other members that are the same without
it. -/
theorem exists_same (touches : other.Touches name type members')
    (proper : ∀ m ∈ members', ¬ other.IsName name m) :
    ∃ m ∈ members', ∃ m' ∈ members', m ≠ m' ∧ m.isNullish = false ∧ m'.isNullish = false := by
  rcases touches with ⟨m, mem, isName⟩ | twice
  · exact absurd isName (proper m mem)
  · have normal := naming.closed'.wellFormed.types.normalUnion right
    by_contra none
    refine twice (List.Nodup.map_on (fun m mem m' mem' same => ?_) normal.nodup)
    by_contra unequal
    refine none ⟨m, mem, m', mem', unequal, ?_, ?_⟩
    · rw [Bool.eq_false_iff]
      exact fun nullish => unequal
        (naming.eq_of_isNullish right mem' (proper m' mem') nullish same)
    · rw [Bool.eq_false_iff]
      exact fun nullish => unequal
        (naming.eq_of_isNullish right mem (proper m mem) nullish same.symm).symm

theorem isNullish_of_isName {m : TypeId} (mem : m ∈ members') (isName : other.IsName name m) :
    m.isNullish = false := by
  have normal := naming.closed'.wellFormed.types.normalUnion right
  obtain ⟨_, refers, _⟩ := naming.closed'.exists_referenced? (normal.known m mem) isName
  exact isNullish_of_referenced? refers

theorem eq_of_isName {m m' : TypeId} (mem : m ∈ members') (isName : other.IsName name m)
    (mem' : m' ∈ members') (isName' : other.IsName name m') : m = m' :=
  have normal := naming.closed'.wellFormed.types.normalUnion right
  namedTerm_injective naming.closed' naming.names' (normal.known m mem) (normal.known m' mem')
    (isName.trans isName'.symm)

/-- Where there is something else in a touched union, it is a control. -/
theorem isPlain_shape_of_not_beside (touches : other.Touches name type members')
    (notBeside : ¬ other.Beside name members') : (other.shape d').isPlain = true := by
  have alternatives := alternatives_of_unionMembers? right
  have two : ∃ m ∈ members', ∃ m' ∈ members', m ≠ m' ∧ m.isNullish = false
      ∧ m'.isNullish = false := by
    by_cases named : ∃ r ∈ members', other.IsName name r
    · obtain ⟨r, mem, isName⟩ := named
      simp only [Beside, not_forall, not_or, Bool.not_eq_true] at notBeside
      obtain ⟨m, mem', proper, notNullish⟩ := notBeside
      exact ⟨m, mem', r, mem, fun same => proper (same ▸ isName), notNullish,
        naming.isNullish_of_isName right mem isName⟩
    · exact naming.exists_same right touches fun m mem isName => named ⟨m, mem, isName⟩
  obtain ⟨m, mem, m', mem', unequal, proper, proper'⟩ := two
  exact naming.closed'.wellFormed.isPlain_shape_of_ne naming.unbroken' (alternatives ▸ mem)
    (alternatives ▸ mem') proper proper' unequal

section

variable (beside : other.Beside name members')

include beside

/-- If there is nothing else in a touched union, the name is a member. -/
theorem exists_isName (touches : other.Touches name type members') :
    ∃ r ∈ members', other.IsName name r := by
  by_contra none
  have proper (m : TypeId) (mem : m ∈ members') : ¬ other.IsName name m :=
    fun isName => none ⟨m, mem, isName⟩
  obtain ⟨m, mem, _, _, _, notNullish, _⟩ := naming.exists_same right touches proper
  rcases beside m mem with isName | nullish
  · exact proper m mem isName
  · rw [notNullish] at nullish
    cases nullish

variable {r : TypeId} (mem : r ∈ members') (isName : other.IsName name r)

include mem isName

/-- What is left of the union with the name is the name, and so the body. -/
theorem exists_shape_eq : ∃ body', other.Declares body' ∧ other.types.Knows body'
    ∧ other.unnamedTerm name type body' = type ∧ ¬ other.IsName name body'
    ∧ other.shape d' = other.classify body' := by
  have wf' := naming.closed'.wellFormed
  have normal := wf'.types.normalUnion right
  obtain ⟨body', leads, declares, known, same, proper⟩ :=
    naming.exists_body (normal.known r mem) isName
  have left : members'.filter (!·.isNullish) = [r] := by
    refine normal.filter_eq_singleton fun m => ⟨?_, ?_⟩
    · rintro ⟨mem', notNullish⟩
      rcases beside m mem' with isName' | nullish
      · exact naming.eq_of_isName right mem' isName' mem isName
      · simp [nullish] at notNullish
    · rintro rfl
      exact ⟨mem, by simp [naming.isNullish_of_isName right mem isName]⟩
  have kept : other.kept d' = [r] := by
    simp [Catalog.kept, alternatives_of_unionMembers? right, left]
  refine ⟨body', declares, known, same, proper, ?_⟩
  rw [wf'.shape_of_kept_eq_singleton naming.unbroken' kept]
  exact naming.unbroken'.classify_eq_of_leadsTo leads

variable (h : catalog.Unnamed other name type d d')

include h

omit mem isName in
/-- A type that says nothing of its own is a control beside `null` and `undefined`. -/
theorem isPlain_shape_of_beside (mute : type.IsMute) : (catalog.shape d).isPlain = true := by
  have muteMember : ∀ term ∈ members'.map (other.unnamedTerm name type), term.IsMute := by
    intro term mem
    obtain ⟨m, among, rfl⟩ := List.mem_map.1 mem
    rcases beside m among with isName | nullish
    · rwa [unnamedTerm_of_isName isName]
    · obtain ⟨k, isNullish, rfl⟩ := TypeId.exists_intrinsic_of_isNullish nullish
      rw [naming.unnamedTerm_ofIntrinsic]
      exact NamedTerm.isMute_of_nullish isNullish
  have proper : ∀ term ∈ members'.map (other.unnamedTerm name type), ∀ members,
      term ≠ .union members := by
    rintro term among members rfl
    obtain ⟨_, _, intrinsic⟩ := muteMember _ among
    cases intrinsic
  refine naming.isPlain_shape_of_mute h.known fun term among => ?_
  rw [naming.namedTerm_eq_unionOf h right] at among
  by_cases isUnknown : term = .unknown
  · exact ⟨.unknown, by simp, isUnknown⟩
  by_cases isNever : term = .never
  · exact ⟨.never, by simp, isNever⟩
  refine muteMember term ?_
  rw [← NamedTerm.flattened_eq_self proper]
  exact NamedTerm.mem_flattened_of_mem_alternatives
    (fun term among => NamedTerm.flat_of_ne_union (proper term among)) among isUnknown isNever

section

variable (single : ∀ members, type ≠ .union members) (loud : ¬ type.IsMute)

include single loud

omit beside mem isName h in
theorem isMember_of_loud {m : TypeId} (among : m ∈ members') :
    (other.unnamedTerm name type m).IsMember := by
  by_cases isName : other.IsName name m
  · rw [unnamedTerm_of_isName isName]
    exact ⟨single, fun same => loud ⟨.unknown, by simp, same⟩,
      fun same => loud ⟨.never, by simp, same⟩⟩
  · exact naming.isMember_unnamedTerm right among isName

omit single h in
/-- Beside the name there is `null` or `undefined`. -/
theorem exists_nullish : ∃ k, TypeId.ofIntrinsic k ∈ members' ∧ type ≠ .intrinsic k := by
  obtain ⟨m, among, unequal⟩ :=
    (naming.closed'.wellFormed.types.normalUnion right).exists_ne r
  have nullish := (beside m among).resolve_left fun isName' =>
    unequal (naming.eq_of_isName right among isName' mem isName)
  obtain ⟨k, isNullish, rfl⟩ := TypeId.exists_intrinsic_of_isNullish nullish
  exact ⟨k, among, fun same => loud (same ▸ NamedTerm.isMute_of_nullish isNullish)⟩

/-- Beside `null` and `undefined`, a type that says something of its own is left of the union. -/
theorem exists_kept_eq :
    ∃ members m, catalog.types.unionMembers? d = some members ∧ catalog.kept d = [m]
      ∧ catalog.types.Knows m ∧ catalog.namedTerm m = type := by
  have isType : other.unnamedTerm name type r = type := unnamedTerm_of_isName isName
  have isMember : ∀ term ∈ members'.map (other.unnamedTerm name type), term.IsMember :=
    List.forall_mem_map.2 fun m among => naming.isMember_of_loud right single loud among
  have several : 2 ≤ (members'.map (other.unnamedTerm name type)).toFinset.card := by
    obtain ⟨k, among, unequal⟩ := naming.exists_nullish right beside mem isName loud
    exact Finset.one_lt_card.2 ⟨type, List.mem_toFinset.2 (List.mem_map.2 ⟨r, mem, isType⟩),
      .intrinsic k, List.mem_toFinset.2 (List.mem_map.2
        ⟨_, among, naming.unnamedTerm_ofIntrinsic k⟩), unequal⟩
  obtain ⟨members, isUnion, sets⟩ :=
    naming.exists_members h.known (naming.namedTerm_eq_unionOf h right) isMember several
  have normal := naming.closed.wellFormed.types.normalUnion isUnion
  have mem_iff (term : NamedTerm) : (∃ m ∈ members, catalog.namedTerm m = term)
      ↔ ∃ m ∈ members', other.unnamedTerm name type m = term := by
    simpa using Finset.ext_iff.1 sets term
  obtain ⟨m, among, same⟩ := (mem_iff type).2 ⟨r, mem, isType⟩
  -- All other members are the same as members beside the name.
  have left : members.filter (!·.isNullish) = [m] := by
    refine normal.filter_eq_singleton fun m' => ⟨?_, ?_⟩
    · rintro ⟨among', proper⟩
      obtain ⟨given, mem', same'⟩ := (mem_iff _).1 ⟨m', among', rfl⟩
      rcases beside given mem' with isName' | nullish
      · rw [unnamedTerm_of_isName isName'] at same'
        exact namedTerm_injective naming.closed naming.names (normal.known m' among')
          (normal.known m among) (same'.symm.trans same.symm)
      · obtain ⟨k, _, rfl⟩ := TypeId.exists_intrinsic_of_isNullish nullish
        rw [naming.unnamedTerm_ofIntrinsic] at same'
        obtain rfl := (namedTerm_eq_intrinsic_iff naming.closed naming.names
          (normal.known m' among')).1 same'.symm
        simp [nullish] at proper
    · rintro rfl
      refine ⟨among, ?_⟩
      rw [Bool.not_eq_true', Bool.eq_false_iff]
      intro nullish
      obtain ⟨k, isNullish, rfl⟩ := TypeId.exists_intrinsic_of_isNullish nullish
      rw [namedTerm_ofIntrinsic naming.closed.wellFormed.types] at same
      exact loud (same ▸ NamedTerm.isMute_of_nullish isNullish)
  exact ⟨members, m, isUnion, by simp [Catalog.kept, alternatives_of_unionMembers? isUnion, left],
    normal.known m among, same⟩

end

end

end

/-! ## Types that agree -/

/-- Chains of aliases lead to related types. -/
theorem exists_related {target' : TypeId} (related : catalog.Related other name type d d')
    (leads : other.LeadsTo d' target') :
    ∃ target, catalog.LeadsTo d target ∧ catalog.Related other name type target target' := by
  obtain ⟨target, leadsTo, unnamed⟩ := naming.exists_leadsTo related.unnamed leads
  refine ⟨target, leadsTo, unnamed, ?_⟩
  have declared := related.declared
  clear related leadsTo unnamed
  induction leads with
  | here => exact declared
  | onwards _ defined _ ih => exact ih fun _ _ => .body defined

section

variable (harmless : catalog.NamesHarmlessly other name type)

include harmless

/-- A declared union is a control as it is declared, also without the name. -/
theorem isPlain_classify (related : catalog.Related other name type d d')
    (right : other.types.unionMembers? d' = some members') :
    (catalog.classify d).isPlain = true := by
  have h := related.unnamed
  by_cases touches : other.Touches name type members'
  · obtain ⟨_, shape⟩ := harmless d d' members' related right touches
    cases isUnion : catalog.types.unionMembers? (catalog.resolved d) with
    | some members =>
      rw [naming.unbroken.classify_eq_of_leadsTo (leadsTo_resolved catalog d),
        classify_of_unionMembers? isUnion]
      rfl
    | none =>
      have kept := kept_eq_singleton (naming.unbroken.referenced?_resolved d) isUnion
      have same : catalog.shape d = catalog.classify d := by
        rw [naming.unbroken.shape_eq (leadsTo_resolved catalog d),
          naming.closed.wellFormed.shape_of_kept_eq_singleton naming.unbroken kept,
          naming.unbroken.classify_eq_of_leadsTo (leadsTo_resolved catalog d)]
      rw [← same]
      rcases shape with plain | ⟨single, beside⟩
      · exact plain
      · by_cases mute : type.IsMute
        · exact naming.isPlain_shape_of_beside right beside h mute
        · obtain ⟨r, mem, isName⟩ := naming.exists_isName right beside touches
          obtain ⟨_, _, isUnion', _⟩ :=
            naming.exists_kept_eq right beside mem isName h single mute
          have proper := TypeTable.referenced?_of_unionMembers? isUnion'
          rw [resolved_of_referenced?_eq_none proper, isUnion'] at isUnion
          cases isUnion
  · simp only [Touches, not_or, not_exists, not_and, not_not] at touches
    obtain ⟨_, _, isUnion, _⟩ := naming.exists_arranged right h touches.1 touches.2
    rw [classify_of_unionMembers? isUnion]
    rfl

/-- Related types are of one kind. -/
theorem classify_agree (related : catalog.Related other name type d d') :
    TypeClass.Agree (catalog.Related other name type) (catalog.classify d) (other.classify d') := by
  have leads' := leadsTo_resolved other d'
  obtain ⟨target, leads, part⟩ := naming.exists_related related leads'
  have ends := naming.unbroken'.referenced?_resolved d'
  rw [naming.unbroken.classify_eq_of_leadsTo leads, naming.unbroken'.classify_eq_of_leadsTo leads']
  generalize other.resolved d' = target' at part ends ⊢
  have entries {entry entry' : TypeEntry} (left : catalog.types.lookup target = some entry)
      (right : other.types.lookup target' = some entry')
      (proper : ∀ definition, entry ≠ .reference definition)
      (agree : TypeClass.Agree (catalog.Related other name type) (classOfEntry entry)
        (classOfEntry entry')) :
      TypeClass.Agree (catalog.Related other name type) (catalog.classify target)
        (other.classify target') := by
    have notReference : catalog.types.referenced? target = none := by
      cases refers : catalog.types.referenced? target with
      | none => rfl
      | some definition =>
        rw [TypeTable.referenced?_eq_some_iff.1 refers] at left
        cases left
        exact absurd rfl (proper definition)
    rw [classify_of_lookup left notReference, classify_of_lookup right ends]
    exact agree
  cases naming.step part.unnamed with
  | intrinsic k left right =>
    subst left right
    refine entries (catalog.types.lookup_ofIntrinsic k) (other.types.lookup_ofIntrinsic k)
      (by simp) ?_
    cases k with
    | date => exact .atomic none none
    | _ => exact .plain rfl rfl
  | literal left right => exact entries left right (by simp) (.plain rfl rfl)
  | leaf left right => exact entries left right (by simp) (.atomic _ _)
  | object left right parts =>
    refine entries left right (by simp) (.object ?_)
    refine List.forall₂_iff_zip.2 ⟨parts.length_eq, fun {p q} mem => ?_⟩
    have agree := List.forall₂_zip parts mem
    exact ⟨agree.name, agree.optional, agree.type,
      fun _ _ => .property right (List.of_mem_zip mem).2 rfl⟩
  | array left right part =>
    exact entries left right (by simp) (.array ⟨part, fun _ _ => .element right⟩)
  | union right =>
    refine .plain (naming.isPlain_classify harmless part right) ?_
    rw [classify_of_unionMembers? right]
    rfl
  | reference _ right | name right =>
    rw [ends] at right
    cases right

/-- Of the name beside `null` and `undefined` there is left what the part is. -/
theorem shape_agree_of_beside (related : catalog.Related other name type d d')
    (right : other.types.unionMembers? d' = some members')
    (beside : other.Beside name members') {r : TypeId} (mem : r ∈ members')
    (isName : other.IsName name r)
    (settled : (catalog.shape d).isPlain = true ∨ ∀ members, type ≠ .union members) :
    TypeClass.Agree (catalog.Related other name type) (catalog.shape d) (other.shape d') := by
  obtain ⟨body', declares, known, same, proper, shape'⟩ :=
    naming.exists_shape_eq right beside mem isName
  rw [shape']
  by_cases single : ∀ members, type ≠ .union members
  · by_cases mute : type.IsMute
    · exact .plain (naming.isPlain_shape_of_beside right beside related.unnamed mute)
        (naming.isPlain_classify_body known proper same (.inr mute))
    · obtain ⟨_, m, _, kept, knownLeft, same'⟩ :=
        naming.exists_kept_eq right beside mem isName related.unnamed single mute
      rw [naming.closed.wellFormed.shape_of_kept_eq_singleton naming.unbroken kept]
      exact naming.classify_agree harmless
        ⟨⟨knownLeft, known, same'.trans same.symm⟩, fun _ _ => declares⟩
  · simp only [not_forall, not_not] at single
    refine .plain (settled.resolve_right fun none => ?_)
      (naming.isPlain_classify_body known proper same (.inl single))
    obtain ⟨members, union⟩ := single
    exact none members union

end

/-! ### Alternatives -/

section

variable {members arranged : List TypeId}

theorem eq_intrinsic_iff (h : catalog.Unnamed other name type d d')
    (flat : other.types.unionMembers? d' = none) (proper : ¬ other.IsName name d')
    (k : Intrinsic) : d = TypeId.ofIntrinsic k ↔ d' = TypeId.ofIntrinsic k := by
  rw [← namedTerm_eq_intrinsic_iff naming.closed naming.names h.known, h.same]
  exact naming.unnamedTerm_eq_intrinsic_iff h.known' flat proper

theorem isNullish_eq (h : catalog.Unnamed other name type d d')
    (flat : other.types.unionMembers? d' = none) (proper : ¬ other.IsName name d') :
    d.isNullish = d'.isNullish := by
  have null := naming.eq_intrinsic_iff h flat proper .null
  have undefined := naming.eq_intrinsic_iff h flat proper .undefined
  rw [Bool.eq_iff_iff]
  simp only [TypeId.isNullish, Bool.or_eq_true, beq_iff_eq]
  exact or_congr null undefined

theorem mem_intrinsic_iff (parts : List.Forall₂ (catalog.Unnamed other name type) members arranged)
    (plain : ∀ m ∈ arranged, other.types.unionMembers? m = none ∧ ¬ other.IsName name m)
    (k : Intrinsic) : TypeId.ofIntrinsic k ∈ members ↔ TypeId.ofIntrinsic k ∈ arranged := by
  induction parts with
  | nil => exact Iff.rfl
  | cons part _ ih =>
    obtain ⟨⟨flat, proper⟩, plain⟩ := List.forall_mem_cons.1 plain
    rw [List.mem_cons, List.mem_cons, ih plain]
    have := naming.eq_intrinsic_iff part flat proper k
    exact or_congr_left ⟨fun h => (this.1 h.symm).symm, fun h => (this.2 h.symm).symm⟩

theorem filter_isNullish (parts : List.Forall₂ (catalog.Unnamed other name type) members arranged)
    (plain : ∀ m ∈ arranged, other.types.unionMembers? m = none ∧ ¬ other.IsName name m) :
    List.Forall₂ (catalog.Unnamed other name type) (members.filter (!·.isNullish))
      (arranged.filter (!·.isNullish)) := by
  induction parts with
  | nil => exact .nil
  | cons part _ ih =>
    obtain ⟨⟨flat, proper⟩, plain⟩ := List.forall_mem_cons.1 plain
    rw [List.filter_cons, List.filter_cons, naming.isNullish_eq part flat proper]
    split
    · exact .cons part (ih plain)
    · exact ih plain

end

section

variable (harmless : catalog.NamesHarmlessly other name type)

include harmless

/-- Types whose alternatives are related in some order are declared alike. -/
theorem alike_of_alternatives {arranged : List TypeId}
    (parts : List.Forall₂ (catalog.Unnamed other name type) (catalog.alternatives d) arranged)
    (same : arranged.Perm (other.alternatives d'))
    (plain : ∀ m ∈ other.alternatives d',
      other.types.unionMembers? m = none ∧ ¬ other.IsName name m) :
    catalog.Alike other (catalog.Related other name type) d d' := by
  have wf := naming.closed.wellFormed
  have wf' := naming.closed'.wellFormed
  have plain (m : TypeId) (mem : m ∈ arranged) := plain m (same.mem_iff.1 mem)
  refine ⟨(naming.mem_intrinsic_iff parts plain .undefined).trans same.mem_iff, ?_⟩
  have kept : ∃ left, List.Forall₂ (catalog.Unnamed other name type) (catalog.kept d) left
      ∧ left.Perm (other.kept d') ∧ ∀ m ∈ left, m ∈ arranged := by
    have filtered := naming.filter_isNullish parts plain
    have sameFiltered := same.filter (!·.isNullish)
    have both : ((catalog.alternatives d).filter (!·.isNullish)).isEmpty
        = ((other.alternatives d').filter (!·.isNullish)).isEmpty := by
      have := filtered.length_eq.trans sameFiltered.length_eq
      rw [Bool.eq_iff_iff, List.isEmpty_iff_length_eq_zero, List.isEmpty_iff_length_eq_zero, this]
    simp only [Catalog.kept, both]
    split
    · exact ⟨arranged, parts, same, fun _ mem => mem⟩
    · exact ⟨_, filtered, sameFiltered, fun _ mem => (List.mem_filter.1 mem).1⟩
  obtain ⟨left, parts, same, among⟩ := kept
  cases hk : catalog.kept d with
  | nil => exact absurd hk (wf.kept_ne_nil d)
  | cons m more =>
    rw [hk] at parts
    cases parts with
    | cons part others =>
      cases others with
      | nil =>
        have kept' := List.singleton_perm.1 same
        rw [wf.shape_of_kept_eq_singleton naming.unbroken hk,
          wf'.shape_of_kept_eq_singleton naming.unbroken' kept'.symm]
        exact naming.classify_agree harmless
          (.of_flat part (plain _ (among _ List.mem_cons_self)).1)
      | cons _ _ =>
        obtain ⟨_, shape⟩ := @WellFormed.exists_shape_eq_union _ d wf naming.unbroken (by simp [hk])
        obtain ⟨_, shape'⟩ :=
          @WellFormed.exists_shape_eq_union _ d' wf' naming.unbroken' (by simp [← same.length_eq])
        rw [shape, shape']
        exact .plain rfl rfl

/-- Declared unions that are related are declared alike. -/
theorem alike_of_union (related : catalog.Related other name type d d')
    (right : other.types.unionMembers? d' = some members') :
    catalog.Alike other (catalog.Related other name type) d d' := by
  by_cases touches : other.Touches name type members'
  · obtain ⟨absence, shape⟩ := harmless d d' members' related right touches
    refine ⟨by rw [alternatives_of_unionMembers? right, absence], ?_⟩
    by_cases beside : other.Beside name members'
    · obtain ⟨r, mem, isName⟩ := naming.exists_isName right beside touches
      exact naming.shape_agree_of_beside harmless related right beside mem isName
        (shape.imp_right And.left)
    · exact .plain (shape.resolve_right fun h => beside h.2)
        (naming.isPlain_shape_of_not_beside right touches beside)
  · simp only [Touches, not_or, not_exists, not_and, not_not] at touches
    obtain ⟨members, arranged, left, parts, same⟩ :=
      naming.exists_arranged right related.unnamed touches.1 touches.2
    rw [← alternatives_of_unionMembers? left] at parts
    rw [← alternatives_of_unionMembers? right] at same
    refine naming.alike_of_alternatives harmless parts same fun m mem => ?_
    rw [alternatives_of_unionMembers? right] at mem
    exact ⟨(naming.closed'.wellFormed.types.normalUnion right).flat m mem, touches.1 m mem⟩

/-- Types that are the same without the name agree, where the naming is harmless. -/
theorem agree : catalog.Agree other (catalog.Related other name type) := by
  intro d d' related
  have leads' := leadsTo_resolved other d'
  obtain ⟨target, leads, part⟩ := naming.exists_related related leads'
  refine .of_leadsTo naming.unbroken naming.unbroken' leads leads' ?_
  have ends := naming.unbroken'.referenced?_resolved d'
  generalize other.resolved d' = target' at part ends ⊢
  cases right : other.types.unionMembers? target' with
  | some members' => exact naming.alike_of_union harmless part right
  | none =>
    have proper : ¬ other.IsName name target' := fun isName => by
      obtain ⟨_, refers, _⟩ := naming.closed'.exists_referenced? part.unnamed.known' isName
      cases ends.symm.trans refers
    have flat : catalog.types.referenced? target = none
        ∧ catalog.types.unionMembers? target = none := by
      cases naming.step part.unnamed with
      | intrinsic k left =>
        subst left
        cases k <;> exact ⟨rfl, rfl⟩
      | literal left | leaf left | object left | array left =>
        simp [TypeTable.referenced?, TypeTable.unionMembers?, left]
      | union isUnion => cases right.symm.trans isUnion
      | reference _ refers | name refers => cases ends.symm.trans refers
    have left := alternatives_eq_singleton flat.1 flat.2
    have alone := alternatives_eq_singleton ends right
    refine naming.alike_of_alternatives harmless (left ▸ .cons part.unnamed .nil)
      (.of_eq alone.symm) fun m mem => ?_
    obtain rfl := List.mem_singleton.1 (alone ▸ mem)
    exact ⟨right, proper⟩

end

/-- A naming is harmless exactly if it leaves what declared types are. -/
theorem namesHarmlessly_iff : catalog.NamesHarmlessly other name type
    ↔ catalog.Agree other (catalog.Related other name type) := by
  refine ⟨naming.agree, fun agree d d' members' related right touches => ?_⟩
  obtain ⟨absence, shape⟩ := agree d d' related
  refine ⟨by rw [absence, alternatives_of_unionMembers? right], ?_⟩
  by_cases beside : other.Beside name members'
  · by_cases single : ∀ members, type ≠ .union members
    · exact .inr ⟨single, beside⟩
    · simp only [not_forall, not_not] at single
      obtain ⟨r, mem, isName⟩ := naming.exists_isName right beside touches
      obtain ⟨body', _, known, same, proper, shape'⟩ :=
        naming.exists_shape_eq right beside mem isName
      rw [shape'] at shape
      exact .inl (shape.isPlain_eq.trans
        (naming.isPlain_classify_body known proper same (.inl single)))
  · exact .inl (shape.isPlain_eq.trans
      (naming.isPlain_shape_of_not_beside right touches beside))

end Naming

end Catalog

/-! ## Forms -/

namespace DerivedForm

/-- A harmless naming leaves the outlines of forms as they are, of all that have no more groups than
models may be entered. -/
theorem derive_iff_of_naming {models models' : Definitions} {types types' : TypeTable}
    {name : String} {type : NamedTerm} {mode : Mode} {hint : Hint} {model model' : TypeId}
    {outline : TreeNode} (naming : Catalog.Naming ⟨types, models⟩ ⟨types', models'⟩ name type)
    (harmless : Catalog.NamesHarmlessly ⟨types, models⟩ ⟨types', models'⟩ name type)
    (root : Catalog.Related ⟨types, models⟩ ⟨types', models'⟩ name type model model')
    (few : outline.groups ≤ Limits.expansionSteps) :
    (∃ tree after, derive models mode hint model types = (.ok tree, after)
        ∧ tree.root.outline = outline)
      ↔ ∃ tree after, derive models' mode hint model' types' = (.ok tree, after)
        ∧ tree.root.outline = outline := by
  have agree := naming.agree harmless
  have rootClass := naming.classify_agree harmless root
  have few_of {tree : DerivedForm} (same : tree.root.outline = outline) :
      tree.root.groups ≤ Limits.expansionSteps := by
    rw [← TreeNode.groups_outline, same]
    exact few
  constructor
  · rintro ⟨tree, after, derives, same⟩
    obtain ⟨tree', after', derives', same'⟩ :=
      derive_of_agree naming.closed.wellFormed naming.closed'.wellFormed naming.closed'.distinct
        agree root rootClass derives (few_of same)
    exact ⟨tree', after', derives', same'.trans same⟩
  · rintro ⟨tree, after, derives, same⟩
    obtain ⟨tree', after', derives', same'⟩ :=
      derive_of_agree naming.closed'.wellFormed naming.closed.wellFormed naming.closed.distinct
        agree.symm root rootClass.symm derives (few_of same)
    exact ⟨tree', after', derives', same'.trans same⟩

end DerivedForm

end ModelForms
