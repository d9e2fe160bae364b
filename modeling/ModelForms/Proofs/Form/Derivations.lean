import ModelForms.Proofs.Form.Levels

/-!
# Derivations of inhabitation

An `Inhabitation` is a derivation by the rules of `Inhabits`, kept as data, so that it has a height
(`inhabits_iff_nonempty`).  Each step into a value, into a member of a union and from a reference to
its model counts, and so does the rule at the end of a branch.

Matching is a search for such a derivation that goes on for as many levels as the counter allows.
It finds one exactly if there is one of at most that height
(`Catalog.accepts_iff_exists_height_le`): the parts of a value are matched one after another with
one counter, but each of them has all the levels that are left below its parent.

The two directions follow different data.  Relaxing a bound to a number of levels goes along the
derivation, and putting a derivation together goes along the levels.
-/

namespace ModelForms

namespace Catalog

variable {catalog : Catalog} {type : TypeId}

/-- A type stands for `undefined`, references followed: it is `undefined` itself, every value, or a
union with `undefined` as a member. -/
inductive AdmitsUndefined (catalog : Catalog) (type : TypeId) : Prop
  | undefined (ends : catalog.resolve type = .ok TypeId.undefined)
  | unknown (ends : catalog.resolve type = .ok TypeId.unknown)
  | member {target : TypeId} {members : List TypeId} (ends : catalog.resolve type = .ok target)
      (found : catalog.types.lookup target = some (.union members))
      (mem : TypeId.undefined ∈ members)

/-- A chain of aliases that leads nowhere allows no absence: it is judged as the reference that it
starts with. -/
theorem allowsAbsence_iff : catalog.allowsAbsence type = true ↔ catalog.AdmitsUndefined type := by
  unfold allowsAbsence resolved
  constructor
  · intro allows
    cases resolves : catalog.resolve type with
    | error definition =>
      cases reference : catalog.types.referenced? type with
      | none =>
        rw [resolve_of_referenced?_eq_none reference] at resolves
        cases resolves
      | some _ =>
        have union : catalog.types.unionMembers? type = none := by
          simp [TypeTable.unionMembers?, TypeTable.referenced?_eq_some_iff.1 reference]
        simp only [resolves, union, Bool.or_eq_true, beq_iff_eq] at allows
        rcases allows with rfl | rfl <;> cases reference
    | ok target =>
      simp only [resolves] at allows
      cases union : catalog.types.unionMembers? target with
      | some members =>
        simp only [union, List.contains_iff_mem] at allows
        exact .member resolves (TypeTable.unionMembers?_eq_some_iff.1 union) allows
      | none =>
        simp only [union, Bool.or_eq_true, beq_iff_eq] at allows
        rcases allows with rfl | rfl
        · exact .undefined resolves
        · exact .unknown resolves
  · intro admits
    cases admits with
    | undefined ends =>
      simp only [ends]
      rfl
    | unknown ends =>
      simp only [ends]
      rfl
    | member ends found mem =>
      simp only [ends, TypeTable.unionMembers?_eq_some_iff.2 found]
      exact List.contains_iff_mem.2 mem

end Catalog

mutual

/-- A derivation that a value is one of a type. -/
inductive Inhabitation (catalog : Catalog) : Json → TypeId → Type
  | intrinsic {value : Json} {type : TypeId} {k : Intrinsic}
      (found : catalog.types.lookup type = some (.intrinsic k)) (accepts : k.accepts value = true) :
      Inhabitation catalog value type
  | literal {value : Json} {type : TypeId} {literal : Literal}
      (found : catalog.types.lookup type = some (.literal literal))
      (accepts : literal.accepts value = true) : Inhabitation catalog value type
  | leaf {value : Json} {type : TypeId} {name : String}
      (found : catalog.types.lookup type = some (.leaf name)) (present : value.isNull = false) :
      Inhabitation catalog value type
  | object {members : Entries Json} {type : TypeId} {properties : List Property}
      (found : catalog.types.lookup type = some (.object properties))
      (parts : PropertyInhabitations catalog members properties)
      (declared : ∀ name ∈ members.keys, ∃ p ∈ properties, p.name = name) :
      Inhabitation catalog (.object members) type
  | array {items : List Json} {type element : TypeId}
      (found : catalog.types.lookup type = some (.array element))
      (parts : ItemInhabitations catalog items element) : Inhabitation catalog (.array items) type
  | union {value : Json} {type m : TypeId} {members : List TypeId}
      (found : catalog.types.lookup type = some (.union members)) (mem : m ∈ members)
      (part : Inhabitation catalog value m) : Inhabitation catalog value type
  | reference {value : Json} {type body : TypeId} {definition : ModelId}
      (found : catalog.types.lookup type = some (.reference definition))
      (defined : catalog.models.body? definition = some body)
      (part : Inhabitation catalog value body) : Inhabitation catalog value type

/-- Derivations that each item of an array is one of a type. -/
inductive ItemInhabitations (catalog : Catalog) : List Json → TypeId → Type
  | nil {element : TypeId} : ItemInhabitations catalog [] element
  | cons {item : Json} {rest : List Json} {element : TypeId}
      (part : Inhabitation catalog item element) (others : ItemInhabitations catalog rest element) :
      ItemInhabitations catalog (item :: rest) element

/-- Derivations that each property has its value among the members of an object, or may be missing
there. -/
inductive PropertyInhabitations (catalog : Catalog) : Entries Json → List Property → Type
  | nil {members : Entries Json} : PropertyInhabitations catalog members []
  | present {members : Entries Json} {p : Property} {rest : List Property} {value : Json}
      (found : members.lookup p.name = some value) (part : Inhabitation catalog value p.type)
      (others : PropertyInhabitations catalog members rest) :
      PropertyInhabitations catalog members (p :: rest)
  | absent {members : Entries Json} {p : Property} {rest : List Property}
      (missing : members.lookup p.name = none)
      (allowed : p.optional = true ∨ catalog.AdmitsUndefined p.type)
      (others : PropertyInhabitations catalog members rest) :
      PropertyInhabitations catalog members (p :: rest)

end

mutual

/-- The number of steps on the longest branch of a derivation. -/
def Inhabitation.height {catalog : Catalog} {value : Json} {type : TypeId} :
    Inhabitation catalog value type → Nat
  | .intrinsic _ _ | .literal _ _ | .leaf _ _ => 1
  | .object _ parts _ => parts.height + 1
  | .array _ parts => parts.height + 1
  | .union _ _ part | .reference _ _ part => part.height + 1
termination_by structural derivation => derivation

/-- The height of the highest of the derivations of the items. -/
def ItemInhabitations.height {catalog : Catalog} {items : List Json} {element : TypeId} :
    ItemInhabitations catalog items element → Nat
  | .nil => 0
  | .cons part others => max part.height others.height
termination_by structural derivations => derivations

/-- The height of the highest of the derivations of the properties. -/
def PropertyInhabitations.height {catalog : Catalog} {members : Entries Json}
    {properties : List Property} : PropertyInhabitations catalog members properties → Nat
  | .nil => 0
  | .present _ part others => max part.height others.height
  | .absent _ _ others => others.height
termination_by structural derivations => derivations

end

section

variable {catalog : Catalog}

/-! ## From derivations to levels -/

mutual

/-- A derivation needs as many levels as it is high. -/
theorem Inhabitation.inhabitsWithin {value : Json} {type : TypeId} :
    (derivation : Inhabitation catalog value type) → {levels : Nat} → derivation.height ≤ levels →
      catalog.InhabitsWithin levels value type
  | .intrinsic found accepts, _ + 1, _ | .literal found accepts, _ + 1, _
  | .leaf found accepts, _ + 1, _ => by
    rw [Catalog.InhabitsWithin, Catalog.Suits, found]
    exact accepts
  | .object found parts declared, _ + 1, bound =>
    (Catalog.suits_object_iff found).2
      ⟨_, rfl, parts.inhabitsWithin (Nat.le_of_succ_le_succ bound), declared⟩
  | .array found parts, _ + 1, bound =>
    (Catalog.suits_array_iff found).2
      ⟨_, rfl, parts.inhabitsWithin (Nat.le_of_succ_le_succ bound)⟩
  | .union found mem part, _ + 1, bound => by
    rw [Catalog.InhabitsWithin, Catalog.Suits, found]
    exact ⟨_, mem, part.inhabitsWithin (Nat.le_of_succ_le_succ bound)⟩
  | .reference found defined part, _ + 1, bound => by
    rw [Catalog.InhabitsWithin, Catalog.Suits, found]
    exact ⟨_, defined, part.inhabitsWithin (Nat.le_of_succ_le_succ bound)⟩

theorem ItemInhabitations.inhabitsWithin {items : List Json} {element : TypeId} :
    (parts : ItemInhabitations catalog items element) → {levels : Nat} → parts.height ≤ levels →
      ∀ item ∈ items, catalog.InhabitsWithin levels item element
  | .nil, _, _ => by simp
  | .cons part others, _, bound =>
    List.forall_mem_cons.2 ⟨part.inhabitsWithin (Nat.max_le.1 bound).1,
      others.inhabitsWithin (Nat.max_le.1 bound).2⟩

theorem PropertyInhabitations.inhabitsWithin {members : Entries Json}
    {properties : List Property} :
    (parts : PropertyInhabitations catalog members properties) → {levels : Nat} →
      parts.height ≤ levels → ∀ p ∈ properties,
        (∀ v, members.lookup p.name = some v → catalog.InhabitsWithin levels v p.type)
          ∧ (members.lookup p.name = none →
            p.optional = true ∨ catalog.allowsAbsence p.type = true)
  | .nil, _, _ => by simp
  | .present found part others, _, bound => by
    refine List.forall_mem_cons.2 ⟨⟨fun v hv => ?_, fun missing => ?_⟩,
      others.inhabitsWithin (Nat.max_le.1 bound).2⟩
    · cases hv.symm.trans found
      exact part.inhabitsWithin (Nat.max_le.1 bound).1
    · cases missing.symm.trans found
  | .absent missing allowed others, _, bound => by
    refine List.forall_mem_cons.2 ⟨⟨fun v hv => ?_, fun _ => ?_⟩, others.inhabitsWithin bound⟩
    · cases hv.symm.trans missing
    · exact allowed.imp_right Catalog.allowsAbsence_iff.2

end

/-! ## From levels to derivations -/

/-- What holds of the height of a whole if it holds of the heights of its parts. -/
structure HoldsOfHighest (small : Nat → Prop) : Prop where
  zero : small 0
  max {m n : Nat} : small m → small n → small (max m n)

theorem holdsOfHighest_le (levels : Nat) : HoldsOfHighest (· ≤ levels) :=
  ⟨Nat.zero_le levels, fun hm hn => Nat.max_le.2 ⟨hm, hn⟩⟩

theorem holdsOfHighest_true : HoldsOfHighest fun _ => True := ⟨trivial, fun _ _ => trivial⟩

section

variable {small : Nat → Prop}

theorem exists_itemInhabitations (highest : HoldsOfHighest small) {items : List Json}
    {element : TypeId}
    (each : ∀ item ∈ items, ∃ part : Inhabitation catalog item element, small part.height) :
    ∃ parts : ItemInhabitations catalog items element, small parts.height := by
  induction items with
  | nil => exact ⟨.nil, highest.zero⟩
  | cons item rest ih =>
    obtain ⟨⟨part, bound⟩, others⟩ := List.forall_mem_cons.1 each
    obtain ⟨parts, bounds⟩ := ih others
    exact ⟨.cons part parts, highest.max bound bounds⟩

theorem exists_propertyInhabitations (highest : HoldsOfHighest small) {members : Entries Json}
    {properties : List Property}
    (each : ∀ p ∈ properties,
      (∀ v, members.lookup p.name = some v →
        ∃ part : Inhabitation catalog v p.type, small part.height)
      ∧ (members.lookup p.name = none →
        p.optional = true ∨ catalog.allowsAbsence p.type = true)) :
    ∃ parts : PropertyInhabitations catalog members properties, small parts.height := by
  induction properties with
  | nil => exact ⟨.nil, highest.zero⟩
  | cons p rest ih =>
    obtain ⟨⟨present, absent⟩, others⟩ := List.forall_mem_cons.1 each
    obtain ⟨parts, bounds⟩ := ih others
    cases found : members.lookup p.name with
    | some value =>
      obtain ⟨part, bound⟩ := present value found
      exact ⟨.present found part parts, highest.max bound bounds⟩
    | none =>
      exact ⟨.absent found ((absent found).imp_right Catalog.allowsAbsence_iff.1) parts, bounds⟩

end

/-- Over some levels there is a derivation that is no higher. -/
theorem exists_height_le {levels : Nat} {value : Json} {type : TypeId}
    (inhabits : catalog.InhabitsWithin levels value type) :
    ∃ derivation : Inhabitation catalog value type, derivation.height ≤ levels := by
  induction levels generalizing value type with
  | zero => exact inhabits.elim
  | succ levels ih =>
    rw [Catalog.InhabitsWithin, Catalog.Suits] at inhabits
    cases found : catalog.types.lookup type with
    | none =>
      rw [found] at inhabits
      exact inhabits.elim
    | some entry =>
      rw [found] at inhabits
      cases entry with
      | intrinsic k => exact ⟨.intrinsic found inhabits, Nat.succ_pos levels⟩
      | literal literal => exact ⟨.literal found inhabits, Nat.succ_pos levels⟩
      | leaf name => exact ⟨.leaf found inhabits, Nat.succ_pos levels⟩
      | object properties =>
        obtain ⟨members, rfl, suits, declared⟩ := inhabits
        obtain ⟨parts, bounds⟩ := exists_propertyInhabitations (holdsOfHighest_le levels)
          fun p hp => ⟨fun v hv => ih ((suits p hp).1 v hv), (suits p hp).2⟩
        exact ⟨.object found parts declared, Nat.succ_le_succ bounds⟩
      | array element =>
        obtain ⟨items, rfl, suits⟩ := inhabits
        obtain ⟨parts, bounds⟩ := exists_itemInhabitations (holdsOfHighest_le levels)
          fun item mem => ih (suits item mem)
        exact ⟨.array found parts, Nat.succ_le_succ bounds⟩
      | union members =>
        obtain ⟨m, mem, suits⟩ := inhabits
        obtain ⟨part, bound⟩ := ih suits
        exact ⟨.union found mem part, Nat.succ_le_succ bound⟩
      | reference definition =>
        obtain ⟨body, defined, suits⟩ := inhabits
        obtain ⟨part, bound⟩ := ih suits
        exact ⟨.reference found defined part, Nat.succ_le_succ bound⟩

/-- Without a bound, there is a derivation of just what `Inhabits` says. -/
theorem inhabits_iff_nonempty {value : Json} {type : TypeId} :
    Inhabits catalog value type ↔ Nonempty (Inhabitation catalog value type) := by
  constructor
  · intro inhabits
    induction inhabits with
    | intrinsic found accepts => exact ⟨.intrinsic found accepts⟩
    | literal found accepts => exact ⟨.literal found accepts⟩
    | leaf found present => exact ⟨.leaf found present⟩
    | object found _ complete declared ih =>
      obtain ⟨parts, _⟩ := exists_propertyInhabitations holdsOfHighest_true fun p hp =>
        ⟨fun v hv => (ih p hp v hv).elim fun part => ⟨part, trivial⟩, complete p hp⟩
      exact ⟨.object found parts declared⟩
    | array found _ ih =>
      obtain ⟨parts, _⟩ := exists_itemInhabitations holdsOfHighest_true fun item mem =>
        (ih item mem).elim fun part => ⟨part, trivial⟩
      exact ⟨.array found parts⟩
    | union found mem _ ih =>
      obtain ⟨part⟩ := ih
      exact ⟨.union found mem part⟩
    | reference found defined _ ih =>
      obtain ⟨part⟩ := ih
      exact ⟨.reference found defined part⟩
  · rintro ⟨derivation⟩
    exact (derivation.inhabitsWithin (Nat.le_refl _)).inhabits

end

namespace Catalog

/-- A type accepts a value exactly if there is a derivation that the value is one of the type with
at most as many steps inside each other as a match may take. -/
theorem accepts_iff_exists_height_le {catalog : Catalog} {value : Json} {type : TypeId} :
    catalog.accepts value type = true
      ↔ ∃ derivation : Inhabitation catalog value type, derivation.height ≤ 128 :=
  accepts_iff.trans
    ⟨fun inhabits => exists_height_le inhabits, fun ⟨derivation, bound⟩ =>
      derivation.inhabitsWithin bound⟩

end Catalog

end ModelForms
