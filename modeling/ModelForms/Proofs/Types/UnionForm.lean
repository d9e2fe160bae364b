import ModelForms.Proofs.Types.Growth

/-!
# Unions in normal form

`Interning.union` takes the members of a union apart, sorts them and interns what is left.
`UnionOf` says of one table which id that comes to, without interning anything, so it can be said of
any later table as well.  `union_spec` is all that later modules use of `Interning.union`: the table
stays well-formed, nothing but a union was added, and the id is the one that `UnionOf` names.  So
every table that is built up by adding types is well-formed (`Built.wellFormed`).

A property of types is `Additive` if `unknown` has it, `never` has it not, and a union has it
exactly if one of its members has.  `UnionOf.iff_exists` says that then the normal form has it
exactly if one of the given members has, whatever the normal form did to them.
-/

namespace ModelForms

namespace TypeTable

/-! ## Sorting -/

theorem mem_insertAscending {id m : TypeId} {members : List TypeId} :
    m ∈ insertAscending id members ↔ m = id ∨ m ∈ members := by
  induction members with
  | nil => simp [insertAscending]
  | cons first rest ih =>
    unfold insertAscending
    split
    · simp
    · split
      · rename_i h
        subst h
        simp
      · simp only [List.mem_cons, ih]
        exact or_left_comm

theorem mem_ascending {m : TypeId} {members : List TypeId} :
    m ∈ ascending members ↔ m ∈ members := by
  induction members with
  | nil => simp [ascending]
  | cons first rest ih =>
    show m ∈ insertAscending first (ascending rest) ↔ m ∈ first :: rest
    rw [mem_insertAscending, ih, List.mem_cons]

theorem pairwise_insertAscending {id : TypeId} {members : List TypeId}
    (h : members.Pairwise (·.index < ·.index)) :
    (insertAscending id members).Pairwise (·.index < ·.index) := by
  induction members with
  | nil => simp [insertAscending]
  | cons first rest ih =>
    obtain ⟨hfirst, hrest⟩ := List.pairwise_cons.1 h
    unfold insertAscending
    split
    next before =>
      refine List.pairwise_cons.2 ⟨fun m hm => ?_, h⟩
      rcases List.mem_cons.1 hm with rfl | hm
      · exact before
      · exact Nat.lt_trans before (hfirst m hm)
    next notBefore =>
      split
      next same => exact h
      next different =>
        refine List.pairwise_cons.2 ⟨fun m hm => ?_, ih hrest⟩
        rcases mem_insertAscending.1 hm with rfl | hm
        · have : first.index ≠ m.index := fun heq => different (by
            cases m; cases first; simp_all)
          omega
        · exact hfirst m hm

theorem pairwise_ascending (members : List TypeId) :
    (ascending members).Pairwise (·.index < ·.index) := by
  induction members with
  | nil => exact List.Pairwise.nil
  | cons first rest ih => exact pairwise_insertAscending ih

/-- Sorting leaves a sorted list alone. -/
theorem ascending_of_pairwise {members : List TypeId}
    (h : members.Pairwise (·.index < ·.index)) : ascending members = members := by
  induction members with
  | nil => rfl
  | cons first rest ih =>
    obtain ⟨hfirst, hrest⟩ := List.pairwise_cons.1 h
    show insertAscending first (ascending rest) = first :: rest
    rw [ih hrest]
    cases rest with
    | nil => rfl
    | cons next more => simp [insertAscending, hfirst next List.mem_cons_self]

/-! ## The id of a union -/

/-- The id that the union of some members has in a table. -/
def UnionOf (table : TypeTable) (members : List TypeId) (id : TypeId) : Prop :=
  match normalize (table.flatten members) with
  | .single only => id = only
  | .several ms => table.lookup id = some (.union ms)

/-- A union is the one type that its members come to, or the entry of the types that they come
to. -/
theorem unionOf_iff {table : TypeTable} {members : List TypeId} {id : TypeId} :
    table.UnionOf members id ↔ normalize (table.flatten members) = .single id
      ∨ ∃ ms, normalize (table.flatten members) = .several ms
        ∧ table.lookup id = some (.union ms) := by
  unfold UnionOf
  cases normalize (table.flatten members) with
  | single only => simp [eq_comm]
  | several ms => simp

theorem unionOf_congr {table : TypeTable} {members others : List TypeId} {id : TypeId}
    (same : normalize (table.flatten members) = normalize (table.flatten others)) :
    table.UnionOf members id ↔ table.UnionOf others id := by
  rw [unionOf_iff, unionOf_iff, same]

/-- The members of a union that have values, in the order of a union. -/
def keptMembers (table : TypeTable) (members : List TypeId) : List TypeId :=
  ascending ((table.flatten members).filter (· ≠ TypeId.never))

/-- A union is that of every value, or the members that have values are none, one or several. -/
theorem UnionOf.cases {table : TypeTable} {members : List TypeId} {id : TypeId}
    (h : table.UnionOf members id) :
    (TypeId.unknown ∈ table.flatten members ∧ id = TypeId.unknown)
      ∨ TypeId.unknown ∉ table.flatten members
        ∧ ((table.keptMembers members = [] ∧ id = TypeId.never)
          ∨ table.keptMembers members = [id]
          ∨ 2 ≤ (table.keptMembers members).length
            ∧ table.lookup id = some (.union (table.keptMembers members))) := by
  unfold UnionOf normalize at h
  by_cases unknown : TypeId.unknown ∈ table.flatten members
  · rw [if_pos unknown] at h
    exact .inl ⟨unknown, h⟩
  · rw [if_neg unknown] at h
    refine .inr ⟨unknown, ?_⟩
    unfold keptMembers
    generalize ascending ((table.flatten members).filter (· ≠ TypeId.never)) = kept at h ⊢
    match kept, h with
    | [], h => exact .inl ⟨rfl, h⟩
    | [only], h => exact .inr (.inl (congrArg ([·]) h.symm))
    | first :: second :: rest, h => exact .inr (.inr ⟨Nat.le_add_left 2 _, h⟩)

theorem mem_flatten {table : TypeTable} {members : List TypeId} {m : TypeId} :
    m ∈ table.flatten members ↔
      ∃ given ∈ members, m ∈ (table.unionMembers? given).getD [given] := by
  simp [flatten, List.mem_flatMap]

theorem mem_keptMembers {table : TypeTable} {members : List TypeId} {m : TypeId} :
    m ∈ table.keptMembers members ↔ m ∈ table.flatten members ∧ m ≠ TypeId.never := by
  rw [keptMembers, mem_ascending, List.mem_filter, decide_eq_true_iff]

theorem GrowsTo.flatten_eq {earlier later : TypeTable} (grows : earlier.GrowsTo later)
    {members : List TypeId} (known : ∀ m ∈ members, earlier.Knows m) :
    later.flatten members = earlier.flatten members := by
  induction members with
  | nil => rfl
  | cons first rest ih =>
    have hfirst := grows.unionMembers?_eq (known first List.mem_cons_self)
    have hrest := ih fun m hm => known m (List.mem_cons_of_mem first hm)
    unfold flatten at hrest ⊢
    rw [List.flatMap_cons, List.flatMap_cons, hfirst, hrest]

/-- What flattening gives is known, and no union. -/
theorem WellFormed.of_mem_flatten {table : TypeTable} (wf : table.WellFormed)
    {members : List TypeId} (known : ∀ m ∈ members, table.Knows m) {m : TypeId}
    (h : m ∈ table.flatten members) : table.Knows m ∧ table.unionMembers? m = none := by
  obtain ⟨given, hgiven, hm⟩ := mem_flatten.1 h
  cases hu : table.unionMembers? given with
  | none =>
    simp only [hu, Option.getD_none, List.mem_singleton] at hm
    subst hm
    exact ⟨known m hgiven, hu⟩
  | some ms =>
    simp only [hu, Option.getD_some] at hm
    have normal := wf.normalUnion hu
    exact ⟨normal.known m hm, normal.flat m hm⟩

/-- Every member that the normal form keeps was there, and is neither `never` nor `unknown`. -/
theorem of_normalize_eq_several {flat members : List TypeId}
    (h : normalize flat = .several members) :
    2 ≤ members.length ∧ members.Pairwise (·.index < ·.index)
      ∧ ∀ m ∈ members, m ∈ flat ∧ m ≠ TypeId.never ∧ m ≠ TypeId.unknown := by
  unfold normalize at h
  split at h
  · cases h
  · rename_i noUnknown
    have sorted := pairwise_ascending (flat.filter (· ≠ TypeId.never))
    have kept {m : TypeId} (hm : m ∈ ascending (flat.filter (· ≠ TypeId.never))) :
        m ∈ flat ∧ m ≠ TypeId.never := by
      simpa using mem_ascending.1 hm
    split at h
    · cases h
    · cases h
    · rename_i ms notNone notOne
      cases h
      refine ⟨?_, sorted, fun m hm => ⟨(kept hm).1, (kept hm).2, ?_⟩⟩
      · cases hl : ascending (flat.filter (· ≠ TypeId.never)) with
        | nil => exact absurd hl notNone
        | cons first rest =>
          cases rest with
          | nil => exact absurd hl (notOne first)
          | cons second more => simp
      · exact fun heq => noUnknown (heq ▸ (kept hm).1)

/-- A normal form of one type is that of every value, that of none, or an operand. -/
theorem of_normalize_eq_single {flat : List TypeId} {id : TypeId} (h : normalize flat = .single id) :
    id = TypeId.unknown ∨ id = TypeId.never ∨ id ∈ flat := by
  unfold normalize at h
  split at h
  next =>
    cases h
    exact Or.inl rfl
  next =>
    split at h
    next =>
      cases h
      exact Or.inr (Or.inl rfl)
    next m sorted =>
      cases h
      have mem : id ∈ ascending (flat.filter (· ≠ TypeId.never)) :=
        sorted ▸ List.mem_singleton_self id
      exact Or.inr (Or.inr (List.mem_filter.1 (mem_ascending.1 mem)).1)
    next => cases h

/-- Flattening leaves a list without unions alone. -/
theorem flatten_of_flat {table : TypeTable} {members : List TypeId}
    (flat : ∀ m ∈ members, table.unionMembers? m = none) : table.flatten members = members := by
  induction members with
  | nil => rfl
  | cons first rest ih =>
    have hrest := ih fun m hm => flat m (List.mem_cons_of_mem first hm)
    unfold flatten at hrest ⊢
    rw [List.flatMap_cons, hrest, flat first List.mem_cons_self]
    rfl

/-- A list in normal form is its own normal form. -/
theorem normalize_of_normalUnion {table : TypeTable} {members : List TypeId}
    (normal : table.NormalUnion members) :
    normalize (table.flatten members) = .several members := by
  have hfilter : members.filter (· ≠ TypeId.never) = members :=
    List.filter_eq_self.2 fun m hm => by simpa using (normal.proper m hm).1
  have hunknown : TypeId.unknown ∉ members := fun h => (normal.proper _ h).2 rfl
  have hlen := normal.several
  unfold normalize
  rw [flatten_of_flat normal.flat, if_neg hunknown, hfilter, ascending_of_pairwise normal.ascending]
  match members, hlen with
  | _ :: _ :: _, _ => rfl

theorem NormalUnion.unionOf_iff {table : TypeTable} {members : List TypeId}
    (normal : table.NormalUnion members) {id : TypeId} :
    table.UnionOf members id ↔ table.lookup id = some (.union members) := by
  unfold UnionOf
  rw [normalize_of_normalUnion normal]

theorem NormalUnion.nodup {table : TypeTable} {members : List TypeId}
    (normal : table.NormalUnion members) : members.Nodup :=
  normal.ascending.imp fun lt same => absurd (congrArg TypeId.index same) (Nat.ne_of_lt lt)

/-- No member of a list in normal form is the only one. -/
theorem NormalUnion.exists_ne {table : TypeTable} {members : List TypeId}
    (normal : table.NormalUnion members) (id : TypeId) : ∃ m ∈ members, m ≠ id := by
  have several := normal.several
  have distinct := normal.nodup
  rcases members with _ | ⟨first, _ | ⟨second, rest⟩⟩
  · simp at several
  · simp at several
  · by_cases same : first = id
    · refine ⟨second, by simp, fun same' => ?_⟩
      simp [same, same'] at distinct
    · exact ⟨first, List.mem_cons_self, same⟩

/-- A list in normal form of which one member is left. -/
theorem NormalUnion.filter_eq_singleton {table : TypeTable} {members : List TypeId}
    {only : TypeId}
    (normal : table.NormalUnion members) {keeps : TypeId → Bool}
    (mem : ∀ m, m ∈ members ∧ keeps m = true ↔ m = only) : members.filter keeps = [only] := by
  refine List.perm_singleton.1
    ((List.perm_ext_iff_of_nodup (normal.nodup.filter keeps) (by simp)).2 fun m => ?_)
  rw [List.mem_filter, List.mem_singleton, mem]

/-- The union of types that are no unions is a union of them, or it is one type. -/
theorem UnionOf.cases_of_flat {table : TypeTable} {operands : List TypeId} {id : TypeId}
    (flat : ∀ m ∈ operands, table.unionMembers? m = none) (h : table.UnionOf operands id) :
    (∃ members, table.unionMembers? id = some members
        ∧ ∀ m, m ∈ members ↔ m ∈ operands ∧ m ≠ TypeId.never)
      ∨ table.unionMembers? id = none
        ∧ (id = TypeId.unknown ∧ TypeId.unknown ∈ operands
          ∨ (id = TypeId.never ∨ id ∈ operands) ∧ ∀ m ∈ operands, m = id ∨ m = TypeId.never) := by
  have mem (m : TypeId) : m ∈ table.keptMembers operands ↔ m ∈ operands ∧ m ≠ TypeId.never := by
    rw [mem_keptMembers, flatten_of_flat flat]
  have kept {m : TypeId} (hm : m ∈ operands) :
      m ∈ table.keptMembers operands ∨ m = TypeId.never :=
    (Decidable.em (m = TypeId.never)).symm.imp_left fun proper => (mem m).2 ⟨hm, proper⟩
  rcases h.cases with ⟨unknown, rfl⟩ | ⟨_, ⟨empty, rfl⟩ | single | ⟨_, stored⟩⟩
  · rw [flatten_of_flat flat] at unknown
    exact .inr ⟨rfl, .inl ⟨rfl, unknown⟩⟩
  · refine .inr ⟨rfl, .inr ⟨.inl rfl, fun m hm => .inr ?_⟩⟩
    simpa [empty] using kept hm
  · have among : id ∈ operands := ((mem id).1 (single ▸ List.mem_singleton_self id)).1
    refine .inr ⟨flat id among, .inr ⟨.inr among, fun m hm => ?_⟩⟩
    simpa [single] using kept hm
  · exact .inl ⟨_, unionMembers?_eq_some_iff.2 stored, mem⟩

theorem UnionOf.growsTo {earlier later : TypeTable} (grows : earlier.GrowsTo later)
    {members : List TypeId} (known : ∀ m ∈ members, earlier.Knows m) {id : TypeId}
    (h : earlier.UnionOf members id) : later.UnionOf members id := by
  rw [unionOf_iff, grows.flatten_eq known]
  rcases unionOf_iff.1 h with single | ⟨ms, several, stored⟩
  · exact .inl single
  · exact .inr ⟨ms, several, grows.lookup stored⟩

/-- The union of some members has one id. -/
theorem UnionOf.unique {table : TypeTable} (wf : table.WellFormed) {members : List TypeId}
    {id other : TypeId} (h : table.UnionOf members id) (h' : table.UnionOf members other) :
    id = other := by
  unfold UnionOf at h h'
  cases normal : normalize (table.flatten members) with
  | single only =>
    rw [normal] at h h'
    exact h.trans h'.symm
  | several ms =>
    rw [normal] at h h'
    exact wf.lookup_injective h h' (by simp)

theorem UnionOf.knows {table : TypeTable} (wf : table.WellFormed) {members : List TypeId}
    (known : ∀ m ∈ members, table.Knows m) {id : TypeId} (h : table.UnionOf members id) :
    table.Knows id := by
  rcases unionOf_iff.1 h with single | ⟨_, _, stored⟩
  · rcases of_normalize_eq_single single with rfl | rfl | mem
    · exact knows_intrinsic table .unknown
    · exact knows_intrinsic table .never
    · exact (wf.of_mem_flatten known mem).1
  · exact knows_of_lookup stored

/-! ## Making unions -/

theorem union_eq (members : List TypeId) (table : TypeTable) :
    Interning.union members table =
      match normalize (table.flatten members) with
      | .single id => (id, table)
      | .several ms => Interning.intern (.union ms) table := by
  show (match normalize (table.flatten members) with
    | .single id => (pure id : Interning TypeId)
    | .several ms => Interning.intern (.union ms)) table = _
  cases normalize (table.flatten members) with
  | single id => rfl
  | several ms => rfl

/-- A table that is well-formed still, with nothing but unions added, and that knows an id. -/
structure Made (before after : TypeTable) (id : TypeId) : Prop where
  wellFormed : after.WellFormed
  adds : before.AddsUnions after
  knows : after.Knows id

theorem union_spec {table : TypeTable} (wf : table.WellFormed) {members : List TypeId}
    (known : ∀ m ∈ members, table.Knows m) :
    table.Made (Interning.union members table).2 (Interning.union members table).1
      ∧ (Interning.union members table).2.UnionOf members (Interning.union members table).1 := by
  rw [union_eq]
  cases hn : normalize (table.flatten members) with
  | single id =>
    have unionOf : table.UnionOf members id := by simp only [UnionOf, hn]
    exact ⟨⟨wf, .refl table, unionOf.knows wf known⟩, unionOf⟩
  | several ms =>
    obtain ⟨two, sorted, kept⟩ := of_normalize_eq_several hn
    have normal : table.NormalUnion ms :=
      ⟨two, sorted, fun m hm => (wf.of_mem_flatten known (kept m hm).1).1,
        fun m hm => (wf.of_mem_flatten known (kept m hm).1).2, fun m hm => (kept m hm).2⟩
    have adds := addsUnions_intern ms table
    refine ⟨⟨wf.intern normal.known fun _ heq => ?_, adds, knows_intern _ table⟩, ?_⟩
    · cases heq
      exact normal
    · unfold UnionOf
      rw [adds.growsTo.flatten_eq known, hn]
      exact lookup_intern (.union ms) table

/-! ## Building up a table -/

theorem literal_eq (value : Literal) (table : TypeTable) :
    ∃ noted, noted.entries = table.entries
      ∧ Interning.literal value table = Interning.intern (.literal value) noted := by
  cases value with
  | string s => exact ⟨(Interning.note s table).2, rfl, rfl⟩
  | number | boolean => exact ⟨table, rfl, rfl⟩

theorem entries_note_all (properties : List Property) (table : TypeTable) :
    ((properties.forM fun p => Interning.note p.name : Interning Unit) table).2.entries
      = table.entries := by
  induction properties generalizing table with
  | nil => rfl
  | cons p rest ih => exact ih _

theorem object_eq (properties : List Property) (table : TypeTable) :
    ∃ noted, noted.entries = table.entries
      ∧ Interning.object properties table = Interning.intern (.object properties) noted :=
  ⟨_, entries_note_all properties table, rfl⟩

/-- A table that comes from the empty one by adding types, each made of types that are known by
then. -/
inductive Built : TypeTable → Prop
  | empty : Built empty
  | note {table : TypeTable} (built : Built table) (name : String) :
      Built (Interning.note name table).2
  | literal {table : TypeTable} (built : Built table) (value : Literal) :
      Built (Interning.literal value table).2
  | leaf {table : TypeTable} (built : Built table) (name : String) :
      Built (Interning.leaf name table).2
  | reference {table : TypeTable} (built : Built table) (definition : ModelId) :
      Built (Interning.reference definition table).2
  | object {table : TypeTable} (built : Built table) {properties : List Property}
      (known : ∀ p ∈ properties, table.Knows p.type) : Built (Interning.object properties table).2
  | array {table : TypeTable} (built : Built table) {element : TypeId}
      (known : table.Knows element) : Built (Interning.array element table).2
  | union {table : TypeTable} (built : Built table) {members : List TypeId}
      (known : ∀ m ∈ members, table.Knows m) : Built (Interning.union members table).2

/-- Names have no part in what a well-formed table is. -/
theorem WellFormed.of_entries_eq {table other : TypeTable} (wf : table.WellFormed)
    (same : other.entries = table.entries) : other.WellFormed := by
  have grows := GrowsTo.of_entries_eq same
  constructor
  case distinct => exact same ▸ wf.distinct
  case foreign => exact same ▸ wf.foreign
  case older =>
    intro i entry h id hid
    rw [same] at h
    obtain ⟨known, lt⟩ := wf.older i entry h id hid
    exact ⟨grows.knows known, lt⟩
  case unions =>
    intro members h
    rw [same] at h
    exact (wf.unions members h).growsTo grows

theorem Built.wellFormed {table : TypeTable} (built : Built table) : table.WellFormed := by
  induction built with
  | empty => exact .empty
  | note _ name ih => exact ih.of_entries_eq rfl
  | @literal table _ value ih =>
    obtain ⟨noted, same, heq⟩ := literal_eq value table
    rw [heq]
    exact (ih.of_entries_eq same).intern (fun _ h => by cases h) (fun _ h => by cases h)
  | @leaf table _ name ih =>
    have noted : (Interning.note name table).2.WellFormed := ih.of_entries_eq rfl
    show (Interning.intern (.leaf name) (Interning.note name table).2).2.WellFormed
    exact noted.intern (fun _ h => by cases h) (fun _ h => by cases h)
  | @reference table _ definition ih =>
    show (Interning.intern (.reference definition) table).2.WellFormed
    exact ih.intern (fun _ h => by cases h) (fun _ h => by cases h)
  | @object table _ properties known ih =>
    obtain ⟨noted, same, heq⟩ := object_eq properties table
    rw [heq]
    refine (ih.of_entries_eq same).intern (fun id h => ?_) (fun _ h => by cases h)
    obtain ⟨p, hp, rfl⟩ := List.mem_map.1 h
    exact (GrowsTo.of_entries_eq same).knows (known p hp)
  | @array table _ element known ih =>
    show (Interning.intern (.array element) table).2.WellFormed
    refine ih.intern (fun id h => ?_) (fun _ h => by cases h)
    cases List.mem_singleton.1 h
    exact known
  | union _ known ih => exact (union_spec ih known).1.wellFormed

/-! ## Additive properties -/

/-- A property of types that a union has exactly if one of its members has it. -/
structure Additive (table : TypeTable) (holds : TypeId → Prop) : Prop where
  unknown : holds TypeId.unknown
  never : ¬ holds TypeId.never
  union : ∀ id members, table.unionMembers? id = some members →
    (holds id ↔ ∃ m ∈ members, holds m)

variable {table : TypeTable} {holds : TypeId → Prop} {members : List TypeId}

theorem Additive.exists_mem_flatten_iff (additive : table.Additive holds) :
    (∃ m ∈ table.flatten members, holds m) ↔ ∃ m ∈ members, holds m := by
  simp only [mem_flatten]
  constructor
  · rintro ⟨m, ⟨given, hgiven, hm⟩, h⟩
    refine ⟨given, hgiven, ?_⟩
    cases hu : table.unionMembers? given with
    | none =>
      simp only [hu, Option.getD_none, List.mem_singleton] at hm
      exact hm ▸ h
    | some ms =>
      simp only [hu, Option.getD_some] at hm
      exact (additive.union given ms hu).2 ⟨m, hm, h⟩
  · rintro ⟨given, hgiven, h⟩
    cases hu : table.unionMembers? given with
    | none => exact ⟨given, ⟨given, hgiven, by simp [hu]⟩, h⟩
    | some ms =>
      obtain ⟨m, hm, hm'⟩ := (additive.union given ms hu).1 h
      exact ⟨m, ⟨given, hgiven, by simpa [hu] using hm⟩, hm'⟩

/-- The union of some members has an additive property exactly if one of them has. -/
theorem UnionOf.iff_exists (additive : table.Additive holds) {id : TypeId}
    (h : table.UnionOf members id) : holds id ↔ ∃ m ∈ members, holds m := by
  have kept : (∃ m ∈ table.keptMembers members, holds m) ↔ ∃ m ∈ members, holds m := by
    refine Iff.trans (exists_congr fun m => ?_) additive.exists_mem_flatten_iff
    rw [mem_keptMembers, and_assoc]
    exact and_congr_right fun _ => and_iff_right_of_imp fun h same => additive.never (same ▸ h)
  rw [← kept]
  rcases h.cases with ⟨unknown, rfl⟩ | ⟨_, ⟨empty, rfl⟩ | single | ⟨_, stored⟩⟩
  · exact iff_of_true additive.unknown
      ⟨_, mem_keptMembers.2 ⟨unknown, by decide⟩, additive.unknown⟩
  · simpa [empty] using additive.never
  · simp [single]
  · exact additive.union id _ (unionMembers?_eq_some_iff.2 stored)

end TypeTable

end ModelForms
