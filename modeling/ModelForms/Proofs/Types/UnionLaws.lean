import ModelForms.Proofs.Types.Restoring
import ModelForms.Proofs.Types.Sessions

/-!
# The laws of unions

The union of types is a semilattice.  Which id a union has depends on the set of its flattened
members alone, so it is commutative, associative and idempotent, `never` is its identity, and
`unknown` absorbs every other type.

A regrouped union goes through unions of its own.  Each of them is interned by a call that may
extend the table, and it may collapse to one member, to `never` or to `unknown` before it gets to
the union around it.  `SameUnion` relates flattened lists that differ in no more than what such a
collapse loses.  It is a congruence (`SameUnion.append`), a union is related to its members
(`UnionOf.sameUnion`), and related lists have one normal form (`SameUnion.normalize_eq`).  So
whatever the groups are, the id is that of the union of all types in them (`Grouping.unionOf_make`),
and `unionLaws_of_calls` collects what follows for the sessions that calls lead to.
-/

namespace ModelForms

open Relation

namespace TypeTable

/-! ## Lists with the same union -/

/-- Two flattened lists agree on what the normal form of a union depends on. -/
structure SameUnion (flat others : List TypeId) : Prop where
  unknown : TypeId.unknown ∈ flat ↔ TypeId.unknown ∈ others
  /-- Where `unknown` does not absorb the others, they are the same but for `never`. -/
  proper : TypeId.unknown ∉ flat → ∀ m ≠ TypeId.never, m ∈ flat ↔ m ∈ others

namespace SameUnion

variable {flat others more rest : List TypeId}

theorem of_mem_iff (same : ∀ m ≠ TypeId.never, m ∈ flat ↔ m ∈ others) : SameUnion flat others where
  unknown := same TypeId.unknown (by decide)
  proper _ := same

theorem refl (flat : List TypeId) : SameUnion flat flat := of_mem_iff fun _ _ => Iff.rfl

theorem symm (h : SameUnion flat others) : SameUnion others flat where
  unknown := h.unknown.symm
  proper missing m hm := (h.proper (mt h.unknown.1 missing) m hm).symm

theorem trans (h : SameUnion flat others) (h' : SameUnion others more) : SameUnion flat more where
  unknown := h.unknown.trans h'.unknown
  proper missing m hm :=
    (h.proper missing m hm).trans (h'.proper (mt h.unknown.2 missing) m hm)

theorem append (h : SameUnion flat others) (h' : SameUnion more rest) :
    SameUnion (flat ++ more) (others ++ rest) where
  unknown := by rw [List.mem_append, List.mem_append, h.unknown, h'.unknown]
  proper missing m hm := by
    obtain ⟨missing, missing'⟩ := not_or.1 (mt List.mem_append.2 missing)
    rw [List.mem_append, List.mem_append, h.proper missing m hm, h'.proper missing' m hm]

/-- The normal form of a union depends on nothing else. -/
theorem normalize_eq (h : SameUnion flat others) : normalize flat = normalize others := by
  unfold normalize
  by_cases unknown : TypeId.unknown ∈ flat
  · rw [if_pos unknown, if_pos (h.unknown.1 unknown)]
  · have sorted : ascending (flat.filter (· ≠ TypeId.never))
        = ascending (others.filter (· ≠ TypeId.never)) := by
      refine eq_of_mem_iff (pairwise_ascending _) (pairwise_ascending _) fun m => ?_
      rw [mem_ascending, mem_ascending, List.mem_filter, List.mem_filter, decide_eq_true_iff]
      exact and_congr_left (h.proper unknown m)
    rw [if_neg unknown, if_neg (mt h.unknown.2 unknown), sorted]

end SameUnion

variable {table : TypeTable} {members others : List TypeId} {id other : TypeId}

@[simp] theorem flatten_append (table : TypeTable) (members others : List TypeId) :
    table.flatten (members ++ others) = table.flatten members ++ table.flatten others :=
  List.flatMap_append

theorem flatten_cons (table : TypeTable) (id : TypeId) (members : List TypeId) :
    table.flatten (id :: members) = table.flatten [id] ++ table.flatten members :=
  table.flatten_append [id] members

theorem flatten_singleton (table : TypeTable) (id : TypeId) :
    table.flatten [id] = (table.unionMembers? id).getD [id] := by
  simp [flatten]

/-- A union has the members that it was made of, as far as the normal form keeps them. -/
theorem UnionOf.sameUnion (wf : table.WellFormed) (known : ∀ m ∈ members, table.Knows m)
    (h : table.UnionOf members id) : SameUnion (table.flatten [id]) (table.flatten members) := by
  have flat : ∀ m ∈ table.flatten members, table.unionMembers? m = none :=
    fun m mem => (wf.of_mem_flatten known mem).2
  have flattened : table.UnionOf (table.flatten members) id :=
    (unionOf_congr (congrArg normalize (flatten_of_flat flat))).2 h
  rw [flatten_singleton]
  rcases flattened.cases_of_flat flat with
    ⟨stored, isUnion, mem⟩ | ⟨isNone, absorbed | ⟨among, all⟩⟩
  · rw [isUnion, Option.getD_some]
    exact .of_mem_iff fun m hm => by rw [mem, and_iff_left hm]
  · obtain ⟨rfl, unknown⟩ := absorbed
    rw [isNone, Option.getD_none]
    exact ⟨⟨fun _ => unknown, fun _ => List.mem_singleton_self _⟩,
      fun missing => absurd (List.mem_singleton_self _) missing⟩
  · rw [isNone, Option.getD_none]
    refine .of_mem_iff fun m hm => ?_
    rw [List.mem_singleton]
    constructor
    · rintro rfl
      exact among.resolve_left hm
    · exact fun mem => (all m mem).resolve_right hm

/-- Lists with the same flattened members have one union. -/
theorem UnionOf.eq_of_sameUnion (wf : table.WellFormed) (h : table.UnionOf members id)
    (h' : table.UnionOf others other)
    (same : SameUnion (table.flatten members) (table.flatten others)) : id = other :=
  h.unique wf ((unionOf_congr same.normalize_eq).2 h')

/-- A type is the union of itself. -/
theorem WellFormed.unionOf_singleton (wf : table.WellFormed) (id : TypeId) :
    table.UnionOf [id] id := by
  cases isUnion : table.unionMembers? id with
  | some members =>
    have normal := wf.normalUnion isUnion
    have flattened : table.flatten [id] = table.flatten members := by
      rw [flatten_singleton, isUnion, Option.getD_some, flatten_of_flat normal.flat]
    rw [unionOf_congr (congrArg normalize flattened), normal.unionOf_iff]
    exact unionMembers?_eq_some_iff.1 isUnion
  | none =>
    have flattened : table.flatten [id] = [id] := by
      rw [flatten_singleton, isUnion, Option.getD_none]
    have single : normalize [id] = .single id := by
      by_cases unknown : id = TypeId.unknown
      · subst unknown
        rfl
      · by_cases never : id = TypeId.never
        · subst never
          rfl
        · simp [normalize, never, ascending, insertAscending, Ne.symm unknown]
    exact unionOf_iff.2 (.inl ((congrArg normalize flattened).trans single))

/-- Making that union adds nothing. -/
theorem WellFormed.union_singleton (wf : table.WellFormed) (id : TypeId) :
    Interning.union [id] table = (id, table) := by
  rw [union_eq]
  rcases unionOf_iff.1 (wf.unionOf_singleton id) with single | ⟨_, several, stored⟩
  · rw [single]
  · rw [several]
    exact wf.intern_eq stored (by simp)

end TypeTable

namespace Session

open TypeTable

variable {session later : Session}

/-! ## Regrouped unions -/

/-- Makes a call and gives its id. -/
def ask (call : Call) : StateM Session TypeId := fun session =>
  ((call.stored session.storage).1, session.after call)

end Session

/-- A union that is made by several calls. -/
inductive Grouping where
  | type (id : TypeId)
  /-- The union of types and of groups. -/
  | group (members : List Grouping)

namespace Grouping

open TypeTable Session

mutual

/-- The types in a grouping. -/
def types : Grouping → List TypeId
  | .type id => [id]
  | .group members => typesOfAll members
termination_by structural grouping => grouping

/-- The types in some groupings. -/
def typesOfAll : List Grouping → List TypeId
  | [] => []
  | first :: rest => first.types ++ typesOfAll rest
termination_by structural members => members

end

mutual

/-- Makes the union of each group by a call of its own, those of the inner groups first. -/
def make : Grouping → StateM Session TypeId
  | .type id => return id
  | .group members => do ask (.union (← makeAll members))
termination_by structural grouping => grouping

/-- Makes some groupings in turn. -/
def makeAll : List Grouping → StateM Session (List TypeId)
  | [] => return []
  | first :: rest => do return (← first.make) :: (← makeAll rest)
termination_by structural members => members

end

end Grouping

namespace Session

open TypeTable

variable {session later : Session}

/-- What a session offers, it offers after every call. -/
theorem Offers.calls {id : TypeId} (offers : session.Offers id)
    (calls : ReflTransGen Next session later) : later.Offers id := by
  induction calls with
  | refl => exact offers
  | tail _ next ih =>
    cases next with
    | call call _ => exact ih.imp_right fun mem => List.mem_append_left _ mem

end Session

namespace Grouping

open TypeTable Session

variable {session : Session}

mutual

/-- A grouping comes to the union of the types in it, by calls on what is offered. -/
theorem unionOf_make (grouping : Grouping) {session : Session} (regular : session.Regular)
    (offered : ∀ id ∈ grouping.types, session.Offers id) :
    ReflTransGen Next session (grouping.make session).2
      ∧ (grouping.make session).2.Offers (grouping.make session).1
      ∧ (grouping.make session).2.storage.table.UnionOf grouping.types (grouping.make session).1 :=
  match grouping with
  | .type id =>
    ⟨.refl, offered id (List.mem_singleton_self id), regular.wellFormed.unionOf_singleton id⟩
  | .group members => by
    obtain ⟨calls, offers, same⟩ := sameUnion_makeAll members regular offered
    have made : make (.group members) session
        = ask (.union (makeAll members session).1) (makeAll members session).2 := by
      rw [make]
      rfl
    rw [made, types]
    generalize makeAll members session = result at calls offers same
    obtain ⟨ids, later⟩ := result
    dsimp only at calls offers same ⊢
    obtain ⟨regular', _⟩ := regular.calls calls
    have known : ∀ id ∈ ids, later.storage.table.Knows id :=
      fun id mem => regular'.knows_of_offers (offers id mem)
    have known' : ∀ id ∈ typesOfAll members, later.storage.table.Knows id :=
      fun id mem => regular'.knows_of_offers ((offered id mem).calls calls)
    have refines := Storage.refines_union regular'.sound ids
    obtain ⟨made, unionOf⟩ := union_spec regular'.wellFormed known
    rw [← refines.table, ← refines.result] at unionOf
    have grows := refines.grows.table regular'.sound
    refine ⟨calls.tail (.call _ _ offers), .inr (by simp [ask, Session.after]), ?_⟩
    show TypeTable.UnionOf (Storing.union ids later.storage).2.table _ _
    have same' : SameUnion ((Storing.union ids later.storage).2.table.flatten ids)
        ((Storing.union ids later.storage).2.table.flatten (typesOfAll members)) := by
      rwa [grows.flatten_eq known, grows.flatten_eq known']
    exact (unionOf_congr same'.normalize_eq).1 unionOf
termination_by structural grouping

/-- Groupings come to ids whose members are the types in them, as far as a union keeps them. -/
theorem sameUnion_makeAll (members : List Grouping) {session : Session} (regular : session.Regular)
    (offered : ∀ id ∈ typesOfAll members, session.Offers id) :
    ReflTransGen Next session (makeAll members session).2
      ∧ (∀ id ∈ (makeAll members session).1, (makeAll members session).2.Offers id)
      ∧ SameUnion ((makeAll members session).2.storage.table.flatten (makeAll members session).1)
          ((makeAll members session).2.storage.table.flatten (typesOfAll members)) :=
  match members with
  | [] => ⟨.refl, fun _ mem => absurd mem List.not_mem_nil, .refl _⟩
  | first :: rest => by
    rw [typesOfAll, List.forall_mem_append] at offered
    obtain ⟨calls, offers, unionOf⟩ := unionOf_make first regular offered.1
    obtain ⟨regular', _⟩ := regular.calls calls
    have offered' : ∀ id ∈ typesOfAll rest, (first.make session).2.Offers id :=
      fun id mem => (offered.2 id mem).calls calls
    obtain ⟨calls', offers', same⟩ := sameUnion_makeAll rest regular' offered'
    have made : makeAll (first :: rest) session
        = ((first.make session).1 :: (makeAll rest (first.make session).2).1,
          (makeAll rest (first.make session).2).2) := by
      rw [makeAll]
      rfl
    have known : ∀ id ∈ first.types, (first.make session).2.storage.table.Knows id :=
      fun id mem => regular'.knows_of_offers ((offered.1 id mem).calls calls)
    obtain ⟨regular'', grows⟩ := regular'.calls calls'
    have grows := grows.table regular'.sound
    refine ⟨made ▸ calls.trans calls', made ▸ ?_, made ▸ ?_⟩
    · exact List.forall_mem_cons.2 ⟨offers.calls calls', offers'⟩
    · rw [typesOfAll, flatten_append, flatten_cons]
      refine SameUnion.append ?_ same
      exact (unionOf.growsTo grows known).sameUnion regular''.wellFormed
        fun id mem => grows.knows (known id mem)
termination_by structural members

end

/-- Groupings of the same types come to one id, also when the second is made later. -/
theorem make_eq_of_sameUnion {grouping regrouped : Grouping} {session later : Session}
    (regular : session.Regular) (offered : ∀ id ∈ grouping.types, session.Offers id)
    (calls : ReflTransGen Next (grouping.make session).2 later)
    (offered' : ∀ id ∈ regrouped.types, later.Offers id)
    (same : SameUnion (later.storage.table.flatten grouping.types)
      (later.storage.table.flatten regrouped.types)) :
    (grouping.make session).1 = (regrouped.make later).1 := by
  obtain ⟨before, _, unionOf⟩ := unionOf_make grouping regular offered
  obtain ⟨regular₁, _⟩ := regular.calls before
  obtain ⟨regular₂, grows⟩ := regular₁.calls calls
  obtain ⟨after, _, unionOf'⟩ := unionOf_make regrouped regular₂ offered'
  obtain ⟨regular₃, grows'⟩ := regular₂.calls after
  have grows := grows.table regular₁.sound
  have grows' := grows'.table regular₂.sound
  have known : ∀ id ∈ grouping.types, (grouping.make session).2.storage.table.Knows id :=
    fun id mem => regular₁.knows_of_offers ((offered id mem).calls before)
  have known' : ∀ id ∈ regrouped.types, later.storage.table.Knows id :=
    fun id mem => regular₂.knows_of_offers (offered' id mem)
  have unionOf := unionOf.growsTo (grows.trans grows') known
  refine unionOf.eq_of_sameUnion regular₃.wellFormed unionOf' ?_
  rwa [grows'.flatten_eq fun id mem => grows.knows (known id mem), grows'.flatten_eq known']

end Grouping

namespace Session

open TypeTable Grouping

variable {session : Session}

/-! ## The laws -/

/-- What unions of the types of a session satisfy. -/
structure UnionLaws (session : Session) : Prop where
  /-- A union depends on the set of its flattened members alone, and in it not on `never`. -/
  determined : ∀ members others, (∀ m ≠ TypeId.never,
      m ∈ session.storage.flatten members ↔ m ∈ session.storage.flatten others) →
    ask (.union members) session = ask (.union others) session
  /-- So it does where it is made by several calls, in whatever groups, and whatever types were
  added before the second grouping is made. -/
  regrouped : ∀ (grouping regrouping : Grouping) (later : Session),
    (∀ id ∈ grouping.types, session.Offers id) →
    ReflTransGen Next (grouping.make session).2 later →
    (∀ id ∈ regrouping.types, later.Offers id) → (∀ m ≠ TypeId.never,
      m ∈ later.storage.flatten grouping.types ↔ m ∈ later.storage.flatten regrouping.types) →
    (grouping.make session).1 = (regrouping.make later).1
  commutative : ∀ members others, members.Perm others →
    ask (.union members) session = ask (.union others) session
  idempotent : ∀ members,
    ask (.union (members ++ members)) session = ask (.union members) session
  /-- The union of one type, however often it is given, is that type, and nothing is added. -/
  single : ∀ id members, id ∈ members → (∀ m ∈ members, m = id ∨ m = TypeId.never) →
    (ask (.union members) session).1 = id
      ∧ (ask (.union members) session).2.storage.table = session.storage.table
  /-- `never` is the identity. -/
  never : ∀ before behind, ask (.union (before ++ TypeId.never :: behind)) session
    = ask (.union (before ++ behind)) session
  /-- `unknown` absorbs the other members, also those of the groups around it. -/
  unknown : ∀ grouping : Grouping, (∀ id ∈ grouping.types, session.Offers id) →
    TypeId.unknown ∈ session.storage.flatten grouping.types →
    (grouping.make session).1 = TypeId.unknown
  /-- What admits `null` is left as it is when `null` is added again. -/
  nullable : ∀ id later, session.Offers id →
    ReflTransGen Next (ask (.nullable id) session).2 later →
    (ask (.nullable (ask (.nullable id) session).1) later).1 = (ask (.nullable id) session).1

/-- Calls on lists with the same flattened members do the same. -/
theorem ask_union_eq {members others : List TypeId}
    (same : SameUnion (session.storage.flatten members) (session.storage.flatten others)) :
    ask (.union members) session = ask (.union others) session := by
  have normal := same.normalize_eq
  have stored : (Call.union members).stored session.storage
      = (Call.union others).stored session.storage := by
    change StateT.run (Storing.union members) _ = StateT.run (Storing.union others) _
    simp only [Storing.union, StateT.run_bind, StateT.run_get, pure_bind, normal]
  simp only [ask, after, stored]

/-- A union of one type adds nothing. -/
theorem Regular.ask_union_eq_single (regular : session.Regular) {id : TypeId}
    {members : List TypeId} (mem : id ∈ members) (all : ∀ m ∈ members, m = id ∨ m = TypeId.never) :
    (ask (.union members) session).1 = id
      ∧ (ask (.union members) session).2.storage.table = session.storage.table := by
  have wf := regular.wellFormed
  have same : SameUnion (session.storage.flatten members) (session.storage.flatten [id]) := by
    refine .of_mem_iff fun m hm => ?_
    rw [Storage.flatten_eq, Storage.flatten_eq, mem_flatten, mem_flatten]
    constructor
    · rintro ⟨given, among, found⟩
      rcases all given among with rfl | rfl
      · exact ⟨given, List.mem_singleton_self given, found⟩
      · exact absurd (List.mem_singleton.1 found) hm
    · rintro ⟨given, among, found⟩
      exact ⟨given, List.mem_singleton.1 among ▸ mem, found⟩
  have refines := Storage.refines_union regular.sound [id]
  have plain := wf.union_singleton id
  rw [ask_union_eq same]
  exact ⟨refines.result.trans (congrArg Prod.fst plain),
    refines.table.trans (congrArg Prod.snd plain)⟩

theorem Regular.unionLaws (regular : session.Regular) : session.UnionLaws := by
  have wf := regular.wellFormed
  constructor
  case determined => exact fun members others same => ask_union_eq (.of_mem_iff same)
  case regrouped =>
    intro grouping regrouping later offered calls offered' same
    refine make_eq_of_sameUnion regular offered calls offered' (.of_mem_iff ?_)
    rwa [← Storage.flatten_eq, ← Storage.flatten_eq]
  case commutative =>
    intro members others perm
    refine ask_union_eq (.of_mem_iff fun m _ => ?_)
    rw [Storage.flatten_eq, Storage.flatten_eq]
    exact (perm.flatMap_right _).mem_iff
  case idempotent =>
    intro members
    refine ask_union_eq (.of_mem_iff fun m _ => ?_)
    rw [Storage.flatten_eq, Storage.flatten_eq, flatten_append, List.mem_append, or_self]
  case single => exact fun id members mem all => regular.ask_union_eq_single mem all
  case never =>
    intro before behind
    refine ask_union_eq (.of_mem_iff fun m hm => ?_)
    have dropped : session.storage.table.flatten [TypeId.never] = [TypeId.never] := rfl
    rw [Storage.flatten_eq, Storage.flatten_eq, flatten_append, flatten_append, flatten_cons,
      dropped, List.mem_append, List.mem_append, List.mem_append, List.mem_singleton,
      or_iff_right (a := m = TypeId.never) hm]
  case unknown =>
    intro grouping offered mem
    obtain ⟨calls, offers, unionOf⟩ := unionOf_make grouping regular offered
    obtain ⟨regular', grows⟩ := regular.calls calls
    have known : ∀ id ∈ grouping.types, session.storage.table.Knows id :=
      fun id mem => regular.knows_of_offers (offered id mem)
    rw [Storage.flatten_eq, ← (grows.table regular.sound).flatten_eq known] at mem
    rcases unionOf.cases with ⟨_, same⟩ | ⟨absent, _⟩
    · exact same
    · exact absurd mem absent
  case nullable =>
    intro id later offers calls
    have offered {later : Session} {m : TypeId} (offers : later.Offers m) :
        ∀ part ∈ [m, TypeId.null], later.Offers part :=
      List.forall_mem_cons.2 ⟨offers, List.forall_mem_singleton.2 (.inl ⟨.null, rfl⟩)⟩
    obtain ⟨before, offers', unionOf⟩ :=
      unionOf_make (.group [.type id, .type TypeId.null]) regular (offered offers)
    obtain ⟨regular₁, _⟩ := regular.calls before
    obtain ⟨regular₂, grows⟩ := regular₁.calls calls
    have grows := grows.table regular₁.sound
    have known : ∀ m ∈ [id, TypeId.null], (ask (.nullable id) session).2.storage.table.Knows m :=
      fun m mem => regular₁.knows_of_offers ((offered offers m mem).calls before)
    have nullable := (unionOf.growsTo grows known).sameUnion regular₂.wellFormed
      fun m mem => grows.knows (known m mem)
    -- The second `null` is one that the flattened members have already.
    have same : SameUnion (later.storage.table.flatten [id, TypeId.null])
        (later.storage.table.flatten [(ask (.nullable id) session).1, TypeId.null]) := by
      have twice := nullable.symm.append (.refl (later.storage.table.flatten [TypeId.null]))
      rw [flatten_cons _ (ask (.nullable id) session).1]
      refine SameUnion.trans (.of_mem_iff fun m _ => ?_) twice
      show _ ↔ m ∈ later.storage.table.flatten [id, TypeId.null] ++ _
      rw [flatten_cons _ id, List.append_assoc, List.mem_append, List.mem_append, List.mem_append,
        or_self]
    exact (@make_eq_of_sameUnion (.group [.type id, .type TypeId.null])
      (.group [.type (ask (.nullable id) session).1, .type TypeId.null]) _ _
      regular (offered offers) calls (offered (offers'.calls calls)) same).symm

/-- The laws hold after every sequence of calls, each on intrinsic types and on ids that were given
before. -/
theorem unionLaws_of_calls (before : ReflTransGen Next start session) : session.UnionLaws :=
  (regular_start.calls before).1.unionLaws

/-- A session that makes two leaves. -/
def payment : Session := (start.after (.leaf "Money")).after (.leaf "Date")

/-- An optional amount or a date, made of a union for each. -/
def optionalAmount : Grouping :=
  .group [.group [.type ⟨100⟩, .type TypeId.null], .group [.type ⟨101⟩, .type TypeId.never]]

/-- The same types in other groups, one of them empty. -/
def optionalEither : Grouping :=
  .group [.group [.type ⟨101⟩, .type ⟨100⟩], .group [], .type TypeId.null]

/-- The two groupings are one type, the fourth that was given, although the first adds two unions to
the table and the second a third one. -/
theorem unionLaws_of_calls_payment :
    ReflTransGen Next start payment ∧ payment.UnionLaws
      ∧ (optionalAmount.make payment).1 = ⟨103⟩
      ∧ (optionalEither.make (optionalAmount.make payment).2).1 = ⟨103⟩
      ∧ (optionalEither.make (optionalAmount.make payment).2).2.given
          = [⟨100⟩, ⟨101⟩, ⟨102⟩, ⟨101⟩, ⟨103⟩, ⟨104⟩, TypeId.never, ⟨103⟩] := by
  have before : ReflTransGen Next start payment := by
    refine .tail (.single (.call _ _ ?_)) (.call _ _ ?_)
    · exact fun _ mem => absurd mem List.not_mem_nil
    · exact fun _ mem => absurd mem List.not_mem_nil
  have laws := unionLaws_of_calls before
  have offered : ∀ id ∈ optionalAmount.types, payment.Offers id :=
    List.forall_mem_cons.2 ⟨.inr (by decide +kernel), List.forall_mem_cons.2 ⟨.inl ⟨.null, rfl⟩,
      List.forall_mem_cons.2 ⟨.inr (by decide +kernel), List.forall_mem_singleton.2
        (.inl ⟨.never, rfl⟩)⟩⟩⟩
  have offered' : ∀ id ∈ optionalEither.types, (optionalAmount.make payment).2.Offers id :=
    List.forall_mem_cons.2 ⟨.inr (by decide +kernel), List.forall_mem_cons.2
      ⟨.inr (by decide +kernel), List.forall_mem_singleton.2 (.inl ⟨.null, rfl⟩)⟩⟩
  have flat : (optionalAmount.make payment).2.storage.flatten optionalAmount.types
      = [⟨100⟩, TypeId.null, ⟨101⟩, TypeId.never] := by decide +kernel
  have flat' : (optionalAmount.make payment).2.storage.flatten optionalEither.types
      = [⟨101⟩, ⟨100⟩, TypeId.null] := by decide +kernel
  have same := laws.regrouped optionalAmount optionalEither _ offered .refl offered' fun m hm => by
    rw [flat, flat']
    simp only [List.mem_cons, List.not_mem_nil, or_false, hm]
    grind
  have made : (optionalAmount.make payment).1 = ⟨103⟩ := by decide +kernel
  exact ⟨before, laws, made, same.symm.trans made, by decide +kernel⟩

end Session

end ModelForms
