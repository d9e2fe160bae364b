import ModelForms.Proofs.Document.LoweringDocuments
import ModelForms.Proofs.Expr.Scanning
import ModelForms.Proofs.Types.UniqueTexts

/-!
# Reading types back

A type is written as an expression, and lowering that expression in the table of the type gives the
type (`Document.returns_typeText_of_lower`).  The type may be built from intrinsic types, leaves and
models of a lowered document and from literals, by arrays and unions (`Lowered.Builds`).

What is built is stored as an entry of the table (`Lowered.Stored`), so the induction is on the
entries.  A type and its expression have the same parts, but the members of a union are written in
another order than that of their ids; lowering puts them in order again, and no entry has two ids.
The induction goes along the text at the same time, where a union has parentheses in front of
brackets and nowhere else (`ReadsOperand`, `ReadsType`).
-/

namespace ModelForms

open Grammar

/-! ## Building types -/

namespace Lowered

variable {lowered : Lowered} {types : TypeTable} {ids : List TypeId} {id : TypeId}

/-- Types are built in the table of a lowered document, whatever else is added to the table in
between. -/
inductive Builds (lowered : Lowered) : TypeTable → List TypeId → Prop
  | start : Builds lowered lowered.catalog.types []
  | grown {types later : TypeTable} {ids : List TypeId} (built : Builds lowered types ids)
      (grows : types.GrowsTo later) (wf : later.WellFormed) : Builds lowered later ids
  | intrinsic {types : TypeTable} {ids : List TypeId} (built : Builds lowered types ids)
      (k : Intrinsic) : Builds lowered types (.ofIntrinsic k :: ids)
  | leaf {types : TypeTable} {ids : List TypeId} (built : Builds lowered types ids) {name : String}
      {id : TypeId} (known : lowered.leaves.lookup name = some id) :
      Builds lowered (Interning.leaf name types).2 ((Interning.leaf name types).1 :: ids)
  | reference {types : TypeTable} {ids : List TypeId} (built : Builds lowered types ids)
      {name : String} {definition : ModelId}
      (known : lowered.models.lookup name = some definition) :
      Builds lowered (Interning.reference definition types).2
        ((Interning.reference definition types).1 :: ids)
  | boolean {types : TypeTable} {ids : List TypeId} (built : Builds lowered types ids) (b : Bool) :
      Builds lowered (Interning.literal (.boolean b) types).2
        ((Interning.literal (.boolean b) types).1 :: ids)
  | string {types : TypeTable} {ids : List TypeId} (built : Builds lowered types ids)
      {value : String} (readable : ∀ c ∈ value.toList, Quoted.IsReadable c) :
      Builds lowered (Interning.literal (.string value) types).2
        ((Interning.literal (.string value) types).1 :: ids)
  | array {types : TypeTable} {ids : List TypeId} (built : Builds lowered types ids)
      {element : TypeId} (mem : element ∈ ids) :
      Builds lowered (Interning.array element types).2
        ((Interning.array element types).1 :: ids)
  | union {types : TypeTable} {ids : List TypeId} (built : Builds lowered types ids)
      {members : List TypeId} (mem : ∀ m ∈ members, m ∈ ids) :
      Builds lowered (Interning.union members types).2
        ((Interning.union members types).1 :: ids)

/-- A type is stored in a table with all of its parts. -/
inductive Stored (lowered : Lowered) (types : TypeTable) : TypeId → Prop
  | intrinsic (k : Intrinsic) : Stored lowered types (.ofIntrinsic k)
  | leaf {name : String} {declared id : TypeId}
      (known : lowered.leaves.lookup name = some declared)
      (found : types.lookup id = some (.leaf name)) : Stored lowered types id
  | reference {name : String} {definition : ModelId} {id : TypeId}
      (known : lowered.models.lookup name = some definition)
      (found : types.lookup id = some (.reference definition)) : Stored lowered types id
  | boolean {b : Bool} {id : TypeId} (found : types.lookup id = some (.literal (.boolean b))) :
      Stored lowered types id
  | string {value : String} {id : TypeId} (readable : ∀ c ∈ value.toList, Quoted.IsReadable c)
      (found : types.lookup id = some (.literal (.string value))) : Stored lowered types id
  | array {element id : TypeId} (part : Stored lowered types element)
      (found : types.lookup id = some (.array element)) : Stored lowered types id
  | union {members : List TypeId} {id : TypeId} (parts : ∀ m ∈ members, Stored lowered types m)
      (found : types.lookup id = some (.union members)) : Stored lowered types id

theorem Stored.knows (stored : lowered.Stored types id) : types.Knows id := by
  cases stored with
  | intrinsic k => exact TypeTable.knows_intrinsic types k
  | leaf _ found | reference _ found | boolean found | string _ found | array _ found
  | union _ found => exact TypeTable.knows_of_lookup found

theorem Stored.growsTo {later : TypeTable} (stored : lowered.Stored types id)
    (grows : types.GrowsTo later) : lowered.Stored later id := by
  induction stored with
  | intrinsic k => exact .intrinsic k
  | leaf known found => exact .leaf known (grows.lookup found)
  | reference known found => exact .reference known (grows.lookup found)
  | boolean found => exact .boolean (grows.lookup found)
  | string readable found => exact .string readable (grows.lookup found)
  | array _ found ih => exact .array ih (grows.lookup found)
  | union _ found ih => exact .union ih (grows.lookup found)

theorem Stored.member (stored : lowered.Stored types id) {members : List TypeId}
    (found : types.lookup id = some (.union members)) {m : TypeId} (mem : m ∈ members) :
    lowered.Stored types m := by
  cases stored with
  | intrinsic k => cases (TypeTable.lookup_ofIntrinsic types k).symm.trans found
  | leaf _ found' | reference _ found' | boolean found' | string _ found' | array _ found' =>
    cases found'.symm.trans found
  | union parts found' =>
    cases found'.symm.trans found
    exact parts m mem

/-- The union of stored types is stored. -/
theorem stored_of_unionOf {members : List TypeId}
    (parts : ∀ m ∈ members, lowered.Stored types m) (union : types.UnionOf members id) :
    lowered.Stored types id := by
  have flat (m : TypeId) (mem : m ∈ types.flatten members) : lowered.Stored types m := by
    obtain ⟨given, mem, among⟩ := TypeTable.mem_flatten.1 mem
    cases found : types.unionMembers? given with
    | none =>
      rw [found, Option.getD_none, List.mem_singleton] at among
      exact among ▸ parts given mem
    | some inner =>
      rw [found, Option.getD_some] at among
      exact (parts given mem).member (TypeTable.unionMembers?_eq_some_iff.1 found) among
  rcases TypeTable.unionOf_iff.1 union with single | ⟨_, several, stored⟩
  · rcases TypeTable.of_normalize_eq_single single with rfl | rfl | mem
    · exact .intrinsic .unknown
    · exact .intrinsic .never
    · exact flat id mem
  · obtain ⟨_, _, kept⟩ := TypeTable.of_normalize_eq_several several
    exact .union (fun m mem => flat m (kept m mem).1) stored

/-- A table with everything that a lowered document has. -/
structure Extends (lowered : Lowered) (types : TypeTable) : Prop where
  wellFormed : types.WellFormed
  grows : lowered.catalog.types.GrowsTo types

/-- A new entry is stored if its parts are, and it leaves what was stored before as it is. -/
theorem stored_intern {entry : TypeEntry} (noted : TypeTable)
    (before : lowered.Extends types ∧ ∀ id ∈ ids, lowered.Stored types id)
    (same : noted.entries = types.entries) (proper : ∀ members, entry ≠ .union members)
    (known : ∀ part ∈ entry.parts, types.Knows part)
    (new : ∀ later id, types.GrowsTo later → later.lookup id = some entry →
      lowered.Stored later id) :
    lowered.Extends (Interning.intern entry noted).2
      ∧ ∀ id ∈ (Interning.intern entry noted).1 :: ids,
        lowered.Stored (Interning.intern entry noted).2 id := by
  obtain ⟨⟨wf, grows⟩, stored⟩ := before
  have toNoted := TypeTable.GrowsTo.of_entries_eq same
  have grown := toNoted.trans (TypeTable.growsTo_intern entry noted)
  have wf := (wf.of_entries_eq same).intern (fun part mem => toNoted.knows (known part mem))
    fun members is => absurd is (proper members)
  refine ⟨⟨wf, grows.trans grown⟩, List.forall_mem_cons.2 ⟨?_, fun id mem => ?_⟩⟩
  · exact new _ _ grown (TypeTable.lookup_intern entry noted)
  · exact (stored id mem).growsTo grown

/-- Whatever is built is stored. -/
theorem Builds.stored (built : lowered.Builds types ids)
    (wf : lowered.catalog.types.WellFormed) :
    lowered.Extends types ∧ ∀ id ∈ ids, lowered.Stored types id := by
  induction built with
  | start => exact ⟨⟨wf, .refl _⟩, by simp⟩
  | grown _ grows wf ih =>
    obtain ⟨⟨_, grows'⟩, stored⟩ := ih
    exact ⟨⟨wf, grows'.trans grows⟩, fun id mem => (stored id mem).growsTo grows⟩
  | intrinsic _ k ih => exact ⟨ih.1, List.forall_mem_cons.2 ⟨.intrinsic k, ih.2⟩⟩
  | @leaf types _ _ name _ known ih =>
    exact stored_intern (Interning.note name types).2 ih rfl (by simp) (by simp [TypeEntry.parts])
      fun _ _ _ found => .leaf known found
  | @reference types _ _ _ _ known ih =>
    exact stored_intern types ih rfl (by simp) (by simp [TypeEntry.parts]) fun _ _ _ found =>
      .reference known found
  | @boolean types _ _ b ih =>
    exact stored_intern types ih rfl (by simp) (by simp [TypeEntry.parts]) fun _ _ _ found =>
      .boolean found
  | @string types _ _ value readable ih =>
    exact stored_intern (Interning.note value types).2 ih rfl (by simp) (by simp [TypeEntry.parts])
      fun _ _ _ found => .string readable found
  | @array types _ _ _ mem ih =>
    refine stored_intern types ih rfl (by simp) ?_ fun _ _ grows found =>
      .array ((ih.2 _ mem).growsTo grows) found
    exact List.forall_mem_singleton.2 (ih.2 _ mem).knows
  | @union types ids _ members mem ih =>
    obtain ⟨⟨wf, grows⟩, stored⟩ := ih
    obtain ⟨made, union⟩ :=
      TypeTable.union_spec wf fun m inside => (stored m (mem m inside)).knows
    have grown := made.adds.growsTo
    refine ⟨⟨made.wellFormed, grows.trans grown⟩, List.forall_mem_cons.2 ⟨?_, fun id mem => ?_⟩⟩
    · exact stored_of_unionOf (fun m inside => (stored m (mem m inside)).growsTo grown) union
    · exact (stored id mem).growsTo grown

end Lowered

/-! ## Lowering what is written -/

/-- A state has the types and the models of a catalog, and the models of a document. -/
structure Catalog.Matches (catalog : Catalog) (declared : Entries ModelId) (state : LoweringState) :
    Prop where
  entries : state.catalog.types.entries = catalog.types.entries
  models : state.catalog.models = catalog.models
  declared : state.declared = declared

namespace Lowering

variable {α β : Type} {catalog : Catalog} {declared : Entries ModelId} {id : TypeId}
  {ensureModel : String → Lowering Unit} {site : ExprSite}

/-- Where the types and the models are those of a catalog and a document, a lowering gives a result
and changes none of them. -/
def Returns (catalog : Catalog) (declared : Entries ModelId) (action : Lowering α) (result : α) :
    Prop :=
  ∀ before, catalog.Matches declared before → ∃ after, Gives action before result after
    ∧ catalog.Matches declared after ∧ after.underway = before.underway

theorem returns_pure (result : α) : Returns catalog declared (pure result) result :=
  fun before same => ⟨before, gives_pure_iff.2 ⟨rfl, rfl⟩, same, rfl⟩

theorem Returns.bind {action : Lowering α} {next : α → Lowering β} {a : α} {b : β}
    (first : Returns catalog declared action a) (onwards : Returns catalog declared (next a) b) :
    Returns catalog declared (action >>= next) b := by
  intro before same
  obtain ⟨middle, gives, same, underway⟩ := first before same
  obtain ⟨after, gives', same, underway'⟩ := onwards middle same
  exact ⟨after, gives_bind_iff.2 ⟨a, middle, gives, gives'⟩, same, underway'.trans underway⟩

/-- Making a type that is there gives its id. -/
theorem returns_interning (wf : catalog.types.WellFormed) {entry : TypeEntry}
    (found : catalog.types.lookup id = some entry) (proper : ∀ k, entry ≠ .intrinsic k)
    {action : Interning TypeId}
    (interns : ∀ table, table.entries = catalog.types.entries →
      ∃ noted : TypeTable, noted.entries = table.entries
        ∧ action table = Interning.intern entry noted) :
    Returns catalog declared (interning action) id := by
  intro before same
  obtain ⟨noted, entries, interns⟩ := interns before.catalog.types same.entries
  replace entries := entries.trans same.entries
  replace found := (TypeTable.GrowsTo.of_entries_eq entries).lookup found
  rw [(wf.of_entries_eq entries).intern_eq found proper] at interns
  refine ⟨before.withTypes noted, gives_interning_iff.2 ?_,
    ⟨entries, same.models, same.declared⟩, rfl⟩
  rw [interns]
  exact ⟨rfl, rfl⟩

theorem returns_literal (wf : catalog.types.WellFormed) {value : Literal}
    (found : catalog.types.lookup id = some (.literal value)) :
    Returns catalog declared (interning (Interning.literal value)) id :=
  returns_interning wf found (by simp) fun table _ => TypeTable.literal_eq value table

theorem returns_array (wf : catalog.types.WellFormed) {element : TypeId}
    (found : catalog.types.lookup id = some (.array element)) :
    Returns catalog declared (interning (Interning.array element)) id :=
  returns_interning wf found (by simp) fun table _ => ⟨table, rfl, rfl⟩

/-- The members of a union may come in any order. -/
theorem returns_union (wf : catalog.types.WellFormed) {members ids : List TypeId}
    (found : catalog.types.lookup id = some (.union members))
    (same : ∀ m, m ∈ ids ↔ m ∈ members) :
    Returns catalog declared (interning (Interning.union ids)) id := by
  have normal := wf.normalUnion (TypeTable.unionMembers?_eq_some_iff.2 found)
  refine returns_interning wf found (by simp) fun table entries => ⟨table, rfl, ?_⟩
  have flat : table.flatten ids = ids := by
    rw [(TypeTable.GrowsTo.of_entries_eq entries).flatten_eq fun m mem =>
      normal.known m ((same m).1 mem)]
    exact TypeTable.flatten_of_flat fun m mem => normal.flat m ((same m).1 mem)
  rw [TypeTable.union_eq, flat, TypeTable.normalize_eq_of_mem_iff normal same]

theorem returns_reference (wf : catalog.types.WellFormed) {name : String} {definition : ModelId}
    (found : catalog.types.lookup id = some (.reference definition))
    (named : declared.lookup name = some definition) :
    Returns catalog declared (lookupName site name) id := by
  intro before same
  unfold lookupName
  simp only [gives_get_bind_iff, same.declared, named]
  exact returns_interning wf found (by simp) (fun table _ => ⟨table, rfl, rfl⟩) before same

theorem returns_leaf {name : String} (other : declared.lookup name = none)
    (known : site.leaves.lookup name = some id) :
    Returns catalog declared (lookupName site name) id := by
  intro before same
  unfold lookupName
  simp only [gives_get_bind_iff, same.declared, other, known]
  exact returns_pure id before same

/-- A name that stands for a model or for a leaf. -/
structure IsPlainName (name : String) : Prop extends IsWord name where
  generic : genericArity? name = none

theorem isPlainName_of_isTaken {name : String} (untaken : isTaken name = false)
    (isName : CharClass.isName name = true) : IsPlainName name := by
  simp only [isTaken, Bool.or_eq_false_iff, decide_eq_false_iff_not, Option.isSome_eq_false_iff,
    Option.isNone_iff_eq_none] at untaken
  obtain ⟨⟨⟨intrinsic, generic⟩, ne_true⟩, ne_false⟩ := untaken
  exact ⟨⟨⟨intrinsic, ne_true, ne_false⟩, isName⟩, generic⟩

end Lowering

/-! ## Types and their expressions -/

/-- The members of a union in the order in which they are written. -/
def TypeId.nullishLast (ids : List TypeId) : List TypeId :=
  ids.filter (fun id => !decide (id = null) && !decide (id = undefined))
    ++ ids.filter (fun id => decide (id = null)) ++ ids.filter (fun id => decide (id = undefined))

theorem TypeId.nullishLast_perm {ids : List TypeId} (ascending : ids.Pairwise (·.index < ·.index))
    (proper : ∀ id ∈ ids, id ≠ never ∧ id ≠ unknown) : (nullishLast ids).Perm ids := by
  rw [nullishLast, List.append_assoc]
  exact List.perm_append_comm.trans (.of_eq (nullish_first ascending proper))

theorem TypeTable.WellFormed.nullishBack_map_term {table : TypeTable} (wf : table.WellFormed)
    {members : List TypeId} (known : ∀ m ∈ members, table.Knows m) :
    TypeTerm.nullishBack (members.map table.term)
      = (TypeId.nullishLast members).map table.term := by
  rw [TypeTerm.nullishBack, wf.filter_isIntrinsic_map_term known,
    wf.filter_isIntrinsic_map_term known, wf.filter_proper_map_term known, ← List.map_append,
    ← List.map_append, TypeId.nullishLast]

namespace Lowered

open Lowering

variable {lowered : Lowered} {types : TypeTable} {id : TypeId}

/-- The models of a lowered document with a table that may have more types. -/
def withTypes (lowered : Lowered) (types : TypeTable) : Catalog := ⟨types, lowered.catalog.models⟩

/-- The characters of a type. -/
def chars (lowered : Lowered) (types : TypeTable) (id : TypeId) : List Char :=
  (types.term id).chars lowered.catalog.models.name?

/-- What the names in the types of a table stand for. -/
structure Lexicon (lowered : Lowered) (types : TypeTable) : Prop extends Extends lowered types where
  leaf : ∀ name id, lowered.leaves.lookup name = some id → IsPlainName name
    ∧ types.lookup id = some (.leaf name) ∧ lowered.models.lookup name = none
  model : ∀ name definition, lowered.models.lookup name = some definition → IsPlainName name
    ∧ lowered.catalog.models.name? definition = some name

/-- A type is written as an expression that stands for it. -/
structure ReadsBack (lowered : Lowered) (types : TypeTable) (id : TypeId) (expr : TypeExpr)
    (depth : Nat) : Prop where
  type : ReadsType (lowered.chars types id) depth expr
  operand : (types.term id).isUnion = false → ReadsOperand (lowered.chars types id) depth expr
  returns : ∀ ensureModel site, site.leaves = lowered.leaves →
    Returns (lowered.withTypes types) lowered.models (typeOfExpr ensureModel site expr) id

theorem readsBack_of_operand {expr : TypeExpr} {depth : Nat} {text : List Char}
    (is : lowered.chars types id = text) (reads : ReadsOperand text depth expr)
    (returns : ∀ ensureModel site, site.leaves = lowered.leaves →
      Returns (lowered.withTypes types) lowered.models (typeOfExpr ensureModel site expr) id) :
    lowered.ReadsBack types id expr depth :=
  ⟨is ▸ reads.type, fun _ => is ▸ reads, returns⟩

theorem exists_members {ids : List TypeId} (nonempty : ids ≠ [])
    (flat : ∀ m ∈ ids, (types.term m).isUnion = false)
    (parts : ∀ m ∈ ids, ∃ expr depth, lowered.ReadsBack types m expr depth) :
    ∃ exprs depth, exprs.length = ids.length
      ∧ ReadsMembers (TypeTerm.separated [' ', '|', ' '] (ids.map (lowered.chars types))) depth
        exprs
      ∧ ∀ ensureModel site, site.leaves = lowered.leaves →
        Returns (lowered.withTypes types) lowered.models (typesOfExprs ensureModel site exprs)
          ids := by
  have one {m : TypeId} {ids : List TypeId} {expr : TypeExpr} {exprs : List TypeExpr} {depth : Nat}
      (first : lowered.ReadsBack types m expr depth)
      (others : ∀ ensureModel site, site.leaves = lowered.leaves →
        Returns (lowered.withTypes types) lowered.models (typesOfExprs ensureModel site exprs) ids)
      (ensureModel : String → Lowering Unit) (site : ExprSite)
      (same : site.leaves = lowered.leaves) :
      Returns (lowered.withTypes types) lowered.models
        (typesOfExprs ensureModel site (expr :: exprs)) (m :: ids) := by
    rw [typesOfExprs]
    exact (first.returns _ _ same).bind ((others _ _ same).bind (returns_pure _))
  induction ids with
  | nil => exact absurd rfl nonempty
  | cons m rest ih =>
    obtain ⟨flatFirst, flat⟩ := List.forall_mem_cons.1 flat
    obtain ⟨⟨expr, depth, first⟩, parts⟩ := List.forall_mem_cons.1 parts
    have operand := first.operand flatFirst
    cases rest with
    | nil =>
      refine ⟨[expr], depth, rfl, operand.member, one first fun ensureModel site _ => ?_⟩
      rw [typesOfExprs]
      exact returns_pure _
    | cons second rest =>
      obtain ⟨exprs, deeper, length, members, returns⟩ :=
        ih (List.cons_ne_nil _ _) flat parts
      exact ⟨expr :: exprs, max depth deeper, congrArg (· + 1) length, operand.cons members,
        one first returns⟩

theorem chars_eq_of_lookup (wf : types.WellFormed) {entry : TypeEntry}
    (found : types.lookup id = some entry) :
    lowered.chars types id = (types.entryTerm entry).chars lowered.catalog.models.name? := by
  rw [Lowered.chars, wf.term_of_lookup found]

/-- The elements of an array are in parentheses exactly if they are a union. -/
theorem exists_readsBack_array (wf : types.WellFormed) {element : TypeId}
    (found : types.lookup id = some (.array element)) {expr : TypeExpr} {depth : Nat}
    (reads : lowered.ReadsBack types element expr depth) :
    ∃ depth, lowered.ReadsBack types id (.array expr) depth := by
  have returns (ensureModel : String → Lowering Unit) (site : ExprSite)
      (same : site.leaves = lowered.leaves) :
      Returns (lowered.withTypes types) lowered.models (typeOfExpr ensureModel site (.array expr))
        id := by
    rw [typeOfExpr]
    exact (reads.returns _ _ same).bind (returns_array wf found)
  have text := (lowered.chars_eq_of_lookup wf found).trans (TypeTerm.chars_array _ _)
  cases single : (types.term element).isUnion with
  | false =>
    rw [single, if_neg Bool.false_ne_true] at text
    exact ⟨_, readsBack_of_operand text (reads.operand single).array returns⟩
  | true =>
    rw [single, if_pos rfl] at text
    refine ⟨_, readsBack_of_operand ?_ reads.type.parentheses.array returns⟩
    rw [text]
    simp [Lowered.chars]

/-- The members of a union are written in another order than the one that they are stored in. -/
theorem exists_readsBack_union (wf : types.WellFormed) {members : List TypeId}
    (found : types.lookup id = some (.union members))
    (parts : ∀ m ∈ members, ∃ expr depth, lowered.ReadsBack types m expr depth) :
    ∃ expr depth, lowered.ReadsBack types id expr depth := by
  have normal := wf.normalUnion (TypeTable.unionMembers?_eq_some_iff.2 found)
  have perm := TypeId.nullishLast_perm normal.ascending normal.proper
  have several := normal.several
  rw [← perm.length_eq] at several
  have text : lowered.chars types id = TypeTerm.separated [' ', '|', ' ']
      ((TypeId.nullishLast members).map (lowered.chars types)) := by
    rw [lowered.chars_eq_of_lookup wf found, TypeTerm.chars_eq_separated]
    show TypeTerm.separated _ (List.map _ (TypeTerm.nullishBack _)) = _
    rw [wf.nullishBack_map_term normal.known, List.map_map]
    rfl
  obtain ⟨exprs, depth, length, reads, returns⟩ :=
    @exists_members lowered types (TypeId.nullishLast members)
      (List.ne_nil_of_length_pos (by omega))
      (fun m mem => wf.isUnion_term (normal.known m (perm.mem_iff.1 mem))
        (normal.flat m (perm.mem_iff.1 mem)))
      fun m mem => parts m (perm.mem_iff.1 mem)
  have tree : chainTree .union exprs = .union exprs := by
    rw [← length] at several
    rcases exprs with _ | ⟨first, _ | ⟨second, rest⟩⟩
    · simp at several
    · simp at several
    · rfl
  refine ⟨_, depth, text ▸ tree ▸ reads.type, fun single => ?_, fun ensureModel site same => ?_⟩
  · rw [wf.term_union found] at single
    cases single
  · rw [typeOfExpr]
    exact (returns _ _ same).bind (returns_union wf found fun m => perm.mem_iff)

/-- Whatever is stored is written as an expression that stands for it. -/
theorem Lexicon.exists_readsBack (lexicon : lowered.Lexicon types)
    (stored : lowered.Stored types id) : ∃ expr depth, lowered.ReadsBack types id expr depth := by
  have wf := lexicon.wellFormed
  induction stored with
  | intrinsic k =>
    have text := lowered.chars_eq_of_lookup wf (TypeTable.lookup_ofIntrinsic types k)
    refine ⟨_, _, readsBack_of_operand text (.keyword k) fun ensureModel site _ => ?_⟩
    rw [typeOfExpr]
    exact returns_pure _
  | @leaf name declared id known found =>
    obtain ⟨word, stored, other⟩ := lexicon.leaf name declared known
    obtain rfl := wf.eq_of_lookup found stored
    refine ⟨_, _, readsBack_of_operand (lowered.chars_eq_of_lookup wf found)
      (.reference word.isName word.toIsFree) fun ensureModel site same => ?_⟩
    rw [typeOfExpr]
    simp only [word.generic]
    exact returns_leaf other (same ▸ known)
  | @reference name definition id known found =>
    obtain ⟨word, named⟩ := lexicon.model name definition known
    have text : lowered.chars types id = name.toList := by
      rw [lowered.chars_eq_of_lookup wf found]
      show TypeTerm.referenceChars _ _ = _
      rw [TypeTerm.referenceChars, named]
    refine ⟨_, _, readsBack_of_operand text (.reference word.isName word.toIsFree)
      fun ensureModel site same => ?_⟩
    rw [typeOfExpr]
    simp only [word.generic]
    exact returns_reference wf found known
  | @boolean b id found =>
    refine ⟨_, _, readsBack_of_operand (lowered.chars_eq_of_lookup wf found) (.boolean b)
      fun ensureModel site _ => ?_⟩
    rw [typeOfExpr]
    exact returns_literal wf found
  | @string value id readable found =>
    refine ⟨_, _, readsBack_of_operand (lowered.chars_eq_of_lookup wf found) (.string readable)
      fun ensureModel site _ => ?_⟩
    rw [typeOfExpr]
    exact returns_literal wf found
  | array _ found ih =>
    obtain ⟨_, _, reads⟩ := ih
    exact ⟨_, exists_readsBack_array wf found reads⟩
  | union _ found ih => exact exists_readsBack_union wf found ih

end Lowered

namespace Document

open Lowering

/-- What the names in the types of a table stand for, where the names of the document are names as a
text is scanned. -/
theorem lexicon_of_lower {document : Document} {lowered : Lowered}
    (h : document.lower = .ok lowered)
    (names : ∀ name ∈ document.leaves ++ document.models.keys,
      TypeExpr.sentence name = [.name name])
    {types : TypeTable} (grown : lowered.Extends types) : lowered.Lexicon types := by
  obtain ⟨complete, keys⟩ := complete_of_lower h
  obtain ⟨apart, _⟩ := faithful_of_lower h
  have plain {name : String} (mem : name ∈ document.leaves ++ document.models.keys) :
      IsPlainName name :=
    isPlainName_of_isTaken (apart.untaken name mem)
      (TypeExpr.sentence_eq_name_iff.1 (names name mem))
  refine ⟨grown, fun name id known => ?_, fun name definition known => ?_⟩
  · obtain ⟨declared, stored⟩ := leaf_of_lower h known
    refine ⟨plain (List.mem_append_left _ declared), grown.grows.lookup stored,
      Entries.lookup_eq_none_iff.2 fun isModel => ?_⟩
    exact apart.models name (keys ▸ isModel) declared
  · have declared := List.mem_map_of_mem (f := Prod.fst) (Entries.mem_of_lookup known)
    exact ⟨plain (List.mem_append_right _ (keys ▸ declared)),
      Definitions.name?_eq_some_of_find? (complete.find?_of_lookup known)⟩

/-- The text of a type that was built in the table of a lowered document is an expression, if its
parentheses do not nest too deeply.  Lowering it among the same models and leaves, where the table
is the same, gives the type itself and adds nothing. -/
theorem returns_typeText_of_lower {document : Document} {lowered : Lowered}
    (h : document.lower = .ok lowered)
    (names : ∀ name ∈ document.leaves ++ document.models.keys,
      TypeExpr.sentence name = [.name name])
    {types : TypeTable} {ids : List TypeId} (built : lowered.Builds types ids) {id : TypeId}
    (mem : id ∈ ids)
    (shallow : nesting 0 (TypeExpr.sentence ((lowered.withTypes types).typeText id))
      < Limits.expressionDepth) :
    ∃ expr, TypeExpr.parse ((lowered.withTypes types).typeText id) = .ok expr
      ∧ ∀ ensureModel location, Returns (lowered.withTypes types) lowered.models
        (typeOfText ensureModel lowered.leaves location ((lowered.withTypes types).typeText id))
        id := by
  obtain ⟨grown, stored⟩ := built.stored (complete_of_lower h).1.closed.wellFormed.types
  obtain ⟨expr, depth, reads⟩ := (lexicon_of_lower h names grown).exists_readsBack (stored id mem)
  have parses : TypeExpr.parse ((lowered.withTypes types).typeText id) = .ok expr :=
    reads.type.parse_eq shallow
  refine ⟨expr, parses, fun ensureModel location => ?_⟩
  unfold typeOfText
  rw [parses]
  exact reads.returns ensureModel _ rfl

/-- A model of chapters. -/
def book : Document :=
  { Document.empty with
    leaves := ["Money"]
    models := [("Chapter", .object [("price", .string "Money"), ("next?", .string "Chapter")])] }

/-- Lists of chapters and of notes with a parenthesis and a line end in them, where either may be
`null`. -/
def notes (types : TypeTable) : TypeId × TypeTable :=
  let chapter := Interning.reference ⟨1⟩ types
  let note := Interning.literal (.string "see (\n") chapter.2
  let either := Interning.union [TypeId.null, note.1, chapter.1] note.2
  Interning.array either.1 either.2

theorem returns_typeText_of_lower_book : ∃ lowered, book.lower = .ok lowered
    ∧ (lowered.withTypes (notes lowered.catalog.types).2).typeText (notes lowered.catalog.types).1
      = "(Chapter | \"see (\\n\" | null)[]"
    ∧ ∃ after, Gives
      (typeOfText (fun _ => pure ()) lowered.leaves Location.root
        "(Chapter | \"see (\\n\" | null)[]")
      ⟨lowered.withTypes (notes lowered.catalog.types).2, lowered.models, Guard.forWalk .aliases⟩
      (notes lowered.catalog.types).1 after := by
  have facts : (match book.lower with
      | .ok lowered => decide (lowered.models.lookup "Chapter" = some ⟨1⟩)
        && decide ((lowered.withTypes (notes lowered.catalog.types).2).typeText
          (notes lowered.catalog.types).1 = "(Chapter | \"see (\\n\" | null)[]")
      | .error _ => false) = true := by decide +kernel
  cases h : book.lower with
  | error error =>
    rw [h] at facts
    cases facts
  | ok lowered =>
    rw [h, Bool.and_eq_true, decide_eq_true_iff, decide_eq_true_iff] at facts
    obtain ⟨known, text⟩ := facts
    have every : ("see (\n".toList.all fun c => decide (Quoted.IsReadable c)) = true := by
      decide +kernel
    have readable : ∀ c ∈ "see (\n".toList, Quoted.IsReadable c :=
      fun c mem => of_decide_eq_true (List.all_eq_true.1 every c mem)
    obtain ⟨ids, built, mem⟩ : ∃ ids, lowered.Builds (notes lowered.catalog.types).2 ids
        ∧ (notes lowered.catalog.types).1 ∈ ids := by
      have members := ((Lowered.Builds.start.reference known).string readable).intrinsic .null
      exact ⟨_, (members.union fun _ mem => mem).array List.mem_cons_self, List.mem_cons_self⟩
    refine ⟨lowered, rfl, ?_⟩
    generalize notes lowered.catalog.types = made at text built mem ⊢
    obtain ⟨expr, _, returns⟩ := returns_typeText_of_lower h (by decide +kernel) built mem (by
      rw [text]
      decide +kernel)
    obtain ⟨after, gives, _⟩ := returns (fun _ => pure ()) Location.root
      ⟨lowered.withTypes made.2, lowered.models, Guard.forWalk .aliases⟩ ⟨rfl, rfl, rfl⟩
    rw [text] at gives
    exact ⟨text, after, gives⟩

end Document

end ModelForms
