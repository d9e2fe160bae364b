import ModelForms.Proofs.Tree.Additions
import ModelForms.Proofs.Tree.Collapsing
import ModelForms.Proofs.Tree.ModeIndependence

/-!
# Derivations that share a table

Two derivations over one table do not disturb each other.  Whichever of them comes first, each has
the same error as in the other order, or a form of the same structure, and no id that was handed out
changes its entry (`DerivedForm.sameOutcome_of_derive`).

The ids do depend on the order, since each derivation interns the unions that it needs.  What does
not is the structure that an id stands for.  A union that is new has only members which were known
before, so its normal form is the same list of ids in either order.  `TreeNode.term` writes a tree
with terms in the place of ids, and the term of each control is a function of the table that both
derivations started from (`Catalog.ControlTypeOf.term_eq`).

A root that was not handed out is the exception.  It is refused in any order, but the text of the
error writes it as the table knows it by then, and a union that the other derivation interned may
have that id (`DerivedForm.not_forall_map_term_eq`).
-/

namespace ModelForms

/-! ## Unions in two tables -/

namespace TypeTable

/-- The term of the union of flattened operands. -/
def unionTerm (table : TypeTable) (flat : List TypeId) : TypeTerm :=
  match normalize flat with
  | .single only => table.term only
  | .several ms => .union (ms.map table.term)

/-- A union of operands that come to known types has the term that they have in the earlier
table. -/
theorem UnionOf.term_eq {earlier later : TypeTable} (grows : earlier.GrowsTo later)
    (wf : earlier.WellFormed) (wf' : later.WellFormed) {operands : List TypeId} {id : TypeId}
    (known : ∀ m ∈ later.flatten operands, earlier.Knows m) (h : later.UnionOf operands id) :
    later.term id = earlier.unionTerm (later.flatten operands) := by
  unfold unionTerm
  rcases unionOf_iff.1 h with single | ⟨ms, several, stored⟩
  · rw [single]
    refine grows.term_eq wf ?_
    rcases of_normalize_eq_single single with rfl | rfl | mem
    · exact knows_intrinsic earlier .unknown
    · exact knows_intrinsic earlier .never
    · exact known id mem
  · obtain ⟨_, _, kept⟩ := of_normalize_eq_several several
    rw [several, wf'.term_union stored]
    exact congrArg TypeTerm.union
      (List.map_congr_left fun m hm => grows.term_eq wf (known m (kept m hm).1))

end TypeTable

namespace Catalog

variable {earlier later : Catalog} {declared stripped value : TypeId}

/-- The flattened operands of the union of `null` and what is left of a type. -/
def nullableOperands (catalog : Catalog) (declared : TypeId) : List TypeId :=
  match catalog.strip declared with
  | .single only => catalog.types.flatten [only, TypeId.null]
  | .several ms => ms ++ [TypeId.null]

/-- The term of the type of a control's value. -/
def controlTerm (catalog : Catalog) (declared : TypeId) (nullable : Bool) : TypeTerm :=
  if nullable then catalog.types.unionTerm (catalog.nullableOperands declared)
  else catalog.strippedTerm declared

/-- What is left of a type comes to the same operands in every later table.  Where a union of
several is left, its id may be new, but its members are not. -/
theorem StrippedTo.flatten_eq (grows : earlier.GrowsTo later) (wf : earlier.WellFormed)
    (known : earlier.types.Knows declared) (h : later.StrippedTo declared stripped) :
    later.types.flatten [stripped, TypeId.null] = earlier.nullableOperands declared
      ∧ ∀ m ∈ earlier.nullableOperands declared, earlier.types.Knows m := by
  have single {only : TypeId} (knownOnly : earlier.types.Knows only) :
      later.types.flatten [only, TypeId.null] = earlier.types.flatten [only, TypeId.null]
        ∧ ∀ m ∈ earlier.types.flatten [only, TypeId.null], earlier.types.Knows m := by
    have both : ∀ m ∈ [only, TypeId.null], earlier.types.Knows m := by
      simpa using ⟨knownOnly, TypeTable.knows_intrinsic earlier.types .null⟩
    exact ⟨grows.types.flatten_eq both, fun m hm => (wf.types.of_mem_flatten both hm).1⟩
  unfold StrippedTo at h
  unfold nullableOperands
  rw [grows.strip_eq wf known] at h
  cases wf.stripCase declared with
  | whole strips kept =>
    rw [strips] at h ⊢
    cases h
    exact single known
  | only m strips kept =>
    rw [strips] at h ⊢
    cases h
    exact single (wf.knows_kept known (by simp [kept]))
  | several ms strips kept normal =>
    rw [strips] at h ⊢
    have union := TypeTable.unionMembers?_eq_some_iff.2
      ((normal.growsTo grows.types).unionOf_iff.1 h)
    have flat : later.types.unionMembers? TypeId.null = none := rfl
    refine ⟨by simp [TypeTable.flatten, union, flat], fun m hm => ?_⟩
    rcases List.mem_append.1 hm with hm | hm
    · exact normal.known m hm
    · cases List.mem_singleton.1 hm
      exact TypeTable.knows_intrinsic earlier.types .null

/-- The type of a control's value has the same term in all later tables. -/
theorem ControlTypeOf.term_eq (grows : earlier.GrowsTo later) (wf : earlier.WellFormed)
    (wf' : later.WellFormed) (known : earlier.types.Knows declared) {nullable : Bool}
    (h : later.ControlTypeOf declared nullable value) :
    later.types.term value = earlier.controlTerm declared nullable := by
  obtain ⟨stripped, strips, typed⟩ := h
  cases nullable with
  | false =>
    cases typed
    exact strips.term_eq grows wf wf' known
  | true =>
    have unionOf : later.types.UnionOf [stripped, TypeId.null] value := typed
    obtain ⟨flat, knownFlat⟩ := strips.flatten_eq grows wf known
    rw [← flat] at knownFlat
    rw [unionOf.term_eq grows.types wf.types wf'.types knownFlat, flat]
    rfl

end Catalog

/-! ## Trees by structure -/

/-- A form tree with the structure of its controls' types in the place of their ids. -/
inductive TreeTerm where
  | control (value : TypeTerm)
  | group (members : List (String × (Bool × TreeTerm)))
  | array (element : TreeTerm)
deriving Repr

/-- A derived form with a tree of this kind. -/
structure FormTerm where
  root : TreeTerm
  mode : Mode
  model : TypeId
deriving Repr

namespace TreeNode

mutual

/-- The tree with the structures of its types. -/
def term (types : TypeTable) : TreeNode → TreeTerm
  | .control value => .control (types.term value)
  | .group members => .group (termMembers types members)
  | .array element => .array (term types element)
termination_by structural node => node

/-- The members of a group with the structures of their types. -/
def termMembers (types : TypeTable) :
    List (String × (Bool × TreeNode)) → List (String × (Bool × TreeTerm))
  | [] => []
  | (name, (optional, node)) :: rest => (name, (optional, term types node)) :: termMembers types rest
termination_by structural members => members

end

theorem termMembers_eq_map (types : TypeTable) (members : List (String × (Bool × TreeNode))) :
    termMembers types members = members.map fun m => (m.1, (m.2.1, m.2.2.term types)) := by
  induction members with
  | nil => rfl
  | cons first rest ih =>
    obtain ⟨name, optional, node⟩ := first
    rw [termMembers, ih, List.map_cons]

theorem termMembers_collect (types : TypeTable) (members : List (String × (Bool × TreeNode))) :
    termMembers types (Entries.collect members) = Entries.collect (termMembers types members) := by
  rw [termMembers_eq_map, termMembers_eq_map]
  exact (Entries.collect_map (fun _ (m : Bool × TreeNode) => (m.1, m.2.term types)) members).symm

end TreeNode

/-- The form with the structures of its types. -/
def DerivedForm.term (types : TypeTable) (tree : DerivedForm) : FormTerm :=
  ⟨tree.root.term types, tree.mode, tree.model⟩

namespace Expansion

open Catalog

variable {expansion : Expansion}

/-- Where a control is planned, the node is one whose value has the term of the table at the
base. -/
theorem Expands.term_of_control {base types after later : TypeTable} {declared : TypeId} {hint : Hint}
    {nullable : Bool} {node : TreeNode} {named : Nat} (wf : (expansion.upon base).WellFormed)
    (grown : Over expansion.models base types) (known : base.Knows declared)
    (planned : NodePlan.ofClass? ((expansion.upon base).shape declared) hint.kind? = some .control)
    (further : Over expansion.models after later)
    (expands : expansion.Expands types declared hint nullable node named after) :
    node.term later = .control ((expansion.upon base).controlTerm declared nullable) := by
  have toLater := (grown.trans (expands.grown grown known)).trans further
  have isControl := expands.of_control wf grown known planned further
  have settled := expands.settles grown.wellFormed (grown.grows.knows known)
  have yields := settled.holds (expansion.upon later) further.catalog
  rw [isControl] at yields ⊢
  cases yields with
  | control _ typed =>
    exact congrArg TreeTerm.control (typed.term_eq toLater.catalog wf toLater.wellFormed known)

mutual

/-- In two tables that have grown from one, a declared type expands to trees of one structure. -/
theorem Expands.term_eq {base types types' after after' left right : TypeTable} {declared : TypeId}
    {hint : Hint} {nullable : Bool} {node node' : TreeNode} {named named' : Nat}
    (wf : (expansion.upon base).WellFormed) (grown : Over expansion.models base types)
    (grown' : Over expansion.models base types') (known : base.Knows declared)
    (further : Over expansion.models after left) (further' : Over expansion.models after' right) :
    expansion.Expands types declared hint nullable node named after →
      expansion.Expands types' declared hint nullable node' named' after' →
      node.term left = node'.term right
  | .control strips plan typed => fun h => by
    have planned := plan
    rw [(over_of_strips wf grown known strips).2] at planned
    exact ((Expands.control strips plan typed).term_of_control wf grown known planned further).trans
      (h.term_of_control wf grown' known planned further').symm
  | .group strips plan _ below => fun h => by
    obtain ⟨grownMiddle, class_eq⟩ := over_of_strips wf grown known strips
    rw [class_eq] at plan
    obtain ⟨_, _, _, grownMiddle', below', rfl⟩ := h.of_group wf grown' known plan
    have object := NodePlan.eq_object_of_ofClass? plan
    have same := ExpandsMembers.term_eq wf grownMiddle grownMiddle'
      (fun p hp => wf.knows_property object hp) further further' below below'
    refine congrArg TreeTerm.group ?_
    rw [TreeNode.termMembers_collect, TreeNode.termMembers_collect, same]
  | .array strips plan below => fun h => by
    obtain ⟨grownMiddle, class_eq⟩ := over_of_strips wf grown known strips
    rw [class_eq] at plan
    obtain ⟨_, _, grownMiddle', below', rfl⟩ := h.of_array wf grown' known plan
    have knownElement := wf.knows_element (NodePlan.eq_array_of_ofClass? plan)
    rw [← grownMiddle.catalog.decided_eq wf knownElement] at below'
    exact congrArg TreeTerm.array
      (Expands.term_eq wf grownMiddle grownMiddle' knownElement further further' below below')

/-- The members before and after a member have grown the tables, and its types are not affected. -/
theorem ExpandsMembers.term_eq {base types types' after after' left right : TypeTable} {hint : Hint}
    {properties : List Property} {members members' : List (String × (Bool × TreeNode))}
    {named named' : Nat} (wf : (expansion.upon base).WellFormed)
    (grown : Over expansion.models base types) (grown' : Over expansion.models base types')
    (known : ∀ p ∈ properties, base.Knows p.type) (further : Over expansion.models after left)
    (further' : Over expansion.models after' right) :
    expansion.ExpandsMembers types hint properties members named after →
      expansion.ExpandsMembers types' hint properties members' named' after' →
      TreeNode.termMembers left members = TreeNode.termMembers right members'
  | .nil => fun h => by
    cases h
    rfl
  | .cons decides head tail => fun h => by
    cases h with
    | cons decides' head' tail' =>
      obtain ⟨knownFirst, knownRest⟩ := List.forall_mem_cons.1 known
      rw [grown.catalog.decided_eq wf knownFirst] at decides
      rw [grown'.catalog.decided_eq wf knownFirst, decides] at decides'
      cases decides'
      have grownNext := grown.trans (head.grown grown knownFirst)
      have grownNext' := grown'.trans (head'.grown grown' knownFirst)
      have toLeft := (tail.grown grownNext knownRest).trans further
      have toRight := (tail'.grown grownNext' knownRest).trans further'
      have first := Expands.term_eq wf grown grown' knownFirst toLeft toRight head head'
      have others :=
        ExpandsMembers.term_eq wf grownNext grownNext' knownRest further further' tail tail'
      rw [TreeNode.termMembers, TreeNode.termMembers, first, others]

end

end Expansion

/-! ## Two derivations -/

namespace DerivationError

/-- The error without the text of a type. -/
def withoutType : DerivationError → DerivationError
  | .rootNotObject _ => .rootNotObject ""
  | .hintMismatch path hint _ => .hintMismatch path hint ""
  | error => error

end DerivationError

namespace DerivedForm

open Catalog Expansion

variable {models : Definitions} {types : TypeTable} {mode : Mode} {hint : Hint} {model : TypeId}

/-- In two tables that have grown from one, a known root has forms of one structure, or it has none
for the same reason. -/
theorem map_term_eq (wf : Catalog.WellFormed ⟨types, models⟩) (known : types.Knows model)
    {start start' after after' left right : TypeTable}
    {outcome outcome' : Except DerivationError DerivedForm} (grown : Over models types start)
    (grown' : Over models types start') (first : derive models mode hint model start = (outcome, after))
    (second : derive models mode hint model start' = (outcome', after'))
    (further : Over models after left) (further' : Over models after' right) :
    outcome.map (term left) = outcome'.map (term right) := by
  have alike := (@map_skeleton_eq_of_over _ _ _ hint _ wf grown known mode mode).trans
    (@map_skeleton_eq_of_over _ _ _ hint _ wf grown' known mode mode).symm
  rw [first, second] at alike
  cases outcome with
  | error error =>
    cases outcome' with
    | ok tree => cases alike
    | error error' =>
      cases alike
      rfl
  | ok tree =>
    cases outcome' with
    | error error => cases alike
    | ok tree' =>
      obtain ⟨mode_eq, model_eq, _, expands, _⟩ := expands_of_derive first
      obtain ⟨mode_eq', model_eq', _, expands', _⟩ := expands_of_derive second
      have same := expands.term_eq wf grown grown' known further further' expands'
      show Except.ok (FormTerm.mk _ tree.mode tree.model)
        = Except.ok (FormTerm.mk _ tree'.mode tree'.model)
      rw [same, mode_eq, mode_eq', model_eq, model_eq']

/-- An id that was not handed out is `unknown` in a table that has more unions, or it is a union. -/
theorem classify_of_not_knows {other : TypeTable} (adds : types.AddsUnions other)
    (unknown : ¬ types.Knows model) :
    classify ⟨other, models⟩ model = .primitive .unknown
      ∨ ∃ members, classify ⟨other, models⟩ model = .union members := by
  cases found : other.lookup model with
  | none =>
    have proper : (⟨other, models⟩ : Catalog).types.referenced? model = none := by
      simp [TypeTable.referenced?, found]
    left
    rw [classify, resolve_of_referenced?_eq_none proper]
    exact congrArg classOfEntry found
  | some entry =>
    rcases adds.lookup found with before | ⟨members, rfl⟩
    · exact absurd (TypeTable.knows_of_lookup before) unknown
    · exact Or.inr ⟨members,
        classify_of_unionMembers? (TypeTable.unionMembers?_eq_some_iff.2 found)⟩

/-- Why a root that was not handed out is refused, without the text of its type. -/
def strayRefusal (hint : Hint) : DerivationError :=
  match hint.kind? with
  | some .control => .hintMismatch .root .control ""
  | some .array => .hintMismatch .root .array ""
  | _ => .rootNotObject ""

/-- A root that was not handed out is refused in every table that has more unions, for the same kind
of reason. -/
theorem checkRoot_of_not_knows {other : TypeTable} (adds : types.AddsUnions other)
    (unknown : ¬ types.Knows model) :
    ∃ error, checkRoot ⟨other, models⟩ hint model = .error error
      ∧ error.withoutType = strayRefusal hint := by
  unfold checkRoot strayRefusal
  rcases @classify_of_not_knows models types model other adds unknown with same | ⟨_, same⟩
  all_goals
    rw [same]
    cases hint.kind? with
    | none => exact ⟨_, rfl, rfl⟩
    | some kind => cases kind <;> exact ⟨_, rfl, rfl⟩

/-- A derivation over such a root leaves the table as it was. -/
theorem derive_of_not_knows {other : TypeTable} (adds : types.AddsUnions other)
    (unknown : ¬ types.Knows model) :
    ∃ error, derive models mode hint model other = (.error error, other)
      ∧ error.withoutType = strayRefusal hint := by
  obtain ⟨error, refused, reason⟩ := @checkRoot_of_not_knows models types hint model other adds unknown
  exact ⟨error, derive_of_refused refused, reason⟩

/-- Outcomes of a derivation that ended up in two tables, made of one base, are the same: the same
error, or forms of one structure.  Of a root that the base did not hand out, the errors may differ
in the text of a type. -/
inductive SameOutcome (base : TypeTable) (model : TypeId) (left right : TypeTable) :
    Except DerivationError DerivedForm → Except DerivationError DerivedForm → Prop
  | form {tree tree' : DerivedForm} (same : tree.term left = tree'.term right) :
      SameOutcome base model left right (.ok tree) (.ok tree')
  | error (error : DerivationError) : SameOutcome base model left right (.error error) (.error error)
  | stray {error error' : DerivationError} (unknown : ¬ base.Knows model)
      (same : error.withoutType = error'.withoutType) :
      SameOutcome base model left right (.error error) (.error error')

theorem sameOutcome_of_map_term_eq {left right : TypeTable}
    {outcome outcome' : Except DerivationError DerivedForm}
    (same : outcome.map (term left) = outcome'.map (term right)) :
    SameOutcome types model left right outcome outcome' := by
  cases outcome with
  | error error =>
    cases outcome' with
    | error error' =>
      cases same
      exact .error error
    | ok tree => cases same
  | ok tree =>
    cases outcome' with
    | error error => cases same
    | ok tree' => exact .form (Except.ok.inj same)

/-- A derivation leaves a well-formed table that has grown, from whatever root it starts. -/
theorem over_of_derive (wf : Catalog.WellFormed ⟨types, models⟩)
    {outcome : Except DerivationError DerivedForm} {after : TypeTable}
    (derives : derive models mode hint model types = (outcome, after)) : Over models types after := by
  by_cases known : types.Knows model
  · have grown := @over_derive models types hint model wf known mode
    rw [derives] at grown
    exact grown
  · obtain ⟨error, refused, _⟩ := derive_of_not_knows (.refl types) known
    cases derives.symm.trans refused
    exact ⟨wf, .refl types⟩

theorem addsUnions_of_derive {outcome : Except DerivationError DerivedForm} {after : TypeTable}
    (derives : derive models mode hint model types = (outcome, after)) : types.AddsUnions after := by
  have adds := addsUnions_derive models mode hint model types
  rw [derives] at adds
  exact adds

/-- A derivation has the same outcome before another derivation and after it.  Of the other one it
is used that it has added nothing but unions, and that the table is well-formed as it left it. -/
theorem sameOutcome_of_order (wf : Catalog.WellFormed ⟨types, models⟩)
    {early late : Except DerivationError DerivedForm} {middle other left right : TypeTable}
    (first : derive models mode hint model types = (early, middle)) (further : Over models middle left)
    (adds : types.AddsUnions other) (wf' : Catalog.WellFormed ⟨other, models⟩)
    (second : derive models mode hint model other = (late, right)) :
    SameOutcome types model left right early late := by
  by_cases known : types.Knows model
  · have toRight := over_of_derive wf' second
    exact sameOutcome_of_map_term_eq (map_term_eq wf known ⟨wf, .refl types⟩ ⟨wf', adds.growsTo⟩
      first second further ⟨toRight.wellFormed, .refl right⟩)
  · obtain ⟨error, refused, same⟩ := derive_of_not_knows (.refl types) known
    obtain ⟨error', refused', same'⟩ := derive_of_not_knows adds known
    cases first.symm.trans refused
    cases second.symm.trans refused'
    exact .stray known (same.trans same'.symm)

/-- Two derivations over a well-formed table have the same outcomes in either order, and what an id
is that was handed out does not change in either of them. -/
theorem sameOutcome_of_derive (wf : Catalog.WellFormed ⟨types, models⟩) {mode' : Mode} {hint' : Hint}
    {model' : TypeId} {early late early' late' : Except DerivationError DerivedForm}
    {middle middle' after after' : TypeTable}
    (first : derive models mode hint model types = (early, middle))
    (second : derive models mode' hint' model' middle = (late', after))
    (first' : derive models mode' hint' model' types = (early', middle'))
    (second' : derive models mode hint model middle' = (late, after')) :
    SameOutcome types model after after' early late
      ∧ SameOutcome types model' after' after early' late'
      ∧ (∀ id entry, types.lookup id = some entry →
        after.lookup id = some entry ∧ after'.lookup id = some entry)
      ∧ (∀ id entry, middle.lookup id = some entry → after.lookup id = some entry)
      ∧ ∀ id entry, middle'.lookup id = some entry → after'.lookup id = some entry := by
  have toMiddle := over_of_derive wf first
  have toMiddle' := over_of_derive wf first'
  have toAfter := over_of_derive toMiddle.wellFormed second
  have toAfter' := over_of_derive toMiddle'.wellFormed second'
  have adds := addsUnions_of_derive first
  have adds' := addsUnions_of_derive first'
  refine ⟨sameOutcome_of_order wf first toAfter adds' toMiddle'.wellFormed second',
    sameOutcome_of_order wf first' toAfter' adds toMiddle.wellFormed second, fun id entry found => ?_,
    fun id entry => toAfter.grows.lookup, fun id entry => toAfter'.grows.lookup⟩
  exact ⟨toAfter.grows.lookup (toMiddle.grows.lookup found),
    toAfter'.grows.lookup (toMiddle'.grows.lookup found)⟩

/-- Two objects, one of a text and one of a number. -/
def pairTypes : TypeTable where
  entries := [.object [⟨"a", .ofIntrinsic .string, false⟩],
    .object [⟨"b", .ofIntrinsic .number, false⟩]]
  names := .builtin

/-- The table with more unions of two members. -/
def pairTypesWith (unions : List (TypeId × TypeId)) : TypeTable where
  entries := pairTypes.entries ++ unions.map fun (first, second) => .union [first, second]
  names := .builtin

/-- A form of one control, the value of which may be `null`. -/
def ofPair (name : String) (value model : TypeId) : DerivedForm where
  root := .group [(name, (false, .control value))]
  mode := ⟨.always, .never⟩
  model := model

/-- The id of the type of a control depends on the order, and its term does not. -/
theorem sameOutcome_of_derive_pair :
    SameOutcome pairTypes ⟨100⟩
        (pairTypesWith [(TypeId.null, .ofIntrinsic .string), (TypeId.null, .ofIntrinsic .number)])
        (pairTypesWith [(TypeId.null, .ofIntrinsic .number), (TypeId.null, .ofIntrinsic .string)])
        (.ok (ofPair "a" ⟨102⟩ ⟨100⟩)) (.ok (ofPair "a" ⟨103⟩ ⟨100⟩))
      ∧ SameOutcome pairTypes ⟨101⟩
        (pairTypesWith [(TypeId.null, .ofIntrinsic .number), (TypeId.null, .ofIntrinsic .string)])
        (pairTypesWith [(TypeId.null, .ofIntrinsic .string), (TypeId.null, .ofIntrinsic .number)])
        (.ok (ofPair "b" ⟨102⟩ ⟨101⟩)) (.ok (ofPair "b" ⟨103⟩ ⟨101⟩)) := by
  have first : derive ⟨[]⟩ ⟨.always, .never⟩ .unspecified ⟨100⟩ pairTypes
      = (.ok (ofPair "a" ⟨102⟩ ⟨100⟩), pairTypesWith [(TypeId.null, .ofIntrinsic .string)]) := rfl
  have first' : derive ⟨[]⟩ ⟨.always, .never⟩ .unspecified ⟨101⟩ pairTypes
      = (.ok (ofPair "b" ⟨102⟩ ⟨101⟩), pairTypesWith [(TypeId.null, .ofIntrinsic .number)]) := rfl
  have wf : Catalog.WellFormed ⟨pairTypes, ⟨[]⟩⟩ := by decide
  have outcomes := sameOutcome_of_derive wf first rfl first' rfl
  exact ⟨outcomes.1, outcomes.2.1⟩

/-- A root that was not handed out is refused in either order, with texts that may differ: the id
may be that of a union by then. -/
theorem not_forall_map_term_eq :
    ¬ ∀ (models : Definitions) (types middle middle' after after' : TypeTable) (mode mode' : Mode)
      (hint hint' : Hint) (model model' : TypeId)
      (early late early' late' : Except DerivationError DerivedForm),
      Catalog.WellFormed ⟨types, models⟩ →
      derive models mode hint model types = (early, middle) →
      derive models mode' hint' model' middle = (late', after) →
      derive models mode' hint' model' types = (early', middle') →
      derive models mode hint model middle' = (late, after') →
      early.map (term after) = late.map (term after') := by
  intro always
  have wf : Catalog.WellFormed ⟨pairTypes, ⟨[]⟩⟩ := by decide
  have first : derive ⟨[]⟩ ⟨.always, .never⟩ .unspecified ⟨102⟩ pairTypes
      = (.error (.rootNotObject "Type(102)"), pairTypes) := rfl
  have first' : derive ⟨[]⟩ ⟨.always, .never⟩ .unspecified ⟨100⟩ pairTypes
      = (.ok (ofPair "a" ⟨102⟩ ⟨100⟩), pairTypesWith [(TypeId.null, .ofIntrinsic .string)]) := rfl
  have second' : derive ⟨[]⟩ ⟨.always, .never⟩ .unspecified ⟨102⟩
      (pairTypesWith [(TypeId.null, .ofIntrinsic .string)])
      = (.error (.rootNotObject "string | null"),
        pairTypesWith [(TypeId.null, .ofIntrinsic .string)]) := rfl
  have same := always _ _ _ _ _ _ _ _ _ _ _ _ _ _ _ _ wf first first' first' second'
  have texts := DerivationError.rootNotObject.inj (Except.error.inj same)
  exact absurd texts (by decide)

end DerivedForm

end ModelForms
