import ModelForms.Proofs.Document.Imitation
import ModelForms.Proofs.Expr.Embedding
import ModelForms.Proofs.Types.UnionLaws

/-!
# Directives and type expressions

An entry of a document that is an object with a directive says what a type expression can say too.
Where texts stand inside a directive, the expression has them between parentheses or angle brackets
(`Spelled`), and the two agree: in every place and from every sound state they lower to the same
type and add the same types, or neither lowers (`agree_of_spelled`).  So a document may have either
of them in each place, and lowers to the same types (`directives_agree`).

The parser gives the expression a tree that is made of the trees of the texts.  The types of that
tree are then made the way the directive makes them, but for a union of one text, which is not a
union but the text itself.  There the directive makes a union of one type, and that is the type.
-/

namespace ModelForms

open Lowering TypeExpr

/-- Texts, the entry with a directive in which they stand, and the text of an expression that says
the same. -/
inductive Spelled : List String → Json → String → Prop
  | brackets (text : String) :
      Spelled [text] (.object [("$array", .string text)]) ("(" ++ text ++ ")[]")
  | generic (text : String) :
      Spelled [text] (.object [("$array", .string text)]) ("Array<" ++ text ++ ">")
  | nullable (text : String) :
      Spelled [text] (.object [("$nullable", .string text)]) ("(" ++ text ++ ") | null")
  | union (texts : List String) (some : texts ≠ []) :
      Spelled texts (.object [("$union", .array (texts.map .string))]) (barred texts)

/-- An entry with a directive, and a text that says the same as an expression no deeper than the
parser allows. -/
def Interchangeable (entry other : Json) : Prop :=
  ∃ texts text, Spelled texts entry text ∧ (∀ inner ∈ texts, ∃ expr, HasRoom inner expr)
    ∧ other = .string text

namespace Lowering

variable {α β : Type} {leaves : Entries TypeId} {ensureModel : String → Lowering Unit}

/-- From sound states both computations give the same result and the same state, or both fail. -/
def Agree (leaves : Entries TypeId) (first second : Lowering α) : Prop :=
  ∀ ⦃before⦄, before.Sound leaves → ∀ result after,
    Gives first before result after ↔ Gives second before result after

namespace Agree

variable {first second : Lowering α}

theorem of_imitates (h : Imitates leaves first second) (h' : Imitates leaves second first) :
    Agree leaves first second :=
  fun _ sound _ _ => ⟨fun gives => h sound gives, fun gives => h' sound gives⟩

theorem imitates (h : Agree leaves first second) : Imitates leaves first second :=
  fun _ _ _ sound gives => (h sound _ _).1 gives

theorem imitates_symm (h : Agree leaves first second) : Imitates leaves second first :=
  fun _ _ _ sound gives => (h sound _ _).2 gives

theorem bind {next next' : α → Lowering β} (h : Agree leaves first second)
    (keeps : KeepsSound leaves first) (rest : ∀ a, Agree leaves (next a) (next' a)) :
    Agree leaves (first >>= next) (second >>= next') := by
  refine of_imitates (h.imitates.bind keeps fun a => (rest a).imitates)
    (h.imitates_symm.bind (fun _ _ _ sound gives => ?_) fun a => (rest a).imitates_symm)
  exact keeps sound ((h sound _ _).2 gives)

theorem refl (leaves : Entries TypeId) (action : Lowering α) : Agree leaves action action :=
  fun _ _ _ _ => Iff.rfl

theorem trans {third : Lowering α} (h : Agree leaves first second)
    (h' : Agree leaves second third) : Agree leaves first third :=
  fun _ sound result after => (h sound result after).trans (h' sound result after)

end Agree

theorem keepsSound_typeOfExpr (careful : Careful ensureModel leaves) (text : String)
    (location : Location) (expr : TypeExpr) :
    KeepsSound leaves (typeOfExpr ensureModel ⟨text, location, leaves⟩ expr) :=
  fun _ _ _ sound gives =>
    (@makes_of_typeOfExpr _ ⟨text, location, leaves⟩ careful expr _ _ _ sound gives).sound

theorem keepsSound_typesOfItems (careful : Careful ensureModel leaves) (location : Location)
    (index : Nat) (items : List Json) :
    KeepsSound leaves (typesOfItems ensureModel leaves location index items) :=
  fun _ _ _ sound gives => (precedes_of_typesOfItems careful items sound gives).1.sound

/-! ## The texts inside -/

/-- The type of an expression is the same wherever it stands. -/
theorem agree_typeOfExpr (careful : Careful ensureModel leaves) (text text' : String)
    (location location' : Location) (expr : TypeExpr) :
    Agree leaves (typeOfExpr ensureModel ⟨text, location, leaves⟩ expr)
      (typeOfExpr ensureModel ⟨text', location', leaves⟩ expr) :=
  .of_imitates
    (@imitates_typeOfExpr _ _ ⟨text, location, leaves⟩ ⟨text', location', leaves⟩ rfl
      (fun _ => .refl leaves _) careful expr)
    (@imitates_typeOfExpr _ _ ⟨text', location', leaves⟩ ⟨text, location, leaves⟩ rfl
      (fun _ => .refl leaves _) careful expr)

theorem typeOfValue_text {location : Location} {text : String} {expr : TypeExpr}
    (parses : TypeExpr.parse text = .ok expr) :
    typeOfValue ensureModel leaves location (.string text)
      = typeOfExpr ensureModel ⟨text, location, leaves⟩ expr := by
  rw [typeOfValue, typeOfText, parses]

/-- A text inside a directive and its tree inside the tree of the expression, with what is made of
the type. -/
theorem agree_wrapped (careful : Careful ensureModel leaves) {text whole : String} {expr : TypeExpr}
    (room : HasRoom text expr) (location location' : Location) (next : TypeId → Lowering TypeId) :
    Agree leaves (typeOfValue ensureModel leaves location (.string text) >>= next)
      (typeOfExpr ensureModel ⟨whole, location', leaves⟩ expr >>= next) := by
  rw [typeOfValue_text room.parse_eq]
  exact (agree_typeOfExpr careful _ _ _ _ expr).bind
    (keepsSound_typeOfExpr careful _ _ expr) fun _ => .refl leaves _

theorem agree_typesOfItems (careful : Careful ensureModel leaves) {texts : List String}
    {exprs : List TypeExpr} (rooms : List.Forall₂ HasRoom texts exprs) (location : Location)
    (site : ExprSite) (here : site.leaves = leaves) (index : Nat) :
    Agree leaves (typesOfItems ensureModel leaves location index (texts.map .string))
      (typesOfExprs ensureModel site exprs) := by
  subst here
  induction rooms generalizing index with
  | nil =>
    rw [List.map_nil, typesOfItems, typesOfExprs]
    exact .refl site.leaves _
  | cons room _ ih =>
    rw [List.map_cons, typesOfItems, typesOfExprs, typeOfValue_text room.parse_eq]
    refine (agree_typeOfExpr careful _ _ _ _ _).bind
      (keepsSound_typeOfExpr careful _ _ _) fun id => ?_
    exact (ih _).bind (keepsSound_typesOfItems careful _ _ _) fun _ => .refl site.leaves _

/-- A union of one type is that type. -/
theorem agree_union_singleton {first : Lowering TypeId} (keeps : KeepsSound leaves first) :
    Agree leaves (first >>= fun id => interning (Interning.union [id])) first := by
  intro before sound id after
  constructor
  · intro gives
    obtain ⟨made, middle, makes, unites⟩ := gives_bind_iff.1 gives
    have wf := (keeps sound makes).closed.wellFormed.types
    rw [gives_interning_iff, wf.union_singleton] at unites
    obtain ⟨rfl, rfl⟩ := unites
    exact makes
  · intro gives
    refine gives_bind_iff.2 ⟨id, after, gives, gives_interning_iff.2 ?_⟩
    rw [(keeps sound gives).closed.wellFormed.types.union_singleton]
    exact ⟨rfl, rfl⟩

/-! ## Entries -/

theorem forall₂_hasRoom {texts : List String} (rooms : ∀ text ∈ texts, ∃ expr, HasRoom text expr) :
    ∃ exprs, List.Forall₂ HasRoom texts exprs := by
  induction texts with
  | nil => exact ⟨[], .nil⟩
  | cons text rest ih =>
    obtain ⟨⟨expr, room⟩, rooms⟩ := List.forall_mem_cons.1 rooms
    obtain ⟨exprs, all⟩ := ih rooms
    exact ⟨expr :: exprs, .cons room all⟩

/-- An entry with a directive and the text that says the same lower to the same type. -/
theorem agree_of_spelled (careful : Careful ensureModel leaves) {texts : List String} {entry : Json}
    {text : String} (spelled : Spelled texts entry text)
    (rooms : ∀ inner ∈ texts, ∃ expr, HasRoom inner expr) (location : Location) :
    Agree leaves (typeOfValue ensureModel leaves location entry)
      (typeOfValue ensureModel leaves location (.string text)) := by
  cases spelled with
  | brackets inner =>
    obtain ⟨expr, room⟩ := rooms inner (List.mem_singleton_self inner)
    rw [typeOfValue_array, typeOfValue_text room.parse_brackets, typeOfExpr]
    exact agree_wrapped careful room _ _ _
  | generic inner =>
    obtain ⟨expr, room⟩ := rooms inner (List.mem_singleton_self inner)
    rw [typeOfValue_array, typeOfValue_text room.parse_generic, typeOfExpr]
    exact agree_wrapped careful room _ _ _
  | nullable inner =>
    obtain ⟨expr, room⟩ := rooms inner (List.mem_singleton_self inner)
    rw [typeOfValue_nullable, typeOfValue_text room.parse_nullable]
    simp only [typeOfExpr, typesOfExprs, bind_assoc, pure_bind]
    exact agree_wrapped careful room _ _ _
  | union texts some =>
    obtain ⟨exprs, rooms⟩ := forall₂_hasRoom rooms
    rw [typeOfValue_union, typeOfValue_text (parse_barred rooms some)]
    have items := agree_typesOfItems careful rooms (location.child "$union")
      ⟨barred texts, location, leaves⟩ rfl 0
    have united := items.bind (keepsSound_typesOfItems careful _ _ _)
      fun ids => .refl leaves (interning (Interning.union ids))
    cases rooms with
    | nil => exact absurd rfl some
    | @cons text expr _ _ _ more =>
      cases more with
      | nil =>
        rw [typesOfExprs, typesOfExprs] at united
        simp only [bind_assoc, pure_bind] at united
        exact united.trans (agree_union_singleton (keepsSound_typeOfExpr careful _ _ expr))
      | cons => exact united

/-! ## Where they lower -/

section

variable {first : Lowering α} {before : LoweringState}

/-- What follows and does not fail has no part in whether something lowers. -/
theorem exists_gives_bind_iff {next : α → Lowering β}
    (succeeds : ∀ a middle, ∃ result after, Gives (next a) middle result after) :
    (∃ result after, Gives (first >>= next) before result after)
      ↔ ∃ a after, Gives first before a after := by
  constructor
  · rintro ⟨_, _, gives⟩
    obtain ⟨a, middle, gives, _⟩ := gives_bind_iff.1 gives
    exact ⟨a, middle, gives⟩
  · rintro ⟨a, middle, gives⟩
    obtain ⟨result, after, more⟩ := succeeds a middle
    exact ⟨result, after, gives_bind_iff.2 ⟨a, middle, gives, more⟩⟩

theorem exists_gives_interning_iff {make : α → Interning β} :
    (∃ result after, Gives (first >>= fun a => interning (make a)) before result after)
      ↔ ∃ a after, Gives first before a after :=
  exists_gives_bind_iff fun _ _ => ⟨_, _, gives_interning_iff.2 ⟨rfl, rfl⟩⟩

theorem Agree.exists_gives_iff {second : Lowering α} (h : Agree leaves first second)
    (sound : before.Sound leaves) :
    (∃ result after, Gives first before result after)
      ↔ ∃ result after, Gives second before result after :=
  exists_congr fun result => exists_congr fun after => h sound result after

end

/-- An entry with a directive lowers where the texts in it lower one after another. -/
theorem exists_gives_iff_of_spelled (careful : Careful ensureModel leaves) {texts : List String}
    {entry : Json} {text : String} (spelled : Spelled texts entry text)
    (rooms : ∀ inner ∈ texts, ∃ expr, HasRoom inner expr) (location : Location)
    {before : LoweringState} (sound : before.Sound leaves) :
    (∃ id after, Gives (typeOfValue ensureModel leaves location entry) before id after)
      ↔ ∃ ids after, Gives (typesOfItems ensureModel leaves location 0 (texts.map .string))
        before ids after := by
  obtain ⟨exprs, rooms⟩ := forall₂_hasRoom rooms
  let site : ExprSite := ⟨text, location, leaves⟩
  have items (location : Location) :=
    (agree_typesOfItems careful rooms location site rfl 0).exists_gives_iff sound
  rw [items]
  have single {inner : String} {exprs : List TypeExpr} (rooms : List.Forall₂ HasRoom [inner] exprs)
      (location : Location) :
      (∃ id after, Gives (typeOfValue ensureModel leaves location (.string inner)) before id after)
        ↔ ∃ ids after, Gives (typesOfExprs ensureModel site exprs) before ids after := by
    cases rooms with
    | @cons _ expr _ _ room none =>
      cases none
      rw [typeOfValue_text room.parse_eq, typesOfExprs, typesOfExprs,
        (agree_typeOfExpr careful _ _ _ _ expr).exists_gives_iff sound]
      simp only [pure_bind]
      exact (exists_gives_bind_iff fun _ _ => ⟨_, _, gives_pure_iff.2 ⟨rfl, rfl⟩⟩).symm
  cases spelled with
  | brackets inner | generic inner =>
    rw [typeOfValue_array, exists_gives_interning_iff, single rooms]
  | nullable inner => rw [typeOfValue_nullable, exists_gives_interning_iff, single rooms]
  | union => rw [typeOfValue_union, exists_gives_interning_iff, items]

end Lowering

/-! ## Documents -/

theorem Interchangeable.suits : Suits Interchangeable := by
  refine suits_of_imitates ?_ ?_
  · rintro _ _ ⟨_, _, spelled, _⟩ items is
    cases spelled <;> cases is
  · rintro _ _ ⟨_, _, spelled, rooms, rfl⟩ leaves ensureModel location careful
    exact (agree_of_spelled careful spelled rooms location).imitates

theorem Interchangeable.suits_flip : Suits fun other entry => Interchangeable entry other := by
  refine suits_of_imitates ?_ ?_
  · rintro _ _ ⟨_, _, _, _, rfl⟩ _ ⟨⟩
  · rintro _ _ ⟨_, _, spelled, rooms, rfl⟩ leaves ensureModel location careful
    exact (agree_of_spelled careful spelled rooms location).imitates_symm

/-- In every place and from every sound state, an entry with a directive lowers where the texts in
it do, and the text of the expression that says the same lowers with it: to the same id, with the
same types in the table.  So a document may have either of them in each place. -/
theorem directives_agree :
    (∀ texts entry text, Spelled texts entry text →
      (∀ inner ∈ texts, ∃ expr, HasRoom inner expr) →
      ∀ leaves ensureModel location before, Careful ensureModel leaves → before.Sound leaves →
        ((∃ id after, Gives (typeOfValue ensureModel leaves location entry) before id after)
          ↔ ∃ ids after, Gives (typesOfItems ensureModel leaves location 0 (texts.map .string))
            before ids after)
        ∧ ∀ id after, Gives (typeOfValue ensureModel leaves location entry) before id after
          ↔ Gives (typeOfValue ensureModel leaves location (.string text)) before id after)
    ∧ ∀ document other, Document.Rewritten Interchangeable document other →
      ∀ lowered, document.lower = .ok lowered ↔ other.lower = .ok lowered := by
  constructor
  · intro texts entry text spelled rooms leaves ensureModel location before careful sound
    exact ⟨exists_gives_iff_of_spelled careful spelled rooms location sound,
      agree_of_spelled careful spelled rooms location sound⟩
  · intro document other rewritten lowered
    exact ⟨Document.lower_of_rewritten Interchangeable.suits rewritten,
      Document.lower_of_rewritten Interchangeable.suits_flip rewritten.symm⟩

/-- Models of entries with directives. -/
def drafts : Document :=
  { Document.empty with
    models := [("Tags", .object [("$array", .string "number | string")]),
      ("Title", .object [("$nullable", .string "string")]),
      ("Either", .object [("$union", .array [.string "Tags", .string "Title"])])] }

/-- The same models as expressions. -/
def draftTexts : Document :=
  { Document.empty with
    models := [("Tags", .string "Array<number | string>"), ("Title", .string "(string) | null"),
      ("Either", .string "(Tags) | (Title)")] }

theorem directives_agree_drafts :
    Document.Rewritten Interchangeable drafts draftTexts
      ∧ ∃ lowered, drafts.lower = .ok lowered ∧ draftTexts.lower = .ok lowered := by
  have number : HasRoom "number | string" (.union [.keyword .number, .keyword .string]) :=
    .intro (.more (.intro (.one (.primary (.keyword rfl))))
      (.one (.intro (.one (.primary (.keyword rfl))))))
  have string : HasRoom "string" (.keyword .string) :=
    .intro (.one (.intro (.one (.primary (.keyword rfl)))))
  have tags : HasRoom "Tags" (.reference "Tags" []) :=
    .intro (.one (.intro (.one (.primary (.bare ⟨by decide, by decide, by decide⟩)))))
  have title : HasRoom "Title" (.reference "Title" []) :=
    .intro (.one (.intro (.one (.primary (.bare ⟨by decide, by decide, by decide⟩)))))
  have rewritten : Document.Rewritten Interchangeable drafts draftTexts := by
    refine ⟨rfl, .cons _ (.here ?_) (.cons _ (.here ?_) (.cons _ (.here ?_) .nil)), rfl, rfl, rfl⟩
    · exact ⟨_, _, .generic "number | string", by simpa using ⟨_, number⟩, rfl⟩
    · exact ⟨_, _, .nullable "string", by simpa using ⟨_, string⟩, rfl⟩
    · exact ⟨_, _, .union ["Tags", "Title"] (by simp), by simpa using ⟨⟨_, tags⟩, _, title⟩, rfl⟩
  have lowers : drafts.lower.toOption.isSome = true := by decide +kernel
  cases h : drafts.lower with
  | error error =>
    rw [h] at lowers
    cases lowers
  | ok lowered => exact ⟨rewritten, lowered, rfl, (directives_agree.2 _ _ rewritten lowered).1 h⟩

end ModelForms
