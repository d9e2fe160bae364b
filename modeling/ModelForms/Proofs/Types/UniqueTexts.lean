import ModelForms.Proofs.Types.Handles
import ModelForms.Proofs.Types.Spelling

/-!
# Texts of types are unambiguous

A type is known by its text (`Catalog.typeText_injective`), where names are words of their own and
every reference has a name.

A text is read from the left.  What a type starts with shows its kind, and each kind of text shows
where it ends: a word and a number by the character after them, a quoted text by its quote, an
object and a union in parentheses by what closes them (`TypeTerm.CoreReadable`).  The brackets that
follow count the arrays around that, and a bar or something that closes comes after the brackets, so
the whole text is read back (`TypeTerm.Readable`).  The induction is on the structure of the type.
-/

namespace ModelForms

namespace TypeTerm

/-! ## Reading a text back -/

/-- What stands before brackets is known by its text, whatever follows. -/
def CoreReadable (words : Vocabulary) (t : TypeTerm) : Prop :=
  ∀ u rest rest', Legible words u → (∀ element, u ≠ .array element) → Follows rest →
    Follows rest' → t.coreChars words.nameOf ++ rest = u.coreChars words.nameOf ++ rest' →
    t = u ∧ rest = rest'

/-- A type is known by its text, whatever closes it. -/
def Readable (words : Vocabulary) (t : TypeTerm) : Prop :=
  ∀ u rest rest', Legible words u → Closes rest → Closes rest' →
    t.chars words.nameOf ++ rest = u.chars words.nameOf ++ rest' → t = u ∧ rest = rest'

section

variable {words : Vocabulary} {t u : TypeTerm}

theorem Follows.not_of_any {rest : List Char} (follows : Follows rest) {p : Char → Bool}
    (none : [')', ';', ' ', '['].any p = false) : ∀ c ∈ rest.head?, p c = false :=
  fun c mem => Bool.eq_false_iff.2 (List.any_eq_false.1 none c (follows c mem))

/-- A word is itself. -/
theorem Legible.word_or_kind (legible : Legible words t) (single : ∀ element, t ≠ .array element) :
    (∃ word, t.word? words.nameOf = some word ∧ t.coreChars words.nameOf = word.toList)
      ∨ t.kind ≠ .word := by
  cases legible with
  | intrinsic k => exact .inl ⟨_, rfl, rfl⟩
  | boolean b => exact .inl ⟨_, rfl, by cases b <;> rfl⟩
  | leaf => exact .inl ⟨_, rfl, rfl⟩
  | reference named =>
    refine .inl ⟨_, named, ?_⟩
    show referenceChars _ _ = _
    rw [referenceChars, named]
  | array => exact absurd rfl (single _)
  | string | number | object | union => exact .inr (by simp [kind])

/-- The first character shows the kind. -/
theorem Legible.starts (legible : Legible words t) (single : ∀ element, t ≠ .array element) :
    ∃ c more, t.coreChars words.nameOf = c :: more ∧ Kind.ofChar c = t.kind := by
  have word (is : t.kind = .word) :
      ∃ c more, t.coreChars words.nameOf = c :: more ∧ Kind.ofChar c = t.kind := by
    obtain ⟨word, known, same⟩ := (legible.word_or_kind single).resolve_right fun h => h is
    obtain ⟨c, more, chars, starts, _⟩ := CharClass.exists_of_isName (legible.isName_of_word known)
    exact ⟨c, more, same.trans chars, (ofChar_of_startsName starts).trans is.symm⟩
  cases legible with
  | intrinsic | boolean | leaf | reference => exact word rfl
  | array => exact absurd rfl (single _)
  | string value => exact ⟨'"', _, rfl, rfl⟩
  | number known =>
    obtain ⟨c, more, same, kind, _⟩ := plainText_eq (words.finite _ known)
    exact ⟨c, more, same, kind⟩
  | @object properties types =>
    cases properties with
    | nil => exact ⟨'\x7b', _, rfl, rfl⟩
    | cons p rest => exact ⟨'\x7b', _, rfl, rfl⟩
  | union => exact ⟨'(', _, rfl, rfl⟩

theorem Legible.kind_eq (legible : Legible words t) (legible' : Legible words u)
    (single : ∀ element, t ≠ .array element) (single' : ∀ element, u ≠ .array element)
    {rest rest' : List Char}
    (same : t.coreChars words.nameOf ++ rest = u.coreChars words.nameOf ++ rest') :
    t.kind = u.kind := by
  obtain ⟨c, more, is, kind⟩ := legible.starts single
  obtain ⟨c', more', is', kind'⟩ := legible'.starts single'
  rw [is, is'] at same
  rw [← kind, ← kind', (List.cons.inj same).1]

theorem Legible.coreReadable_of_word (legible : Legible words t) (is : t.kind = .word)
    (single : ∀ element, t ≠ .array element) : CoreReadable words t := by
  intro u rest rest' legible' single' follows follows' same
  have is' : u.kind = .word := (legible.kind_eq legible' single single' same).symm.trans is
  obtain ⟨word, known, chars⟩ := (legible.word_or_kind single).resolve_right fun h => h is
  obtain ⟨word', known', chars'⟩ := (legible'.word_or_kind single').resolve_right fun h => h is'
  obtain ⟨_, _, same', _, continues⟩ := CharClass.exists_of_isName (legible.isName_of_word known)
  obtain ⟨_, _, same'', _, continues'⟩ :=
    CharClass.exists_of_isName (legible'.isName_of_word known')
  rw [chars, chars'] at same
  obtain ⟨fronts, rests⟩ := Text.eq_of_append_eq (same' ▸ continues) (same'' ▸ continues')
    (follows.not_of_any (by decide +kernel)) (follows'.not_of_any (by decide +kernel)) same
  cases String.toList_inj.1 fronts
  exact ⟨legible.eq_of_word?_eq legible' known known', rests⟩

theorem coreReadable_number {value : Double} (known : words.numbers value) :
    CoreReadable words (.literal (.number value)) := by
  intro u rest rest' legible' single' follows follows' same
  have kind := Legible.kind_eq (.number known) legible' (by simp) single' same
  cases legible' with
  | @number value' known' =>
    obtain ⟨_, _, _, _, numeric⟩ := plainText_eq (words.finite _ known)
    obtain ⟨_, _, _, _, numeric'⟩ := plainText_eq (words.finite _ known')
    obtain ⟨fronts, rests⟩ := Text.eq_of_append_eq numeric numeric'
      (follows.not_of_any (by decide +kernel)) (follows'.not_of_any (by decide +kernel)) same
    exact ⟨by rw [words.plainText _ _ known known' (String.toList_inj.1 fronts)], rests⟩
  | _ => cases kind

theorem coreReadable_string (value : String) :
    CoreReadable words (.literal (.string value)) := by
  intro u rest rest' legible' single' _ _ same
  have kind := Legible.kind_eq (.string value) legible' (by simp) single' same
  cases legible' with
  | string value' =>
    obtain ⟨values, rests⟩ := Quoted.eq_of_encode_append_eq same
    exact ⟨by rw [String.toList_inj.1 values], rests⟩
  | _ => cases kind

/-- The parentheses close a union. -/
theorem Readable.coreReadable_union {members : List TypeTerm}
    (legible : Legible words (.union members)) (readable : Readable words (.union members)) :
    CoreReadable words (.union members) := by
  intro u rest rest' legible' single' _ _ same
  have kind := legible.kind_eq legible' (by simp) single' same
  cases u with
  | union members' =>
    simp only [coreChars, isUnion, if_true, List.cons_append, List.append_assoc,
      List.cons.injEq, true_and] at same
    obtain ⟨unions, rests⟩ := readable _ _ _ legible' (.parenthesis _) (.parenthesis _) same
    exact ⟨unions, (List.cons.inj rests).2⟩
  | literal value => cases value <;> cases kind
  | _ => cases kind

/-! ## Objects -/

/-- The name of a property is known by how it is written before a mark or a colon. -/
theorem eq_of_nameChars_append_eq {name name' : String} {rest rest' : List Char}
    (mark : ∀ c ∈ rest.head?, c ∈ ['?', ':']) (mark' : ∀ c ∈ rest'.head?, c ∈ ['?', ':'])
    (same : nameChars name ++ rest = nameChars name' ++ rest') : name = name' ∧ rest = rest' := by
  have quoted {name name' : String} {rest rest' : List Char} (is : CharClass.isName name = true) :
      name.toList ++ rest ≠ Quoted.encode name'.toList ++ rest' := by
    obtain ⟨c, more, chars, starts, _⟩ := CharClass.exists_of_isName is
    rw [chars]
    intro same
    rw [(List.cons.inj same).1] at starts
    exact absurd starts (by decide)
  have other {rest : List Char} (mark : ∀ c ∈ rest.head?, c ∈ ['?', ':']) :
      ∀ c ∈ rest.head?, CharClass.continuesName c = false := by
    have none : ['?', ':'].any CharClass.continuesName = false := by decide +kernel
    exact fun c mem => Bool.eq_false_iff.2 (List.any_eq_false.1 none c (mark c mem))
  unfold nameChars at same
  cases is : CharClass.isName name <;> cases is' : CharClass.isName name' <;>
    simp only [is, is', if_true, if_false, Bool.false_eq_true] at same
  · obtain ⟨names, rests⟩ := Quoted.eq_of_encode_append_eq same
    exact ⟨String.toList_inj.1 names, rests⟩
  · exact absurd same.symm (quoted is')
  · exact absurd same (quoted is)
  · obtain ⟨_, _, chars, _, continues⟩ := CharClass.exists_of_isName is
    obtain ⟨_, _, chars', _, continues'⟩ := CharClass.exists_of_isName is'
    obtain ⟨names, rests⟩ := Text.eq_of_append_eq (chars ▸ continues) (chars' ▸ continues')
      (other mark) (other mark') same
    exact ⟨String.toList_inj.1 names, rests⟩

theorem eq_of_labelChars_append_eq {label label' : String × Bool} {rest rest' : List Char}
    (same : labelChars label ++ rest = labelChars label' ++ rest') :
    label = label' ∧ rest = rest' := by
  obtain ⟨name, optional⟩ := label
  obtain ⟨name', optional'⟩ := label'
  simp only [labelChars, List.append_assoc] at same
  obtain ⟨rfl, marks⟩ := eq_of_nameChars_append_eq (by cases optional <;> simp)
    (by cases optional' <;> simp) same
  cases optional <;> cases optional' <;> simp_all

/-- A brace closes an object. -/
theorem coreReadable_object {properties : List ((String × Bool) × TypeTerm)}
    (legible : Legible words (.object properties))
    (readable : ∀ p ∈ properties, Readable words p.2) :
    CoreReadable words (.object properties) := by
  intro u rest rest' legible' single' _ _ same
  have kind := legible.kind_eq legible' (by simp) single' same
  cases legible' with
  | @object properties' types' =>
    have written (properties : List ((String × Bool) × TypeTerm)) (rest : List Char) :
        (TypeTerm.object properties).coreChars words.nameOf ++ rest = '\x7b' ::
          (if properties.isEmpty then '\x7d' :: rest else ' ' :: (separated [';', ' ']
            (properties.map fun p => labelChars p.1 ++ p.2.chars words.nameOf)
              ++ ' ' :: '\x7d' :: rest)) := by
      rw [coreChars, chars_object]
      cases properties <;> simp [isUnion]
    rw [written, written, List.cons.injEq] at same
    have same := same.2
    cases none : properties.isEmpty <;> cases none' : properties'.isEmpty <;>
      simp only [none, none', if_true, if_false, Bool.false_eq_true, List.cons.injEq] at same
    · have both := eq_of_separated_append_eq Closes
        (fun p mem q mem' more more' closes closes' same => ?_) (fun more => .semicolon _)
        (.brace rest) (.brace rest') (by simp) (by simp) (by simpa using none)
        (by simpa using none') same.2
      · exact ⟨by rw [both.1], by simpa using both.2⟩
      · rw [List.append_assoc, List.append_assoc] at same
        obtain ⟨labels, same⟩ := eq_of_labelChars_append_eq same
        obtain ⟨types, rests⟩ := readable p mem q.2 _ _ (types' q mem') closes closes' same
        exact ⟨Prod.ext labels types, rests⟩
    · exact absurd same.1 (by decide)
    · exact absurd same.1 (by decide)
    · rw [List.isEmpty_iff.1 none, List.isEmpty_iff.1 none']
      exact ⟨rfl, same.2⟩
  | _ => cases kind

/-! ## Whole texts -/

/-- A type that is no union is known by its text also among the members of a union. -/
theorem CoreReadable.eq_of_breaks (readable : CoreReadable words t.core)
    (single : t.isUnion = false) (legible' : Legible words u) (single' : u.isUnion = false)
    {rest rest' : List Char} (breaks : Breaks rest) (breaks' : Breaks rest')
    (same : t.chars words.nameOf ++ rest = u.chars words.nameOf ++ rest') :
    t = u ∧ rest = rest' := by
  rw [chars_eq _ single, chars_eq _ single', List.append_assoc, List.append_assoc] at same
  obtain ⟨cores, same⟩ := readable u.core _ _ legible'.core (core_ne_array u)
    (follows_brackets_append breaks) (follows_brackets_append breaks') same
  obtain ⟨ranks, rests⟩ := eq_of_brackets_append_eq breaks breaks' same
  exact ⟨by rw [← inArrays_core single, ← inArrays_core single', cores, ranks], rests⟩

/-- A type is known by its text if its alternatives are. -/
theorem Legible.readable_of_alternatives (legible : Legible words t)
    (readable : ∀ m ∈ t.alternatives, CoreReadable words m.core) : Readable words t := by
  intro u rest rest' legible' closes closes' same
  have some {t : TypeTerm} (legible : Legible words t) : t.alternatives ≠ [] := by
    cases single : t.isUnion with
    | false => rw [alternatives_of_single single]; exact List.cons_ne_nil _ _
    | true =>
      have several := legible.two_le_length single
      exact List.ne_nil_of_length_pos (by omega)
  have last {rest : List Char} (closes : Closes rest) (more : List Char) :
      rest ≠ [' ', '|', ' '] ++ more := by
    rintro rfl
    cases closes
  rw [chars_eq_separated, chars_eq_separated _ u] at same
  obtain ⟨alternatives, rests⟩ := eq_of_separated_append_eq Breaks
    (fun m mem m' mem' more more' breaks breaks' same =>
      (readable m mem).eq_of_breaks (legible.alternative mem).2 (legible'.alternative mem').1
        (legible'.alternative mem').2 breaks breaks' same)
    (fun more => .bar _) (.closes closes) (.closes closes') (last closes) (last closes')
    (some legible) (some legible') same
  exact ⟨legible.eq_of_alternatives_eq legible' alternatives, rests⟩

/-- A type is known by its text, and so is what stands before its brackets. -/
theorem Legible.readable (legible : Legible words t) :
    CoreReadable words t.core ∧ Readable words t := by
  have whole {t : TypeTerm} (legible : Legible words t) (single : t.isUnion = false)
      (core : CoreReadable words t.core) : CoreReadable words t.core ∧ Readable words t := by
    refine ⟨core, legible.readable_of_alternatives fun m mem => ?_⟩
    rw [alternatives_of_single single] at mem
    exact List.mem_singleton.1 mem ▸ core
  induction legible with
  | intrinsic k =>
    exact whole (.intrinsic k) rfl
      (Legible.coreReadable_of_word (.intrinsic k) rfl (core_ne_array _))
  | boolean b =>
    exact whole (.boolean b) rfl (Legible.coreReadable_of_word (.boolean b) rfl (core_ne_array _))
  | string value => exact whole (.string value) rfl (coreReadable_string value)
  | number known => exact whole (.number known) rfl (coreReadable_number known)
  | leaf known =>
    exact whole (.leaf known) rfl (Legible.coreReadable_of_word (.leaf known) rfl (core_ne_array _))
  | reference named =>
    exact whole (.reference named) rfl
      (Legible.coreReadable_of_word (.reference named) rfl (core_ne_array _))
  | object types ih =>
    exact whole (.object types) rfl
      (coreReadable_object (.object types) fun p mem => (ih p mem).2)
  | @array element type ih =>
    refine whole (.array type) rfl ?_
    have same : (TypeTerm.array element).core = element.core := by
      cases element <;> rfl
    exact same ▸ ih.1
  | @union members several flat ordered types ih =>
    have legible := Legible.union several flat ordered types
    have readable := legible.readable_of_alternatives fun m mem =>
      (ih m (mem_of_mem_nullishBack mem)).1
    exact ⟨readable.coreReadable_union legible, readable⟩

/-- Two types of one text are the same. -/
theorem Legible.eq_of_chars_eq (legible : Legible words t) (legible' : Legible words u)
    (same : t.chars words.nameOf = u.chars words.nameOf) : t = u :=
  (legible.readable.2 u [] [] legible' .nothing .nothing
    (by rw [List.append_nil, List.append_nil, same])).1

end

end TypeTerm

/-! ## Catalogs -/

/-- Where ids ascend, `null` and `undefined` come before all that is not intrinsic. -/
theorem TypeId.nullish_first {ids : List TypeId} (ascending : ids.Pairwise (·.index < ·.index))
    (proper : ∀ id ∈ ids, id ≠ never ∧ id ≠ unknown) :
    ids.filter (fun id => decide (id = null)) ++ ids.filter (fun id => decide (id = undefined))
      ++ ids.filter (fun id => !decide (id = null) && !decide (id = undefined)) = ids := by
  induction ids with
  | nil => rfl
  | cons id rest ih =>
    obtain ⟨below, ascending⟩ := List.pairwise_cons.1 ascending
    obtain ⟨first, proper⟩ := List.forall_mem_cons.1 proper
    have ih := ih ascending proper
    have index {id : TypeId} {n : Nat} : id = ⟨n⟩ ↔ id.index = n := by
      cases id
      simp
    have none {n : Nat} (small : n ≤ id.index) :
        rest.filter (fun id => decide (id = ⟨n⟩)) = [] := by
      rw [List.filter_eq_nil_iff]
      intro other mem
      have := below other mem
      simp only [index, decide_eq_true_eq]
      omega
    have noNull (small : 2 ≤ id.index) : rest.filter (fun id => decide (id = null)) = [] :=
      none small
    have noUndefined (small : 3 ≤ id.index) :
        rest.filter (fun id => decide (id = undefined)) = [] := none small
    by_cases isNull : id = null
    · rw [noNull (by rw [isNull]; decide), List.nil_append] at ih
      rw [isNull] at noNull ⊢
      simp [noNull (by decide), ih, show null ≠ undefined by decide]
    · by_cases isUndefined : id = undefined
      · rw [noNull (by rw [isUndefined]; decide), noUndefined (by rw [isUndefined]; decide),
          List.nil_append, List.nil_append] at ih
        rw [isUndefined] at noNull noUndefined ⊢
        simp [noNull (by decide), noUndefined (by decide), ih, show undefined ≠ null by decide]
      · have large : 3 ≤ id.index := by
          have notNever := mt index.2 first.1
          have notUnknown := mt index.2 first.2
          have notNull := mt index.2 isNull
          have zero : Intrinsic.never.index = 0 := rfl
          have one : Intrinsic.unknown.index = 1 := rfl
          have two : Intrinsic.null.index = 2 := rfl
          omega
        rw [noNull (by omega), noUndefined large, List.nil_append, List.nil_append] at ih
        simp [noNull (by omega), noUndefined large, ih, isNull, isUndefined]

namespace TypeTable

variable {table : TypeTable} {id : TypeId} {members : List TypeId}

/-- A term is intrinsic if its type is. -/
theorem WellFormed.isIntrinsic_term (wf : table.WellFormed) (known : table.Knows id)
    (k : Intrinsic) : (table.term id).isIntrinsic k = decide (id = TypeId.ofIntrinsic k) := by
  obtain ⟨entry, found⟩ := Option.isSome_iff_exists.1 known
  rw [wf.term_of_lookup found, Bool.eq_iff_iff, decide_eq_true_iff]
  constructor
  · intro is
    cases entry with
    | intrinsic l =>
      have is : l = k := by simpa [entryTerm, TypeTerm.isIntrinsic] using is
      exact is ▸ wf.eq_ofIntrinsic found
    | _ => cases is
  · rintro rfl
    cases (lookup_ofIntrinsic _ k).symm.trans found
    simp [entryTerm, TypeTerm.isIntrinsic]

theorem WellFormed.isUnion_term (wf : table.WellFormed) (known : table.Knows id)
    (flat : table.unionMembers? id = none) : (table.term id).isUnion = false := by
  obtain ⟨entry, found⟩ := Option.isSome_iff_exists.1 known
  rw [wf.term_of_lookup found]
  cases entry with
  | union members => cases flat.symm.trans (unionMembers?_eq_some_iff.2 found)
  | _ => rfl

/-- Terms are picked out of a list as their types are. -/
theorem filter_map_term {p : TypeTerm → Bool} {q : TypeId → Bool}
    (same : ∀ m ∈ members, p (table.term m) = q m) :
    (members.map table.term).filter p = (members.filter q).map table.term := by
  rw [List.filter_map]
  exact congrArg _ (List.filter_congr same)

section

variable (wf : table.WellFormed) (known : ∀ m ∈ members, table.Knows m)

include wf known

theorem WellFormed.filter_isIntrinsic_map_term (k : Intrinsic) :
    (members.map table.term).filter (TypeTerm.isIntrinsic k)
      = (members.filter fun m => decide (m = TypeId.ofIntrinsic k)).map table.term :=
  filter_map_term fun m mem => wf.isIntrinsic_term (known m mem) k

theorem WellFormed.filter_proper_map_term :
    (members.map table.term).filter (fun m => !m.isIntrinsic .null && !m.isIntrinsic .undefined)
      = (members.filter fun m => !decide (m = TypeId.null) && !decide (m = TypeId.undefined)).map
        table.term :=
  filter_map_term fun m mem => by
    rw [wf.isIntrinsic_term (known m mem), wf.isIntrinsic_term (known m mem)]

end

end TypeTable

namespace Catalog

variable {catalog : Catalog} {id other : TypeId}

/-- The names of a catalog are words of their own, every reference has one, and the number literals
are finite. -/
structure IsNamed (catalog : Catalog) : Prop where
  models : catalog.models.names.Nodup
  modelWords : ∀ name ∈ catalog.models.names, IsWord name
  leafWords : ∀ name, .leaf name ∈ catalog.types.entries → IsWord name
  apart : ∀ name, .leaf name ∈ catalog.types.entries → name ∉ catalog.models.names
  references : ∀ definition, .reference definition ∈ catalog.types.entries →
    ∃ name, catalog.models.name? definition = some name
  finite : ∀ x, TypeEntry.literal (.number x) ∈ catalog.types.entries →
    x.isNaN = false ∧ x.isInfinite = false

/-- The number literals of a catalog are known by their texts. -/
def TellsNumbers (catalog : Catalog) : Prop :=
  ∀ x y, TypeEntry.literal (.number x) ∈ catalog.types.entries →
    TypeEntry.literal (.number y) ∈ catalog.types.entries → x.plainText = y.plainText → x = y

/-- What the texts of a catalog are made of. -/
def IsNamed.vocabulary (named : catalog.IsNamed) (numbers : catalog.TellsNumbers) :
    TypeTerm.Vocabulary where
  nameOf := catalog.models.name?
  leaves name := .leaf name ∈ catalog.types.entries
  numbers x := TypeEntry.literal (.number x) ∈ catalog.types.entries
  leafWords := named.leafWords
  modelWords _ name is := named.modelWords name (Definitions.mem_names_of_name? is)
  apart _ name is leaf := named.apart name leaf (Definitions.mem_names_of_name? is)
  distinct _ _ _ is is' := Definitions.eq_of_name?_eq named.models is is'
  finite := named.finite
  plainText := numbers

/-- Every known type of a catalog is made of its vocabulary. -/
theorem IsNamed.legible (named : catalog.IsNamed) (numbers : catalog.TellsNumbers)
    (wf : catalog.types.WellFormed) (known : catalog.types.Knows id) :
    (catalog.types.term id).Legible (named.vocabulary numbers) := by
  generalize bound : id.index = n
  induction n using Nat.strongRecOn generalizing id with
  | ind n ih =>
    subst bound
    obtain ⟨entry, found⟩ := Option.isSome_iff_exists.1 known
    have part {part : TypeId} (mem : part ∈ entry.parts) :=
      ih part.index (wf.part_lt found mem).2 (wf.knows_part found mem) rfl
    rw [wf.term_of_lookup found]
    cases entry with
    | intrinsic k => exact .intrinsic k
    | literal value =>
      have mem := TypeTable.mem_entries_of_lookup found (by simp)
      cases value with
      | string value => exact .string value
      | number x => exact .number mem
      | boolean b => exact .boolean b
    | leaf name => exact .leaf (TypeTable.mem_entries_of_lookup found (by simp))
    | reference definition =>
      obtain ⟨name, is⟩ := named.references definition
        (TypeTable.mem_entries_of_lookup found (by simp))
      exact .reference is
    | array element => exact .array (part (List.mem_singleton_self element))
    | object properties =>
      refine .object (List.forall_mem_map.2 fun p mem => ?_)
      exact part (List.mem_map_of_mem mem)
    | union members =>
      have normal := wf.normalUnion (TypeTable.unionMembers?_eq_some_iff.2 found)
      refine .union (by simpa using normal.several) (List.forall_mem_map.2 fun m mem => ?_) ?_
        (List.forall_mem_map.2 fun m mem => part mem)
      · exact wf.isUnion_term (normal.known m mem) (normal.flat m mem)
      · show members.map catalog.types.term = _
        rw [TypeTerm.nullishFirst, wf.filter_isIntrinsic_map_term normal.known,
          wf.filter_isIntrinsic_map_term normal.known, wf.filter_proper_map_term normal.known,
          ← List.map_append, ← List.map_append,
          TypeId.nullish_first normal.ascending normal.proper]

/-- Two types of one text are the same. -/
theorem typeText_injective (wf : catalog.types.WellFormed) (named : catalog.IsNamed)
    (numbers : catalog.TellsNumbers) (known : catalog.types.Knows id)
    (known' : catalog.types.Knows other) (same : catalog.typeText id = catalog.typeText other) :
    id = other := by
  have chars := String.ofList_injective same
  exact wf.term_injective known known'
    ((named.legible numbers wf known).eq_of_chars_eq (named.legible numbers wf known') chars)

/-- A model of chapters, each with a price, a list of chapters that may be missing, and a number. -/
def chapters : Catalog where
  types :=
    { entries :=
        [.leaf "Money", .reference ⟨1⟩, .array ⟨101⟩, .union [TypeId.null, ⟨102⟩],
          .literal (.number (.ofRatio false 314 100)), .literal (.number (.ofInt (-2))),
          .union [⟨104⟩, ⟨105⟩],
          .object [⟨"price", ⟨100⟩, false⟩, ⟨"sub chapters", ⟨103⟩, true⟩, ⟨"no", ⟨106⟩, false⟩],
          .array ⟨103⟩, .union [TypeId.null, ⟨108⟩]]
      names := .builtin }
  models := ⟨[⟨"Chapter", some ⟨107⟩⟩]⟩

theorem typeText_injective_chapters :
    chapters.types.WellFormed ∧ chapters.IsNamed ∧ chapters.TellsNumbers
      ∧ chapters.typeText ⟨103⟩ = "Chapter[] | null"
      ∧ chapters.typeText ⟨109⟩ = "(Chapter[] | null)[] | null"
      ∧ chapters.typeText ⟨103⟩ ≠ chapters.typeText ⟨109⟩ := by
  have wf : chapters.types.WellFormed := by decide +kernel
  have word {name : String} (isName : CharClass.isName name = true)
      (free : Intrinsic.ofName? name = none) (apart : name ≠ "true" ∧ name ≠ "false") :
      IsWord name := ⟨⟨free, apart.1, apart.2⟩, isName⟩
  have leaves {name : String} (mem : .leaf name ∈ chapters.types.entries) : name = "Money" := by
    simpa [chapters] using mem
  have numbers {x : Double} (mem : TypeEntry.literal (.number x) ∈ chapters.types.entries) :
      x = .ofRatio false 314 100 ∨ x = .ofInt (-2) := by
    simpa [chapters] using mem
  have named : chapters.IsNamed := by
    refine ⟨by decide, ?_, fun name mem => ?_, fun name mem => ?_, fun definition mem => ?_,
      fun x mem => ?_⟩
    · exact List.forall_mem_singleton.2 (word (by decide) (by decide) (by decide))
    · exact leaves mem ▸ word (by decide) (by decide) (by decide)
    · exact leaves mem ▸ by decide
    · obtain rfl : definition = ⟨1⟩ := by simpa [chapters] using mem
      exact ⟨"Chapter", rfl⟩
    · obtain rfl | rfl := numbers mem <;> decide +kernel
  have tells : chapters.TellsNumbers := by
    intro x y mem mem' same
    obtain rfl | rfl := numbers mem <;> obtain rfl | rfl := numbers mem'
    · rfl
    · exact absurd same (by decide +kernel)
    · exact absurd same (by decide +kernel)
    · rfl
  refine ⟨wf, named, tells, by decide +kernel, by decide +kernel, fun same => ?_⟩
  exact absurd (typeText_injective wf named tells (by decide +kernel) (by decide +kernel) same)
    (by decide)

end Catalog

end ModelForms
