import ModelForms.Proofs.Expr.Grammar
import ModelForms.Proofs.Text.Codes
import ModelForms.Proofs.Types.Terms

/-!
# How types are spelled

The text of a type is a list of alternatives between bars, and each alternative is what stands
before the brackets of arrays, followed by the brackets.  What stands there starts with a character
that shows whether it is a word, a number, a quoted text, an object or a union in parentheses.

A type is `Legible` in a vocabulary if its names are words of the vocabulary, its numbers are finite
and its unions are in the order of their ids.  The members of a union are written in another order,
from which theirs can be told (`eq_of_nullishBack_eq`).
-/

namespace ModelForms

/-- A name that is no reserved word. -/
structure IsWord (name : String) : Prop extends Grammar.IsFree name where
  isName : CharClass.isName name = true

namespace TypeTerm

/-! ## Texts of the parts -/

section

variable (nameOf : ModelId → Option String)

theorem chars_array (element : TypeTerm) : (TypeTerm.array element).chars nameOf =
    if element.isUnion then '(' :: (element.chars nameOf ++ [')', '[', ']'])
    else element.chars nameOf ++ ['[', ']'] :=
  rfl

theorem memberChars_eq (members : List TypeTerm) :
    memberChars nameOf members = members.map fun m => (m, m.chars nameOf) := by
  induction members with
  | nil => rfl
  | cons m rest ih => exact congrArg ((m, m.chars nameOf) :: ·) ih

theorem chars_union (members : List TypeTerm) : (TypeTerm.union members).chars nameOf =
    separated [' ', '|', ' '] (nullishLast (members.map fun m => (m, m.chars nameOf))) := by
  rw [← memberChars_eq]
  rfl

/-- What stands before the type of a property. -/
def labelChars (label : String × Bool) : List Char :=
  nameChars label.1 ++ (if label.2 then ['?'] else []) ++ [':', ' ']

theorem propertyChars_eq (properties : List ((String × Bool) × TypeTerm)) :
    propertyChars nameOf properties
      = properties.map fun p => labelChars p.1 ++ p.2.chars nameOf := by
  induction properties with
  | nil => rfl
  | cons p rest ih =>
    obtain ⟨label, type⟩ := p
    rw [List.map_cons, ← ih]
    refine congrArg (· :: _) ?_
    simp [labelChars]

theorem chars_object (properties : List ((String × Bool) × TypeTerm)) :
    (TypeTerm.object properties).chars nameOf =
      if properties.isEmpty then ['\x7b', '\x7d']
      else '\x7b' :: ' ' :: (separated [';', ' ']
        (properties.map fun p => labelChars p.1 ++ p.2.chars nameOf) ++ [' ', '\x7d']) := by
  rw [← propertyChars_eq]
  rfl

end

/-! ## Separated texts -/

section

variable {α : Type} {separator : List Char} {write : α → List Char}

theorem separated_cons (separator text : List Char) (rest : List (List Char)) :
    separated separator (text :: rest)
      = text ++ (if rest.isEmpty then [] else separator ++ separated separator rest) := by
  cases rest with
  | nil => exact (List.append_nil text).symm
  | cons next rest => simp [separated]

/-- Texts with separators are known if each text is, and if what follows the last of them is not
another one. -/
theorem eq_of_separated_append_eq (follows : List Char → Prop) {items items' : List α}
    {rest rest' : List Char}
    (apart : ∀ a ∈ items, ∀ b ∈ items', ∀ more more', follows more → follows more' →
      write a ++ more = write b ++ more' → a = b ∧ more = more')
    (separates : ∀ more, follows (separator ++ more))
    (ends : follows rest) (ends' : follows rest')
    (last : ∀ more, rest ≠ separator ++ more) (last' : ∀ more, rest' ≠ separator ++ more)
    (some : items ≠ []) (some' : items' ≠ [])
    (same : separated separator (items.map write) ++ rest
      = separated separator (items'.map write) ++ rest') : items = items' ∧ rest = rest' := by
  induction items generalizing items' with
  | nil => exact absurd rfl some
  | cons a items ih =>
    cases items' with
    | nil => exact absurd rfl some'
    | cons b items' =>
      have tail {items : List α} {rest : List Char} (ends : follows rest) :
          follows ((if (items.map write).isEmpty then []
            else separator ++ separated separator (items.map write)) ++ rest) := by
        split
        · exact ends
        · rw [List.append_assoc]
          exact separates _
      rw [List.map_cons, List.map_cons, separated_cons, separated_cons, List.append_assoc,
        List.append_assoc] at same
      obtain ⟨rfl, same⟩ := apart a List.mem_cons_self b List.mem_cons_self _ _ (tail ends)
        (tail ends') same
      cases items with
      | nil =>
        cases items' with
        | nil => exact ⟨rfl, by simpa using same⟩
        | cons b items' =>
          exact absurd (by simpa using same) (last _)
      | cons c items =>
        cases items' with
        | nil => exact absurd (by simpa using same.symm) (last' _)
        | cons b items' =>
          have same : separated separator ((c :: items).map write) ++ rest
              = separated separator ((b :: items').map write) ++ rest' := by
            simpa using same
          obtain ⟨tails, rests⟩ := ih (fun x mem y mem' => apart x (List.mem_cons_of_mem a mem) y
            (List.mem_cons_of_mem a mem')) (List.cons_ne_nil _ _) (List.cons_ne_nil _ _) same
          exact ⟨tails ▸ rfl, rests⟩

end

/-! ## What follows a type -/

/-- What may follow a whole type. -/
inductive Closes : List Char → Prop
  | nothing : Closes []
  | parenthesis (more : List Char) : Closes (')' :: more)
  | semicolon (more : List Char) : Closes (';' :: more)
  | brace (more : List Char) : Closes (' ' :: '\x7d' :: more)

/-- What may follow a member of a union. -/
inductive Breaks : List Char → Prop
  | closes {rest : List Char} (closes : Closes rest) : Breaks rest
  | bar (more : List Char) : Breaks (' ' :: '|' :: more)

/-- What may follow a type before the brackets of arrays. -/
def Follows (rest : List Char) : Prop := ∀ c ∈ rest.head?, c ∈ [')', ';', ' ', '[']

theorem Breaks.follows {rest : List Char} (h : Breaks rest) : Follows rest := by
  cases h with
  | closes h => cases h <;> simp [Follows]
  | bar => simp [Follows]

/-- The brackets of a number of arrays around each other. -/
def brackets : Nat → List Char
  | 0 => []
  | n + 1 => brackets n ++ ['[', ']']

theorem brackets_succ (n : Nat) : brackets (n + 1) = '[' :: ']' :: brackets n := by
  induction n with
  | zero => rfl
  | succ n ih => exact congrArg (· ++ ['[', ']']) ih

theorem follows_brackets_append {n : Nat} {rest : List Char} (h : Breaks rest) :
    Follows (brackets n ++ rest) := by
  cases n with
  | zero => exact h.follows
  | succ n => simp [brackets_succ, Follows]

/-- The brackets are counted. -/
theorem eq_of_brackets_append_eq {n m : Nat} {rest rest' : List Char} (breaks : Breaks rest)
    (breaks' : Breaks rest') (same : brackets n ++ rest = brackets m ++ rest') :
    n = m ∧ rest = rest' := by
  have noBracket {rest more : List Char} (breaks : Breaks rest) : rest ≠ '[' :: more := by
    rintro rfl
    cases breaks with
    | closes h => cases h
  induction n generalizing m with
  | zero =>
    cases m with
    | zero => exact ⟨rfl, same⟩
    | succ m =>
      rw [brackets_succ] at same
      exact absurd same (noBracket breaks)
  | succ n ih =>
    rw [brackets_succ] at same
    cases m with
    | zero => exact absurd same.symm (noBracket breaks')
    | succ m =>
      rw [brackets_succ] at same
      simp only [List.cons_append, List.cons.injEq, true_and] at same
      obtain ⟨rfl, rests⟩ := ih same
      exact ⟨rfl, rests⟩

/-! ## Types with texts of their own -/

/-- The names and the numbers that texts are made of. -/
structure Vocabulary where
  nameOf : ModelId → Option String
  leaves : String → Prop
  numbers : Double → Prop
  leafWords : ∀ name, leaves name → IsWord name
  modelWords : ∀ definition name, nameOf definition = some name → IsWord name
  apart : ∀ definition name, nameOf definition = some name → ¬ leaves name
  distinct : ∀ definition other name, nameOf definition = some name → nameOf other = some name →
    definition = other
  finite : ∀ x, numbers x → x.isNaN = false ∧ x.isInfinite = false
  plainText : ∀ x y, numbers x → numbers y → x.plainText = y.plainText → x = y

/-- The members of a union in the order of their ids: `null` and `undefined` come before all that is
not intrinsic. -/
def nullishFirst (members : List TypeTerm) : List TypeTerm :=
  members.filter (isIntrinsic .null) ++ members.filter (isIntrinsic .undefined)
    ++ members.filter fun m => !m.isIntrinsic .null && !m.isIntrinsic .undefined

/-- The members of a union in the order in which they are written. -/
def nullishBack (members : List TypeTerm) : List TypeTerm :=
  members.filter (fun m => !m.isIntrinsic .null && !m.isIntrinsic .undefined)
    ++ members.filter (isIntrinsic .null) ++ members.filter (isIntrinsic .undefined)

/-- A type is made of the words of a vocabulary. -/
inductive Legible (words : Vocabulary) : TypeTerm → Prop
  | intrinsic (k : Intrinsic) : Legible words (.intrinsic k)
  | boolean (b : Bool) : Legible words (.literal (.boolean b))
  | string (value : String) : Legible words (.literal (.string value))
  | number {value : Double} (known : words.numbers value) : Legible words (.literal (.number value))
  | leaf {name : String} (known : words.leaves name) : Legible words (.leaf name)
  | reference {definition : ModelId} {name : String}
      (named : words.nameOf definition = some name) : Legible words (.reference definition)
  | object {properties : List ((String × Bool) × TypeTerm)}
      (types : ∀ p ∈ properties, Legible words p.2) : Legible words (.object properties)
  | array {element : TypeTerm} (type : Legible words element) : Legible words (.array element)
  | union {members : List TypeTerm} (several : 2 ≤ members.length)
      (flat : ∀ m ∈ members, m.isUnion = false) (ordered : members = nullishFirst members)
      (types : ∀ m ∈ members, Legible words m) : Legible words (.union members)

theorem isIntrinsic_eq_false {k other : Intrinsic} (apart : k ≠ other) {m : TypeTerm}
    (is : m.isIntrinsic k = true) : m.isIntrinsic other = false := by
  cases m with
  | intrinsic l =>
    have is : l = k := by simpa [isIntrinsic] using is
    simp [isIntrinsic, is, apart]
  | _ => cases is

theorem filter_nullishBack {k : Intrinsic} (nullish : k = .null ∨ k = .undefined)
    (members : List TypeTerm) :
    (nullishBack members).filter (isIntrinsic k) = members.filter (isIntrinsic k) := by
  have apart (m : TypeTerm) : (m.isIntrinsic .null && m.isIntrinsic .undefined) = false := by
    cases is : m.isIntrinsic .null with
    | false => rfl
    | true => rw [isIntrinsic_eq_false (by decide) is, Bool.and_false]
  have apart' (m : TypeTerm) : (m.isIntrinsic .undefined && m.isIntrinsic .null) = false :=
    (Bool.and_comm _ _).trans (apart m)
  have other (m : TypeTerm) (b : Bool) :
      (m.isIntrinsic k && (!m.isIntrinsic k && b)) = false := by
    cases m.isIntrinsic k <;> rfl
  have other' (m : TypeTerm) (b : Bool) :
      (m.isIntrinsic k && (b && !m.isIntrinsic k)) = false := by
    cases m.isIntrinsic k <;> cases b <;> rfl
  have nothing : members.filter (fun _ => false) = [] := List.filter_eq_nil_iff.2 (by simp)
  rcases nullish with rfl | rfl
  · simp [nullishBack, List.filter_append, List.filter_filter, apart, other, nothing]
  · simp [nullishBack, List.filter_append, List.filter_filter, apart', other', nothing]

/-- The order in which the members are written shows the order of their ids. -/
theorem eq_of_nullishBack_eq {members members' : List TypeTerm}
    (ordered : members = nullishFirst members) (ordered' : members' = nullishFirst members')
    (same : nullishBack members = nullishBack members') : members = members' := by
  have part {k : Intrinsic} (nullish : k = .null ∨ k = .undefined) :
      members.filter (isIntrinsic k) = members'.filter (isIntrinsic k) := by
    rw [← filter_nullishBack nullish members, same, filter_nullishBack nullish members']
  have nulls := part (.inl rfl)
  have undefineds := part (.inr rfl)
  rw [nullishBack, nullishBack, nulls, undefineds] at same
  have others := List.append_cancel_right (List.append_cancel_right same)
  rw [ordered, ordered', nullishFirst, nullishFirst, nulls, undefineds, others]

/-! ## Arrays around a type -/

/-- What stands before the brackets of arrays. -/
def core : TypeTerm → TypeTerm
  | .array element => if element.isUnion then element else core element
  | t => t
termination_by structural t => t

/-- The number of pairs of brackets. -/
def rank : TypeTerm → Nat
  | .array element => if element.isUnion then 1 else rank element + 1
  | _ => 0
termination_by structural t => t

/-- A type in arrays around each other. -/
def inArrays : Nat → TypeTerm → TypeTerm
  | 0, t => t
  | n + 1, t => .array (inArrays n t)

/-- The characters of a type before the brackets of arrays: a union stands in parentheses. -/
def coreChars (nameOf : ModelId → Option String) (t : TypeTerm) : List Char :=
  if t.isUnion then '(' :: (t.chars nameOf ++ [')']) else t.chars nameOf

theorem inArrays_core : ∀ {t : TypeTerm}, t.isUnion = false → inArrays t.rank t.core = t
  | .array element, _ => by
    unfold core rank
    split
    next => rfl
    next single => exact congrArg TypeTerm.array (inArrays_core (by simpa using single))
  | .stray _, _ | .intrinsic _, _ | .literal _, _ | .leaf _, _ | .object _, _
  | .reference _, _ => rfl

theorem chars_eq (nameOf : ModelId → Option String) : ∀ {t : TypeTerm}, t.isUnion = false →
    t.chars nameOf = t.core.coreChars nameOf ++ brackets t.rank
  | .array element, _ => by
    unfold core rank
    rw [chars_array]
    split
    next union =>
      rw [coreChars, if_pos union]
      simp [brackets]
    next single =>
      rw [chars_eq nameOf (t := element) (by simpa using single), brackets, List.append_assoc]
  | .stray _, _ | .intrinsic _, _ | .literal _, _ | .leaf _, _ | .object _, _
  | .reference _, _ => (List.append_nil _).symm

/-- The core of a type is no array. -/
theorem core_ne_array : ∀ (t element : TypeTerm), t.core ≠ .array element
  | .array inner, element => by
    unfold core
    split
    next union =>
      rintro rfl
      cases union
    next => exact core_ne_array inner element
  | .stray _, _ | .intrinsic _, _ | .literal _, _ | .leaf _, _ | .object _, _ | .union _, _
  | .reference _, _ => nofun

/-! ## Alternatives -/

/-- The types between the bars of a text, in order. -/
def alternatives : TypeTerm → List TypeTerm
  | .union members => nullishBack members
  | t => [t]

theorem chars_eq_separated (nameOf : ModelId → Option String) (t : TypeTerm) :
    t.chars nameOf = separated [' ', '|', ' '] (t.alternatives.map (chars nameOf)) := by
  cases t with
  | union members =>
    rw [chars_union, alternatives, nullishLast, nullishBack]
    simp only [List.filter_map, List.map_append, List.map_map]
    rfl
  | _ => rfl

theorem alternatives_of_single {t : TypeTerm} (single : t.isUnion = false) :
    t.alternatives = [t] := by
  cases t with
  | union => cases single
  | _ => rfl

theorem length_nullishBack (members : List TypeTerm) :
    (nullishFirst members).length = (nullishBack members).length := by
  simp only [nullishFirst, nullishBack, List.length_append]
  omega

theorem mem_of_mem_nullishBack {members : List TypeTerm} {m : TypeTerm}
    (mem : m ∈ nullishBack members) : m ∈ members := by
  simp only [nullishBack, List.mem_append] at mem
  rcases mem with (mem | mem) | mem <;> exact (List.mem_filter.1 mem).1

section

variable {words : Vocabulary} {t u : TypeTerm}

theorem Legible.core (legible : Legible words t) : Legible words t.core := by
  induction legible with
  | array type ih =>
    unfold TypeTerm.core
    split
    · exact type
    · exact ih
  | intrinsic k => exact .intrinsic k
  | boolean b => exact .boolean b
  | string value => exact .string value
  | number known => exact .number known
  | leaf known => exact .leaf known
  | reference named => exact .reference named
  | object types => exact .object types
  | union several flat ordered types => exact .union several flat ordered types

/-- No alternative is a union. -/
theorem Legible.alternative (legible : Legible words t) {m : TypeTerm} (mem : m ∈ t.alternatives) :
    Legible words m ∧ m.isUnion = false := by
  cases single : t.isUnion with
  | false =>
    rw [alternatives_of_single single] at mem
    cases List.mem_singleton.1 mem
    exact ⟨legible, single⟩
  | true =>
    cases legible with
    | union several flat ordered types =>
      have mem := mem_of_mem_nullishBack mem
      exact ⟨types m mem, flat m mem⟩
    | _ => cases single

theorem Legible.two_le_length (legible : Legible words t) (union : t.isUnion = true) :
    2 ≤ t.alternatives.length := by
  cases legible with
  | union several flat ordered types =>
    rwa [ordered, length_nullishBack] at several
  | _ => cases union

/-- A type is known by its alternatives. -/
theorem Legible.eq_of_alternatives_eq (legible : Legible words t) (legible' : Legible words u)
    (same : t.alternatives = u.alternatives) : t = u := by
  cases single : t.isUnion <;> cases single' : u.isUnion
  · rw [alternatives_of_single single, alternatives_of_single single'] at same
    exact (List.cons.inj same).1
  · have several := legible'.two_le_length single'
    rw [← same, alternatives_of_single single] at several
    simp at several
  · have several := legible.two_le_length single
    rw [same, alternatives_of_single single'] at several
    simp at several
  · cases legible with
    | union _ _ ordered _ =>
      cases legible' with
      | union _ _ ordered' _ =>
        exact congrArg TypeTerm.union (eq_of_nullishBack_eq ordered ordered' same)
      | _ => cases single'
    | _ => cases single

end

/-! ## First characters -/

/-- What a text shows of its type by its first character. -/
inductive Kind where
  | word
  | number
  | quoted
  | object
  | parentheses
deriving DecidableEq

/-- The kind that a character shows. -/
def Kind.ofChar (c : Char) : Kind :=
  if c = '{' then .object else if c = '(' then .parentheses else if c = '"' then .quoted
  else if c.isDigit || c = '-' then .number else .word

/-- The kind of what stands before the brackets of arrays. -/
def kind : TypeTerm → Kind
  | .literal (.string _) => .quoted
  | .literal (.number _) => .number
  | .object _ => .object
  | .union _ => .parentheses
  | _ => .word

/-- The word that a type is written as. -/
def word? (nameOf : ModelId → Option String) : TypeTerm → Option String
  | .intrinsic k => some k.name
  | .literal (.boolean b) => some (if b then "true" else "false")
  | .leaf name => some name
  | .reference definition => nameOf definition
  | _ => none

theorem ofChar_of_startsName {c : Char} (h : CharClass.startsName c = true) :
    Kind.ofChar c = .word := by
  have other (d : Char) (no : CharClass.startsName d = false) : c ≠ d := by
    rintro rfl
    cases no.symm.trans h
  have noDigit : c.isDigit = false := by
    cases digit : c.isDigit with
    | false => rfl
    | true => cases (CharClass.startsName_of_isDigit digit).symm.trans h
  unfold Kind.ofChar
  rw [if_neg (other _ (by decide)), if_neg (other _ (by decide)), if_neg (other _ (by decide)),
    noDigit, Bool.false_or, if_neg]
  simpa using other '-' (by decide)

section

variable {words : Vocabulary} {t u : TypeTerm}

theorem Legible.isName_of_word (legible : Legible words t) {word : String}
    (is : t.word? words.nameOf = some word) : CharClass.isName word = true := by
  cases legible with
  | intrinsic k =>
    cases is
    exact k.isName_name
  | boolean b =>
    cases is
    cases b <;> decide
  | leaf known =>
    cases is
    exact (words.leafWords _ known).isName
  | reference named => exact (words.modelWords _ _ is).isName
  | string | number | object | array | union => cases is

/-- The type that a reserved word stands for. -/
def reserved? (word : String) : Option TypeTerm :=
  match Intrinsic.ofName? word with
  | some k => some (.intrinsic k)
  | none =>
      if word = "true" then some (.literal (.boolean true))
      else if word = "false" then some (.literal (.boolean false))
      else none

theorem reserved?_eq_none {word : String} (free : Grammar.IsFree word) :
    reserved? word = none := by
  unfold reserved?
  rw [free.intrinsic]
  simp [free.ne_true, free.ne_false]

/-- A word is reserved, or it is a name of a leaf or of a model. -/
theorem Legible.reserved_or_name (legible : Legible words t) {word : String}
    (is : t.word? words.nameOf = some word) :
    reserved? word = some t ∨ reserved? word = none
      ∧ (words.leaves word ∧ t = .leaf word
        ∨ ∃ definition, words.nameOf definition = some word ∧ t = .reference definition) := by
  cases legible with
  | intrinsic k =>
    cases is
    rw [reserved?, Intrinsic.ofName?_name]
    exact .inl rfl
  | boolean b =>
    cases is
    cases b <;> exact .inl rfl
  | @leaf name known =>
    cases is
    exact .inr ⟨reserved?_eq_none (words.leafWords _ known).toIsFree, .inl ⟨known, rfl⟩⟩
  | @reference definition _ named =>
    exact .inr ⟨reserved?_eq_none (words.modelWords _ _ is).toIsFree, .inr ⟨definition, is, rfl⟩⟩
  | string | number | object | array | union => cases is

/-- Different types are different words. -/
theorem Legible.eq_of_word?_eq (legible : Legible words t) (legible' : Legible words u)
    {word : String} (is : t.word? words.nameOf = some word)
    (is' : u.word? words.nameOf = some word) : t = u := by
  rcases legible.reserved_or_name is with reserved | ⟨free, name⟩ <;>
    rcases legible'.reserved_or_name is' with reserved' | ⟨free', name'⟩
  · exact Option.some.inj (reserved.symm.trans reserved')
  · cases reserved.symm.trans free'
  · cases free.symm.trans reserved'
  · rcases name with ⟨leaf, rfl⟩ | ⟨definition, named, rfl⟩ <;>
      rcases name' with ⟨leaf', rfl⟩ | ⟨definition', named', rfl⟩
    · rfl
    · exact absurd leaf (words.apart _ _ named')
    · exact absurd leaf' (words.apart _ _ named)
    · rw [words.distinct _ _ _ named named']

end

/-! ## Numbers -/

/-- A character that numbers are written with. -/
def isNumeric (c : Char) : Bool := c.isDigit || c = '.' || c = '-'

theorem isNumeric_of_isDigit {c : Char} (digit : c.isDigit = true) : isNumeric c = true := by
  rw [isNumeric, digit]
  rfl

/-- A positive decimal is written with digits and a point, and a digit is first. -/
theorem positional_eq (x : Decimal) : ∃ c more, Double.positional x = c :: more
    ∧ c.isDigit = true ∧ ∀ d ∈ Double.positional x, isNumeric d = true := by
  have digits : ∀ c ∈ Double.digitChars x.digits, c.isDigit = true :=
    fun c mem => Nat.isDigit_of_mem_toDigits (by omega) (by omega) mem
  have numeric : ∀ c ∈ Double.digitChars x.digits, isNumeric c = true :=
    fun c mem => isNumeric_of_isDigit (digits c mem)
  have zeros (n : Nat) : ∀ c ∈ List.replicate n '0', isNumeric c = true :=
    fun c mem => List.eq_of_mem_replicate mem ▸ rfl
  cases same : Double.digitChars x.digits with
  | nil => exact absurd same Nat.toDigits_ne_nil
  | cons c more =>
    rw [same] at digits numeric
    obtain ⟨digit, _⟩ := List.forall_mem_cons.1 digits
    unfold Double.positional
    rw [same]
    simp only
    split
    next =>
      exact ⟨c, _, List.cons_append, digit, List.forall_mem_append.2 ⟨numeric, zeros _⟩⟩
    next =>
      split
      next inside =>
        obtain ⟨n, length⟩ : ∃ n, (c :: more).length - (-x.exponent).toNat = n + 1 :=
          ⟨_, (Nat.succ_pred_eq_of_pos (by omega)).symm⟩
        rw [length]
        refine ⟨c, _, List.cons_append, digit, List.forall_mem_append.2 ⟨?_, ?_⟩⟩
        · exact fun d mem => numeric d (List.mem_of_mem_take mem)
        · exact List.forall_mem_cons.2 ⟨rfl, fun d mem => numeric d (List.mem_of_mem_drop mem)⟩
      next =>
        exact ⟨'0', _, rfl, rfl, List.forall_mem_cons.2 ⟨rfl, List.forall_mem_cons.2
          ⟨rfl, List.forall_mem_append.2 ⟨zeros _, numeric⟩⟩⟩⟩

/-- A finite number is written with digits, a point and a sign, and a digit or the sign is first. -/
theorem plainText_eq {x : Double} (finite : x.isNaN = false ∧ x.isInfinite = false) :
    ∃ c more, x.plainText.toList = c :: more ∧ Kind.ofChar c = .number
      ∧ ∀ d ∈ x.plainText.toList, isNumeric d = true := by
  have ofDigit {c : Char} (digit : c.isDigit = true) : Kind.ofChar c = .number := by
    have other (d : Char) (no : d.isDigit = false) : c ≠ d := by
      rintro rfl
      cases no.symm.trans digit
    unfold Kind.ofChar
    rw [if_neg (other _ (by decide)), if_neg (other _ (by decide)), if_neg (other _ (by decide)),
      digit, Bool.true_or, if_pos rfl]
  have signed {body : List Char} {c : Char} {more : List Char} (same : body = c :: more)
      (digit : c.isDigit = true) (numeric : ∀ d ∈ body, isNumeric d = true) :
      ∃ c more, x.signChars ++ body = c :: more ∧ Kind.ofChar c = .number
        ∧ ∀ d ∈ x.signChars ++ body, isNumeric d = true := by
    unfold Double.signChars
    split
    · exact ⟨'-', body, rfl, rfl, List.forall_mem_cons.2 ⟨rfl, numeric⟩⟩
    · exact ⟨c, more, same, ofDigit digit, numeric⟩
  unfold Double.plainText
  rw [finite.1, finite.2, if_neg Bool.false_ne_true, if_neg Bool.false_ne_true]
  split
  next =>
    rw [String.toList_ofList]
    exact signed rfl (by decide) (List.forall_mem_singleton.2 rfl)
  next =>
    rw [String.toList_ofList]
    obtain ⟨c, more, same, digit, numeric⟩ := positional_eq (x.shortest .up)
    exact signed same digit numeric

end TypeTerm

end ModelForms
