import ModelForms.Location
import ModelForms.Proofs.Entries
import ModelForms.Proofs.Text.Cutting

/-!
# Following pointers

A location that starts at the root of a value, written as a pointer and read again, leads along its
keys to what stands there (`Json.resolve?_text`).  `Json.Holds` says what stands at a location.
Where no object has two members of one name, each member of an object stands at the location that
its key leads to, and the elements of arrays stand at those of their indexes.
-/

namespace ModelForms

namespace Text

/-- The decimal digits of a number are read as the number. -/
theorem natOfDigits?_toDigits (n : Nat) : natOfDigits? (Nat.toDigits 10 n) = some n := by
  have digits : ∀ c ∈ Nat.toDigits 10 n, c.isDigit = true :=
    fun c mem => Nat.isDigit_of_mem_toDigits (by omega) (by omega) mem
  have value := @Nat.ofDigitChars_ten_toDigits n
  rw [natOfDigits?, List.all_eq_true.2 digits, Bool.not_true, Bool.or_false, if_neg]
  · exact congrArg some value
  · simp

/-- The decimal digits of a number start with zero only if there are no others. -/
theorem toDigits_ne_zero_cons (n : Nat) (c : Char) (rest : List Char) :
    Nat.toDigits 10 n ≠ '0' :: c :: rest := by
  have starts (n : Nat) : ∀ rest, Nat.toDigits 10 n = '0' :: rest → n = 0 := by
    induction n using Nat.strongRecOn with
    | ind n ih =>
      intro rest same
      by_cases small : n < 10
      · rw [Nat.toDigits_of_lt_base small] at same
        exact Nat.digitChar_eq_zero.1 (List.cons_eq_cons.1 same).1
      · rw [Nat.toDigits_of_base_le (by omega) (by omega)] at same
        cases front : Nat.toDigits 10 (n / 10) with
        | nil => exact absurd front Nat.toDigits_ne_nil
        | cons d front' =>
          rw [front, List.cons_append, List.cons_eq_cons] at same
          have := ih (n / 10) (by omega) front' (by rw [front, same.1])
          omega
  intro same
  rw [starts n _ same, Nat.toDigits_zero] at same
  cases same

end Text

namespace Location

/-- The index of an element is read off its key. -/
theorem index?_toString (n : Nat) : index? (toString n) = some n := by
  have read : (toString n).toList = Nat.toDigits 10 n := Nat.toList_repr
  unfold index?
  rw [read]
  split
  next same => exact absurd same (Text.toDigits_ne_zero_cons n _ _)
  next => exact Text.natOfDigits?_toDigits n

theorem slash_ne_of_mem_escaped {key : List Char} {c : Char} (mem : c ∈ key.flatMap escapedChar) :
    (c == '/') = false := by
  obtain ⟨d, _, mem⟩ := List.mem_flatMap.1 mem
  rw [beq_eq_false_iff_ne]
  rintro rfl
  unfold escapedChar at mem
  split at mem
  next => simp at mem
  next =>
    split at mem
    next => simp at mem
    next other => exact other (List.mem_singleton.1 mem).symm

/-- A written location is cut between its keys. -/
theorem pieces_flatMap_keyChars (keys : List String) :
    Text.pieces (· == '/') (keys.flatMap keyChars)
      = [] :: keys.map fun key => key.toList.flatMap escapedChar := by
  induction keys with
  | nil => rfl
  | cons key rest ih =>
    have cut := Text.pieces_append (@slash_ne_of_mem_escaped key.toList) ih
    rw [List.flatMap_cons, keyChars, List.cons_append, Text.pieces, cut]
    rfl

/-- The keys of a written location are read off it. -/
theorem keysOf?_text {location : Location} (fromRoot : location.base = "") :
    keysOf? location.text = some location.keys := by
  have read (keys : List String) :
      (keys.map fun key => key.toList.flatMap escapedChar).mapM
        (fun piece => (unescape? piece).map String.ofList) = some keys := by
    induction keys with
    | nil => rfl
    | cons key rest ih =>
      rw [List.map_cons, List.mapM_cons, ih, unescape?_escaped, Option.map_some,
        String.ofList_toList]
      rfl
  unfold keysOf? text
  rw [fromRoot, String.toList_ofList, String.toList_empty, List.nil_append,
    pieces_flatMap_keyChars]
  exact read location.keys

end Location

namespace Json

/-- The value at a written location is what its keys lead to. -/
theorem resolve?_text {location : Location} (fromRoot : location.base = "") (root : Json) :
    root.resolve? location.text = root.at? location.keys := by
  rw [resolve?, Location.keysOf?_text fromRoot, Option.bind_some]

theorem at?_append (keys more : List String) (root : Json) :
    root.at? (keys ++ more) = (root.at? keys).bind (at? more) := by
  induction keys generalizing root with
  | nil => rfl
  | cons key rest ih =>
    cases root with
    | object members =>
      rw [List.cons_append, at?, at?, Option.bind_assoc]
      exact Option.bind_congr fun value _ => ih value
    | array items =>
      rw [List.cons_append, at?, at?, Option.bind_assoc (f := at? rest)]
      exact Option.bind_congr fun value _ => ih value
    | _ => rfl

/-! ## Distinct members -/

/-- No object in a value has two members of one name. -/
inductive Distinct : Json → Prop
  | null : Distinct .null
  | bool (b : Bool) : Distinct (.bool b)
  | number (n : JsonNumber) : Distinct (.number n)
  | string (text : String) : Distinct (.string text)
  | array {items : List Json} (parts : ∀ item ∈ items, Distinct item) : Distinct (.array items)
  | object {members : List (String × Json)} (names : (Entries.keys members).Nodup)
      (parts : ∀ m ∈ members, Distinct m.2) : Distinct (.object members)

/-! ## What stands at a location -/

/-- A value stands at a location of another value, and no object in it has two members of one name.
-/
structure Holds (root : Json) (location : Location) (value : Json) : Prop where
  fromRoot : location.base = ""
  found : root.at? location.keys = some value
  distinct : value.Distinct

namespace Holds

variable {root value : Json} {location : Location}

theorem resolve? (holds : root.Holds location value) :
    root.resolve? location.text = some value :=
  (resolve?_text holds.fromRoot root).trans holds.found

/-- What one key leads to. -/
theorem child {part : Json} {key : String} (holds : root.Holds location value)
    (found : value.at? [key] = some part) (distinct : part.Distinct) :
    root.Holds (location.child key) part := by
  refine ⟨holds.fromRoot, ?_, distinct⟩
  rw [Location.child, at?_append, holds.found, Option.bind_some, found]

/-- A member of an object. -/
theorem member {members : List (String × Json)} {entry : String × Json}
    (holds : root.Holds location (.object members)) (mem : entry ∈ members) :
    root.Holds (location.child entry.1) entry.2 := by
  cases holds.distinct with
  | object names parts =>
    refine holds.child ?_ (parts entry mem)
    rw [at?, Entries.lookup_of_mem names mem]
    rfl

/-- An element of an array. -/
theorem item {items : List Json} {index : Nat} {part : Json}
    (holds : root.Holds location (.array items)) (found : items[index]? = some part) :
    root.Holds (location.child (toString index)) part := by
  cases holds.distinct with
  | array parts =>
    refine holds.child ?_ (parts part (List.mem_of_getElem? found))
    rw [at?, Location.index?_toString, Option.bind_some, found]
    rfl

end Holds

end Json

end ModelForms
