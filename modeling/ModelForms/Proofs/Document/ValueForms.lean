import ModelForms.Document.Lowering

/-!
# The forms of a value

An object with one member follows the directive that its key is, if it is one (`KeyForm`), and every
other object lists properties.  The key of a listed member names a property unless it is empty or
came before (`LabelForm`).  What lowering does is an equation for each form, so that the proofs about
lowering split on the form and do not go through its comparisons of the key.
-/

namespace ModelForms

namespace Lowering

/-- What the key of an only member says of the object. -/
inductive KeyForm (key : String) : Prop where
  | array (is : key = "$array")
  | nullable (is : key = "$nullable")
  | union (is : key = "$union")
  | unknown (directive : isDirective key = true) (unknown : key ∉ ["$array", "$nullable", "$union"])
  | name (plain : isDirective key = false)

theorem keyForm (key : String) : KeyForm key := by
  by_cases known : key ∈ ["$array", "$nullable", "$union"]
  · simp only [List.mem_cons, List.not_mem_nil, or_false] at known
    rcases known with is | is | is
    · exact .array is
    · exact .nullable is
    · exact .union is
  · cases directive : isDirective key with
    | true => exact .unknown directive known
    | false => exact .name directive

/-- An object whose only key is no directive is like one with several members. -/
theorem plain_of_name {key : String} (plain : isDirective key = false) (inner : Json) :
    ∀ other value, [(key, inner)] = [(other, value)] → isDirective other = false := by
  intro other value is
  cases is
  exact plain

/-- What the key of a member says of a property that comes after some names. -/
inductive LabelForm (key : String) (seen : List String) : Prop where
  | empty (empty : (propertyLabel key).1 = "")
  | taken (named : (propertyLabel key).1 ≠ "") (taken : (propertyLabel key).1 ∈ seen)
  | new (named : (propertyLabel key).1 ≠ "") (new : (propertyLabel key).1 ∉ seen)

theorem labelForm (key : String) (seen : List String) : LabelForm key seen := by
  by_cases empty : (propertyLabel key).1 = ""
  · exact .empty empty
  · by_cases taken : (propertyLabel key).1 ∈ seen
    · exact .taken empty taken
    · exact .new empty taken

section

variable {ensureModel : String → Lowering Unit} {leaves : Entries TypeId} {location : Location}
  {inner : Json}

theorem typeOfValue_array :
    typeOfValue ensureModel leaves location (.object [("$array", inner)])
      = typeOfValue ensureModel leaves (location.child "$array") inner >>= fun element =>
        interning (Interning.array element) := by
  rfl

theorem typeOfValue_nullable :
    typeOfValue ensureModel leaves location (.object [("$nullable", inner)])
      = typeOfValue ensureModel leaves (location.child "$nullable") inner >>= fun id =>
        interning (Interning.nullable id) := by
  rfl

theorem typeOfValue_union {items : List Json} :
    typeOfValue ensureModel leaves location (.object [("$union", .array items)])
      = typesOfItems ensureModel leaves (location.child "$union") 0 items >>= fun ids =>
        interning (Interning.union ids) := by
  rw [typeOfValue]
  rfl

theorem typeOfValue_union_of_ne (other : ∀ items, inner ≠ .array items) :
    typeOfValue ensureModel leaves location (.object [("$union", inner)])
      = throw (.invalidEntry (location.child "$union") .unionMembers) := by
  cases inner with
  | array items => exact absurd rfl (other items)
  | _ => rfl

theorem typeOfValue_unknown {key : String} (directive : isDirective key = true)
    (unknown : key ∉ ["$array", "$nullable", "$union"]) :
    typeOfValue ensureModel leaves location (.object [(key, inner)])
      = throw (.invalidEntry location (.unknownDirective key)) := by
  simp only [List.mem_cons, List.not_mem_nil, or_false, not_or] at unknown
  unfold typeOfValue
  simp only [directive, unknown, if_true, if_false]

/-- An object without a directive lists properties. -/
theorem typeOfValue_members {members : List (String × Json)}
    (plain : ∀ key inner, members = [(key, inner)] → isDirective key = false) :
    typeOfValue ensureModel leaves location (.object members)
      = propertiesOfMembers ensureModel leaves location [] members >>= fun properties =>
        interning (Interning.object properties) := by
  unfold typeOfValue
  split
  next key inner => rw [if_neg (by simp [plain key inner rfl])]
  next => rfl

section

variable {seen : List String} {key : String} {rest : List (String × Json)}

theorem propertiesOfMembers_of_empty (empty : (propertyLabel key).1 = "") :
    propertiesOfMembers ensureModel leaves location seen ((key, inner) :: rest)
      = throw (.invalidEntry (location.child key) .emptyPropertyName) := by
  simp only [propertiesOfMembers, empty]
  rfl

theorem propertiesOfMembers_of_taken (named : (propertyLabel key).1 ≠ "")
    (taken : (propertyLabel key).1 ∈ seen) :
    propertiesOfMembers ensureModel leaves location seen ((key, inner) :: rest)
      = throw
          (.invalidEntry (location.child key) (.duplicateProperty (propertyLabel key).1)) := by
  rw [propertiesOfMembers]
  simp only [String.isEmpty_iff, named, List.contains_iff_mem, taken, if_true, if_false]
  rfl

theorem propertiesOfMembers_of_new (named : (propertyLabel key).1 ≠ "")
    (new : (propertyLabel key).1 ∉ seen) :
    propertiesOfMembers ensureModel leaves location seen ((key, inner) :: rest)
      = typeOfValue ensureModel leaves (location.child key) inner >>= fun type =>
        propertiesOfMembers ensureModel leaves location ((propertyLabel key).1 :: seen) rest
          >>= fun more => pure (⟨(propertyLabel key).1, type, (propertyLabel key).2⟩ :: more) := by
  rw [propertiesOfMembers]
  simp only [String.isEmpty_iff, named, List.contains_iff_mem, new, if_false]

end

end

end Lowering

end ModelForms
