/-!
# Name registers

A register gives each name it meets a number, counting from zero in order of first occurrence.  The
empty name is always number zero.  A register never forgets a name, so a number that was given out
keeps its meaning.

The main statements relate the two directions of the register: `name?_intern` and `find?_intern`
after a name is added, and `name?_eq_some_of_find?` at any time.
-/

namespace ModelForms

/-- The names met so far, each at its number. -/
structure NameRegister where
  /-- The names in order of first occurrence. -/
  names : List String
deriving DecidableEq, Repr

namespace NameRegister

/-- The register that knows only the empty name. -/
def empty : NameRegister := ⟨[""]⟩

instance : Inhabited NameRegister := ⟨empty⟩

/-- The names that the model language gives a meaning. -/
def languageNames : List String :=
  ["string", "number", "boolean", "bigint", "null", "undefined", "unknown", "never", "Date",
    "Array", "Omit", "Pick", "Partial"]

/-- The number of a name that the register knows. -/
def find? (register : NameRegister) (name : String) : Option Nat := register.names.idxOf? name

/-- The number of a name, which is added if it is new. -/
def intern (name : String) (register : NameRegister) : Nat × NameRegister :=
  match register.find? name with
  | some index => (index, register)
  | none => (register.names.length, ⟨register.names ++ [name]⟩)

/-- The register with a name added if it is new. -/
def note (name : String) (register : NameRegister) : NameRegister := (register.intern name).2

/-- The register with names added in order. -/
def noteAll (names : List String) (register : NameRegister) : NameRegister :=
  names.foldl (fun register name => register.note name) register

/-- The register that knows the names of the model language. -/
def builtin : NameRegister := empty.noteAll languageNames

/-- The name with a number. -/
def name? (register : NameRegister) (index : Nat) : Option String := register.names[index]?

/-- The name with a number, or the empty name for a number that was not given out. -/
def name (register : NameRegister) (index : Nat) : String := (register.name? index).getD ""

/-- The number of names, the empty one included. -/
def size (register : NameRegister) : Nat := register.names.length

/-- Whether only the empty name is known. -/
def isEmpty (register : NameRegister) : Bool := register.size ≤ 1

/-! ## The two directions -/

theorem name?_eq_some_of_find? {register : NameRegister} {name : String} {index : Nat}
    (h : register.find? name = some index) : register.name? index = some name := by
  unfold find? List.idxOf? at h
  obtain ⟨hlt, hp, _⟩ := List.findIdx?_eq_some_iff_getElem.1 h
  simp only [name?]
  rw [List.getElem?_eq_getElem hlt]
  simpa using hp

theorem find?_eq_none_iff {register : NameRegister} {name : String} :
    register.find? name = none ↔ name ∉ register.names := by
  simp only [find?, List.idxOf?, List.findIdx?_eq_none_iff, beq_eq_false_iff_ne, ne_eq]
  exact ⟨fun h hm => h _ hm rfl, fun h x hx heq => h (heq ▸ hx)⟩

/-- The number that a name is given is read back as the name. -/
theorem name?_intern (register : NameRegister) (name : String) :
    (register.intern name).2.name? (register.intern name).1 = some name := by
  unfold intern
  split
  · rename_i h; exact name?_eq_some_of_find? h
  · simp [name?]

/-- Adding a name leaves every number that was given out as it was. -/
theorem name?_intern_of_lt {register : NameRegister} {index : Nat} (h : index < register.size)
    (name : String) : (register.intern name).2.name? index = register.name? index := by
  unfold intern
  split
  · rfl
  · exact List.getElem?_append_left h

/-- A name that is known is not added again. -/
theorem intern_of_find? {register : NameRegister} {name : String} {index : Nat}
    (h : register.find? name = some index) : register.intern name = (index, register) := by
  simp [intern, h]

example : builtin.size = 14 := by decide +kernel
example : (empty.intern "a").1 = 1 ∧ (empty.intern "").1 = 0 := by decide +kernel

end NameRegister

end ModelForms
