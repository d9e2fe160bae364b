import Mathlib.Data.List.Infix
import ModelForms.NameStorage
import ModelForms.Proofs.Pool

/-!
# Calls of a name storage

Whatever names are interned and looked up, the storage is a bijection between the names that it has
met and the numbers below their number (`NameStorage.lasting_of_calls`).  Numbers are given out in
the order in which the names occur first, and none ever changes its name.

While there are numbers left, the shortcut for the empty name and the second look for a new one make
no difference.  A call does to the pool what it does to any pool (`NameStorage.Sound.intern_eq`),
and to the register that is stored what `NameRegister.intern` does
(`NameStorage.Sound.register_intern`).  So the index stays the inverse of the list of names
(`Pool.Sound`), and the register tells the order (`NameRegister.names_noteAll`).
-/

namespace ModelForms

/-! ## Names in order of first occurrence -/

namespace NameRegister

theorem names_note (name : String) (register : NameRegister) :
    (register.note name).names
      = if name ∈ register.names then register.names else register.names ++ [name] := by
  unfold note intern
  split
  next index found =>
    have known : name ∈ register.names := by
      by_contra absent
      rw [find?_eq_none_iff.2 absent] at found
      cases found
    rw [if_pos known]
  next new => rw [if_neg (find?_eq_none_iff.1 new)]

/-- A register lists what it was told, each name where it occurs first. -/
theorem names_noteAll (added : List String) {register : NameRegister} {told : List String}
    (names : register.names = told.eraseDups) :
    (register.noteAll added).names = (told ++ added).eraseDups := by
  induction added generalizing register told with
  | nil => rw [List.append_nil, ← names]; rfl
  | cons name rest ih =>
    rw [List.append_cons]
    refine ih ?_
    have told_iff : name ∈ register.names ↔ name ∈ told := by rw [names, List.mem_eraseDups]
    rw [names_note]
    by_cases known : name ∈ told
    · rw [if_pos (told_iff.2 known), eraseDups_concat_of_mem known, names]
    · rw [if_neg (mt told_iff.1 known), eraseDups_concat_of_notMem known, names]

end NameRegister

/-! ## One call -/

namespace NameStorage

variable {storage : NameStorage} {name : String} {number : Nat}

/-- The index is the inverse of the list of names, and the empty name comes first. -/
structure Sound (storage : NameStorage) : Prop where
  pool : storage.pool.Sound
  blank : storage.name? 0 = some ""

theorem sound_empty : empty.Sound := ⟨Pool.sound_seeded "", rfl⟩

theorem prefix_insert (name : String) (storage : NameStorage) :
    storage.pool.items <+: (storage.insert name).2.pool.items := by
  unfold insert
  split
  next => exact List.prefix_rfl
  next =>
    split
    next => exact List.prefix_append _ _
    next => exact List.prefix_rfl

theorem prefix_intern (name : String) (storage : NameStorage) :
    storage.pool.items <+: (storage.intern name).2.pool.items := by
  unfold intern
  split
  next => exact List.prefix_rfl
  next =>
    split
    next => exact List.prefix_rfl
    next => exact prefix_insert name storage

namespace Sound

variable (sound : storage.Sound)

include sound

/-- While there are numbers left, a name is interned as in any pool. -/
theorem intern_eq (room : storage.size < capacity) (name : String) :
    storage.intern name = ((storage.pool.intern name).1, ⟨(storage.pool.intern name).2⟩) := by
  unfold NameStorage.intern Pool.intern
  split
  next blank =>
    rw [String.isEmpty_iff.1 blank, (sound.pool "" 0).2 sound.blank]
  next =>
    unfold insert find?
    cases storage.pool.find? name with
    | some number => rfl
    | none =>
      simp only
      rw [if_pos room]
      rfl

theorem intern (room : storage.size < capacity) (name : String) :
    (storage.intern name).2.Sound := by
  rw [sound.intern_eq room name]
  exact ⟨sound.pool.intern name, Pool.get?_of_prefix (Pool.prefix_intern name _) sound.blank⟩

/-- A name that is there keeps its number and adds nothing. -/
theorem intern_of_find? (found : storage.find? name = some number) :
    storage.intern name = (number, storage) := by
  unfold NameStorage.intern
  split
  next blank =>
    rw [String.isEmpty_iff.1 blank] at found
    have zero := sound.pool.unique ((sound.pool "" number).1 found) sound.blank
    rw [zero]
  next => rw [found]

theorem exists_find?_iff (name : String) :
    (∃ number, storage.find? name = some number) ↔ name ∈ storage.pool.items :=
  (exists_congr (sound.pool name)).trans List.mem_iff_getElem?.symm

/-- The index finds what there is to find in the list of names. -/
theorem find?_register (name : String) : storage.register.find? name = storage.find? name := by
  cases listed : storage.register.find? name with
  | none =>
    have absent := NameRegister.find?_eq_none_iff.1 listed
    refine (Option.eq_none_iff_forall_ne_some.2 fun number found => ?_).symm
    exact absent ((sound.exists_find?_iff name).1 ⟨number, found⟩)
  | some number =>
    exact ((sound.pool name number).2 (NameRegister.name?_eq_some_of_find? listed)).symm

/-- The register that is stored is told every name that is interned. -/
theorem register_intern (room : storage.size < capacity) (name : String) :
    storage.register.intern name
      = ((storage.intern name).1, (storage.intern name).2.register) := by
  rw [sound.intern_eq room name]
  unfold NameRegister.intern Pool.intern
  rw [sound.find?_register]
  unfold find?
  cases storage.pool.find? name with
  | some number => rfl
  | none => rfl

end Sound

end NameStorage

/-! ## Runs -/

/-- A call of a name storage. -/
inductive NameCall where
  | intern (name : String)
  | find (name : String)
  | read (number : Nat)
  | read? (number : Nat)
deriving DecidableEq, Repr

namespace NameCall

/-- The name that a call interns. -/
def interned? : NameCall → Option String
  | .intern name => some name
  | _ => none

/-- The names that calls intern, in order. -/
def interned (calls : List NameCall) : List String := calls.filterMap interned?

theorem interned_append (before later : List NameCall) :
    interned (before ++ later) = interned before ++ interned later :=
  List.filterMap_append

theorem mem_interned {name : String} {calls : List NameCall} :
    name ∈ interned calls ↔ intern name ∈ calls := by
  rw [interned, List.mem_filterMap]
  constructor
  · rintro ⟨call, mem, interns⟩
    cases call with
    | intern other =>
      cases interns
      exact mem
    | find | read | read? => cases interns
  · exact fun mem => ⟨_, mem, rfl⟩

/-- The storage that a call leaves. -/
def after (call : NameCall) (storage : NameStorage) : NameStorage :=
  match call with
  | .intern name => (storage.intern name).2
  | .find _ | .read _ | .read? _ => storage

end NameCall

namespace NameStorage

variable {storage : NameStorage}

/-- The storage that calls leave. -/
def run (storage : NameStorage) (calls : List NameCall) : NameStorage :=
  calls.foldl (fun storage call => call.after storage) storage

theorem run_append (storage : NameStorage) (before later : List NameCall) :
    storage.run (before ++ later) = (storage.run before).run later :=
  List.foldl_append

theorem seeded_eq_run (names : List String) : seeded names = empty.run (names.map .intern) := by
  unfold run
  rw [List.foldl_map]
  rfl

theorem prefix_run (storage : NameStorage) (calls : List NameCall) :
    storage.pool.items <+: (storage.run calls).pool.items := by
  induction calls generalizing storage with
  | nil => exact List.prefix_rfl
  | cons call rest ih =>
    refine .trans ?_ (ih (call.after storage))
    cases call with
    | intern name => exact prefix_intern name storage
    | find | read | read? => exact List.prefix_rfl

/-- Where there are numbers left after calls, there were before. -/
theorem room_of_run {calls : List NameCall} (room : (storage.run calls).size < capacity) :
    storage.size < capacity :=
  Nat.lt_of_le_of_lt (prefix_run storage calls).length_le room

theorem Sound.run (sound : storage.Sound) {calls : List NameCall}
    (room : (storage.run calls).size < capacity) :
    (storage.run calls).Sound
      ∧ (storage.run calls).register = storage.register.noteAll (NameCall.interned calls) := by
  induction calls generalizing storage with
  | nil => exact ⟨sound, rfl⟩
  | cons call rest ih =>
    cases call with
    | intern name =>
      have left : storage.size < capacity := room_of_run room
      obtain ⟨sound', told⟩ := ih (sound.intern left name) room
      have noted : storage.register.note name = (storage.intern name).2.register :=
        congrArg Prod.snd (sound.register_intern left name)
      refine ⟨sound', told.trans ?_⟩
      rw [← noted]
      rfl
    | find | read | read? => exact ih sound room

/-! ## At any time -/

/-- What there is to say of a storage that was seeded with names, whatever calls came after. -/
structure Lasting (seeds : List String) (calls : List NameCall) (last : NameStorage) : Prop where
  /-- Numbers are given out from zero on, in the order in which the names occur first. -/
  items : last.pool.items = ("" :: (seeds ++ NameCall.interned calls)).eraseDups
  blank : last.find? "" = some 0
  /-- The two directions are inverse to each other. -/
  find?_iff : ∀ name number, last.find? name = some number ↔ last.name? number = some name
  /-- What is found is the empty name, the seeds and what was interned. -/
  known : ∀ name, (∃ number, last.find? name = some number)
    ↔ name = "" ∨ name ∈ seeds ∨ .intern name ∈ calls
  /-- To intern a name that is found gives its number again and adds nothing. -/
  again : ∀ name number, last.find? name = some number → last.intern name = (number, last)
  /-- A number that was given out still belongs to its name. -/
  given : ∀ before name later, calls = before ++ .intern name :: later →
    last.find? name = some (((seeded seeds).run before).intern name).1
      ∧ last.name (((seeded seeds).run before).intern name).1 = name
  /-- Two names were given the same number exactly if they are the same. -/
  apart : ∀ before name later before' name' later', calls = before ++ .intern name :: later →
    calls = before' ++ .intern name' :: later' →
    ((((seeded seeds).run before).intern name).1 = (((seeded seeds).run before').intern name').1
      ↔ name = name')
  /-- A number never changes its name. -/
  kept : ∀ before later name number, calls = before ++ later →
    ((seeded seeds).run before).name? number = some name →
    last.name? number = some name ∧ last.name number = name
  /-- Only interning adds names. -/
  looked : ∀ before call later, calls = before ++ call :: later → call.interned? = none →
    (seeded seeds).run (before ++ [call]) = (seeded seeds).run before

theorem name_of_name? {number : Nat} {name : String} (named : storage.name? number = some name) :
    storage.name number = name := by
  rw [NameStorage.name, named, Option.getD_some]

theorem name?_run_of_name? {number : Nat} {name : String} (calls : List NameCall)
    (named : storage.name? number = some name) : (storage.run calls).name? number = some name :=
  Pool.get?_of_prefix (prefix_run storage calls) named

/-- The number that a call gives out belongs to the name from then on. -/
theorem Sound.name?_given (sound : storage.Sound) {name : String} {later : List NameCall}
    (room : (storage.run (.intern name :: later)).size < capacity) :
    (storage.run (.intern name :: later)).name? (storage.intern name).1 = some name := by
  have read : (storage.intern name).2.name? (storage.intern name).1 = some name := by
    rw [sound.intern_eq (room_of_run room) name]
    exact sound.pool.get?_intern name
  exact name?_run_of_name? later read

theorem sound_seeded {seeds : List String} (room : (seeded seeds).size < capacity) :
    (seeded seeds).Sound := by
  rw [seeded_eq_run] at room ⊢
  exact (sound_empty.run room).1

/-- Seeds are names that were interned before. -/
theorem items_run {seeds : List String} {calls : List NameCall}
    (room : ((seeded seeds).run calls).size < capacity) :
    ((seeded seeds).run calls).pool.items
      = ("" :: (seeds ++ NameCall.interned calls)).eraseDups := by
  rw [seeded_eq_run, ← run_append] at room ⊢
  have told := congrArg NameRegister.names (sound_empty.run room).2
  have seeded : NameCall.interned (seeds.map .intern) = seeds := by
    rw [NameCall.interned, List.filterMap_map]
    exact List.filterMap_some
  rw [NameCall.interned_append, seeded] at told
  have start : empty.register.names = [""].eraseDups := rfl
  exact told.trans (NameRegister.names_noteAll _ start)

/-- While there are numbers left, a storage is a bijection between the names that it has met and the
numbers below their number.  Numbers are given out in the order in which the names occur first, the
empty name having the first.  A name that is interned is found from then on and read back, a number
never changes its name, and to look something up changes nothing. -/
theorem lasting_of_calls (seeds : List String) (calls : List NameCall)
    (room : ((seeded seeds).run calls).size < capacity) :
    Lasting seeds calls ((seeded seeds).run calls) := by
  have start : (seeded seeds).Sound := sound_seeded (room_of_run room)
  have sound : ((seeded seeds).run calls).Sound := (start.run room).1
  have items := items_run room
  have named (before : List NameCall) (name : String) (later : List NameCall)
      (split : calls = before ++ .intern name :: later) :
      ((seeded seeds).run calls).name? (((seeded seeds).run before).intern name).1 = some name := by
    rw [split, run_append] at room ⊢
    exact (start.run (room_of_run room)).1.name?_given room
  constructor
  case items => exact items
  case blank => exact (sound.pool "" 0).2 sound.blank
  case find?_iff => exact sound.pool
  case known =>
    intro name
    rw [sound.exists_find?_iff, items, List.mem_eraseDups, List.mem_cons, List.mem_append,
      NameCall.mem_interned]
  case again => exact fun name number => sound.intern_of_find?
  case given =>
    intro before name later split
    have read := named before name later split
    exact ⟨(sound.pool name _).2 read, name_of_name? read⟩
  case apart =>
    intro before name later before' name' later' split split'
    have read := named before name later split
    have read' := named before' name' later' split'
    constructor
    · intro same
      rw [same, read'] at read
      exact (Option.some.inj read).symm
    · rintro rfl
      exact sound.pool.unique read read'
  case kept =>
    rintro before later name number rfl read
    rw [run_append]
    have read := name?_run_of_name? later read
    exact ⟨read, name_of_name? read⟩
  case looked =>
    intro before call later _ reads
    rw [run_append]
    cases call with
    | intern name => cases reads
    | find | read | read? => rfl

/-- A seed, the empty name, a new name, and one that is only looked for. -/
def visits : List NameCall :=
  [.intern "Date", .intern "", .intern "home", .find "street", .intern "home", .read 14, .read? 15]

theorem lasting_of_calls_visits :
    (builtin.run visits).size < capacity
      ∧ Lasting NameRegister.languageNames visits (builtin.run visits)
      ∧ (builtin.run visits).pool.items = "" :: (NameRegister.languageNames ++ ["home"])
      ∧ (builtin.run visits).find? "home" = some 14
      ∧ (builtin.run visits).find? "street" = none := by
  have room : (builtin.run visits).size < capacity := by decide +kernel
  refine ⟨room, lasting_of_calls NameRegister.languageNames visits room, ?_, ?_, ?_⟩
  all_goals decide +kernel

end NameStorage

end ModelForms
