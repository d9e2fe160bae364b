import Mathlib.Data.Fintype.Card
import ModelForms.Proofs.Types.StoredDefinitions

/-!
# Calls of a definition storage

Whatever names are reserved and models defined, the two maps of a definition storage are inverse to
each other (`DefinitionRun.standing_of_calls`).  The handles that are given out count from one in
the order in which names are first reserved, a handle never changes its name, and its body is what
was last set for it.

`DefinitionRun` is a storage together with what the calls so far have given out and set, and
`DefinitionRun.Sound` is what every call keeps.  Here a name stands as its number, which has 32 bits
as the number of a handle has.  So there are no more names than handles
(`DefinitionStorage.Sound.size_le`), and no handle is given out for two of them.

`DefinitionRun.models_calls` says that the models that are stored are what the same calls make of
named models in general.
-/

namespace ModelForms

/-! ## One call -/

/-- A call that changes a storage of named models. -/
inductive DefinitionCall (ν : Type) where
  | reserve (name : ν)
  | define (definition : ModelId) (body : TypeId)
  | register (name : ν) (body : TypeId)
deriving DecidableEq, Repr

namespace DefinitionCall

variable {ν : Type} [DecidableEq ν]

/-- The storage that a call leaves. -/
def after (storage : DefinitionStorage ν) : DefinitionCall ν → DefinitionStorage ν
  | .reserve name => (storage.reserve name).2
  | .define definition body => (storage.define definition body).2
  | .register name body => (storage.register name body).2

/-- The named models that a call leaves, given the texts of the names. -/
def afterModels (text : ν → String) (models : Definitions) : DefinitionCall ν → Definitions
  | .reserve name => (models.reserve (text name)).2
  | .define definition body => (models.define definition body).2
  | .register name body => (models.register (text name) body).2

/-- The name that a call reserves, with the handle that it answers. -/
def given (storage : DefinitionStorage ν) : DefinitionCall ν → List (ν × ModelId)
  | .reserve name => [(name, (storage.reserve name).1)]
  | .define _ _ => []
  | .register name body => [(name, (storage.register name body).1)]

/-- The body that a call sets, with the handle it is set for.  A call that answers that it knows no
such handle has set none. -/
def bodies (storage : DefinitionStorage ν) : DefinitionCall ν → List (ModelId × TypeId)
  | .reserve _ => []
  | .define definition body =>
      if (storage.define definition body).1 then [(definition, body)] else []
  | .register name body => [((storage.register name body).1, body)]

end DefinitionCall

namespace DefinitionStorage

section

variable {ν : Type} [DecidableEq ν] {storage : DefinitionStorage ν}

theorem Sound.after (sound : storage.Sound) (call : DefinitionCall ν) :
    (call.after storage).Sound := by
  cases call with
  | reserve name => exact (reserves name storage).sound sound
  | define => exact sound.define
  | register name => exact ((reserves name storage).sound sound).define

theorem suffix_index_after (storage : DefinitionStorage ν) (call : DefinitionCall ν) :
    storage.index <:+ (call.after storage).index := by
  cases call with
  | reserve name => exact (reserves name storage).suffix_index
  | define definition body => rw [DefinitionCall.after, index_define]
  | register name body =>
    rw [DefinitionCall.after, register, index_define]
    exact (reserves name storage).suffix_index

theorem Sound.size_le_after (sound : storage.Sound) (call : DefinitionCall ν) :
    storage.size ≤ (call.after storage).size := by
  rw [sound.size_eq, (sound.after call).size_eq]
  exact (suffix_index_after storage call).length_le

/-- A call does to the models that are stored what it does to named models in general. -/
theorem Sound.models_after {text : ν → String} (sound : storage.Sound) (apart : text.Injective)
    (call : DefinitionCall ν) (inside : (call.after storage).size < UInt32.size) :
    (call.after storage).models text = call.afterModels text (storage.models text) := by
  cases call with
  | reserve name =>
    exact (congrArg Prod.snd (sound.models_reserve apart (reserves name storage) inside)).symm
  | define definition body =>
    have before := Nat.lt_of_le_of_lt (sound.size_le_after (.define definition body)) inside
    exact (congrArg Prod.snd (sound.models_define before)).symm
  | register name body =>
    have between : (storage.reserve name).2.size < UInt32.size := size_define ▸ inside
    have reserved := sound.after (.reserve name)
    rw [DefinitionCall.afterModels, Definitions.register,
      sound.models_reserve apart (reserves name storage) between]
    exact (congrArg Prod.snd (reserved.models_define between)).symm

end

/-- There are no more names than handles. -/
theorem Sound.size_le {storage : DefinitionStorage UInt32} (sound : storage.Sound) :
    storage.size ≤ UInt32.size := by
  have injective : Function.Injective UInt32.toFin := fun _ _ => UInt32.toFin_inj.1
  have few := (sound.distinct.map injective).length_le_card
  rwa [List.length_map, List.length_map, Fintype.card_fin, ← sound.size_eq] at few

end DefinitionStorage

/-! ## Runs -/

/-- A storage of named models, with what calls have given out and set. -/
structure DefinitionRun (ν : Type) where
  storage : DefinitionStorage ν
  /-- The names that were reserved and the handles that were given for them, call by call. -/
  given : List (ν × ModelId)
  /-- The handles that a body was set for and the bodies, call by call. -/
  bodies : List (ModelId × TypeId)
deriving DecidableEq, Repr

namespace DefinitionRun

open DefinitionStorage (reserves handle define_fst body?_define)

variable {ν : Type} [DecidableEq ν] {run : DefinitionRun ν}

/-- A storage without models. -/
def start : DefinitionRun ν := ⟨.empty, [], []⟩

/-- The run after one more call. -/
def call (run : DefinitionRun ν) (call : DefinitionCall ν) : DefinitionRun ν where
  storage := call.after run.storage
  given := run.given ++ call.given run.storage
  bodies := run.bodies ++ call.bodies run.storage

/-- What every call keeps.  The maps list what was given out, each name where it was reserved first.
-/
structure Sound (run : DefinitionRun ν) : Prop where
  storage : run.storage.Sound
  given : run.given.eraseDups = run.storage.index.reverse
  bodies : ∀ definition, run.storage.body? definition = run.bodies.reverse.lookup definition

theorem sound_start : (start : DefinitionRun ν).Sound :=
  ⟨DefinitionStorage.sound_empty, rfl, fun _ => rfl⟩

namespace Sound

variable (sound : run.Sound)

include sound

theorem mem_given_iff {pair : ν × ModelId} : pair ∈ run.given ↔ pair ∈ run.storage.index := by
  rw [← List.mem_eraseDups, sound.given, List.mem_reverse]

theorem contains_iff (definition : ModelId) :
    run.storage.contains definition = true ↔ definition ∈ run.given.map Prod.snd := by
  rw [sound.storage.contains_iff, List.mem_map, List.mem_map]
  simp only [sound.mem_given_iff]

/-- What tells the entries of the index apart was first given out in their order. -/
theorem eraseDups_map_given {β : Type} [BEq β] [LawfulBEq β] {f : ν × ModelId → β}
    (different : (run.storage.index.map f).Nodup) :
    (run.given.map f).eraseDups = (run.storage.index.map f).reverse := by
  have apart := List.inj_on_of_nodup_map different
  rw [eraseDups_map, sound.given, List.map_reverse]
  exact fun a ha b hb => apart (sound.mem_given_iff.1 ha) (sound.mem_given_iff.1 hb)

/-- What is given for a name is listed once, where the name was reserved first. -/
theorem eraseDups_given {name : ν} {definition : ModelId} {after : DefinitionStorage ν}
    (reserves : run.storage.Reserves name definition after) :
    (run.given ++ [(name, definition)]).eraseDups = after.index.reverse := by
  cases reserves with
  | known found =>
    have again := sound.mem_given_iff.2 (sound.storage.find?_eq_some_iff.1 found)
    rw [eraseDups_concat_of_mem again, sound.given]
  | new absent =>
    have unlisted : name ∉ run.storage.index.map Prod.fst := lookup_eq_none_iff_notMem.1 absent
    have new : (name, ⟨run.storage.next.toNat⟩) ∉ run.given := fun mem =>
      unlisted (List.mem_map.2 ⟨_, sound.mem_given_iff.1 mem, rfl⟩)
    rw [eraseDups_concat_of_notMem new, sound.given, List.reverse_cons]

theorem reserve {name : ν} (room : (run.call (.reserve name)).storage.size ≤ UInt32.size) :
    (run.call (.reserve name)).Sound where
  storage := sound.storage.after (.reserve name)
  given := sound.eraseDups_given (reserves name run.storage)
  bodies := fun definition => by
    have sets_none : (run.call (.reserve name)).bodies = run.bodies := List.append_nil _
    rw [sets_none, ← sound.bodies]
    exact (reserves name run.storage).body?_eq sound.storage room

theorem define (definition : ModelId) (body : TypeId) :
    (run.call (.define definition body)).Sound where
  storage := sound.storage.after (.define definition body)
  given := by
    have gives_none : (run.call (.define definition body)).given = run.given := List.append_nil _
    rw [gives_none, sound.given]
    exact congrArg List.reverse DefinitionStorage.index_define.symm
  bodies := fun other => by
    by_cases given : run.storage.contains definition = true
    · have sets : (run.call (.define definition body)).bodies
          = run.bodies ++ [(definition, body)] := by
        rw [call, DefinitionCall.bodies, define_fst, if_pos given]
      rw [sets, List.reverse_concat, lookup_cons_eq_ite, ← sound.bodies]
      exact body?_define given
    · have sets_none : (run.call (.define definition body)).bodies = run.bodies := by
        rw [call, DefinitionCall.bodies, define_fst, if_neg given, List.append_nil]
      have same : (run.call (.define definition body)).storage = run.storage :=
        congrArg Prod.snd (DefinitionStorage.define_of_stray given)
      rw [sets_none, same, sound.bodies]

/-- To register a model is to reserve its name and then to set its body. -/
theorem call_register (name : ν) (body : TypeId) :
    run.call (.register name body)
      = (run.call (.reserve name)).call (.define (run.storage.reserve name).1 body) := by
  have given : (run.storage.reserve name).2.contains (run.storage.reserve name).1 = true :=
    (sound.storage.after (.reserve name)).contains_iff.2
      (List.mem_map.2 ⟨_, (reserves name run.storage).mem_index sound.storage, rfl⟩)
  simp only [call, DefinitionCall.after, DefinitionCall.given, DefinitionCall.bodies, define_fst,
    given, if_true, List.append_nil]
  rfl

theorem call (call : DefinitionCall ν) (room : (run.call call).storage.size ≤ UInt32.size) :
    (run.call call).Sound := by
  cases call with
  | reserve name => exact sound.reserve room
  | define definition body => exact sound.define definition body
  | register name body =>
    have between : (run.call (.reserve name)).storage.size ≤ UInt32.size :=
      DefinitionStorage.size_define ▸ room
    rw [sound.call_register]
    exact (sound.reserve between).define _ _

end Sound

theorem suffix_index_calls (run : DefinitionRun ν) (calls : List (DefinitionCall ν)) :
    run.storage.index <:+ (calls.foldl call run).storage.index := by
  induction calls generalizing run with
  | nil => exact List.suffix_rfl
  | cons first rest ih =>
    exact (DefinitionStorage.suffix_index_after run.storage first).trans (ih (run.call first))

/-- Where a name stands as its number, there is a handle for each. -/
theorem Sound.calls {run : DefinitionRun UInt32} (sound : run.Sound)
    (calls : List (DefinitionCall UInt32)) : (calls.foldl DefinitionRun.call run).Sound := by
  induction calls generalizing run with
  | nil => exact sound
  | cons first rest ih => exact ih (sound.call first (sound.storage.after first).size_le)

/-! ## At any time -/

/-- What there is to say of a storage of named models, whatever calls were made before. -/
structure Standing (run : DefinitionRun UInt32) : Prop where
  /-- The two maps are inverse to each other. -/
  find?_iff : ∀ name definition, run.storage.find? name = some definition
    ↔ run.storage.name? definition = some name
  /-- The handles that were given out, in order, are those from one to the number of names. -/
  handles : (run.given.map Prod.snd).eraseDups = (List.range' 1 run.storage.size).map handle
  /-- The names that were reserved, in order, have these handles. -/
  numbered : (run.given.map Prod.fst).eraseDups.map run.storage.find?
    = (List.range' 1 run.storage.size).map fun number => some (handle number)
  contains_iff : ∀ definition, run.storage.contains definition = true
    ↔ definition ∈ run.given.map Prod.snd
  /-- Only where every name there is was reserved, the last handle is zero. -/
  contains_iff_le : run.storage.size < UInt32.size → ∀ definition,
    run.storage.contains definition = true
      ↔ 1 ≤ definition.index ∧ definition.index ≤ run.storage.size
  /-- A name has the handle that it was given. -/
  find?_given : ∀ name definition, (name, definition) ∈ run.given →
    run.storage.find? name = some definition
  /-- A handle never changes its name. -/
  name?_kept : ∀ (later : List (DefinitionCall UInt32)) name definition,
    run.storage.name? definition = some name →
      (later.foldl call run).storage.name? definition = some name
  /-- The body of a model is what was last set for it, if anything was. -/
  body?_eq : ∀ definition, run.storage.body? definition = run.bodies.reverse.lookup definition
  /-- To reserve a name, new or again, sets no body and clears none. -/
  body?_reserve : ∀ name definition,
    (run.storage.reserve name).2.body? definition = run.storage.body? definition
  /-- A body is set exactly for a handle that was given out. -/
  define_iff : ∀ definition body, (run.storage.define definition body).1 = true
    ↔ definition ∈ run.given.map Prod.snd
  /-- For any other one nothing changes. -/
  define_stray : ∀ definition body, definition ∉ run.given.map Prod.snd →
    run.storage.define definition body = (false, run.storage)

theorem Sound.standing {run : DefinitionRun UInt32} (sound : run.Sound) : run.Standing := by
  have room := sound.storage.size_le
  constructor
  case find?_iff => exact fun name definition => sound.storage.find?_iff_name? room
  case handles =>
    rw [sound.eraseDups_map_given (sound.storage.nodup_handles room), sound.storage.counted]
  case numbered =>
    have found : run.storage.index.map (run.storage.find? ∘ Prod.fst)
        = run.storage.index.map (some ∘ Prod.snd) :=
      List.map_congr_left fun pair mem => sound.storage.find?_eq_some_iff.2 mem
    rw [sound.eraseDups_map_given sound.storage.distinct, List.map_reverse, List.map_map, found,
      ← List.map_map, ← List.map_reverse, sound.storage.counted, List.map_map]
    rfl
  case contains_iff => exact sound.contains_iff
  case contains_iff_le => exact fun inside definition => sound.storage.contains_iff_le inside
  case find?_given =>
    exact fun name definition mem => sound.storage.find?_eq_some_iff.2 (sound.mem_given_iff.1 mem)
  case name?_kept =>
    intro later name definition named
    have mem := (sound.storage.name?_eq_some_iff room).1 named
    have sound' := (sound.calls later).storage
    exact (sound'.name?_eq_some_iff sound'.size_le).2 ((suffix_index_calls run later).subset mem)
  case body?_eq => exact sound.bodies
  case body?_reserve =>
    intro name definition
    have room' := (sound.storage.after (.reserve name)).size_le
    exact (reserves name run.storage).body?_eq sound.storage room'
  case define_iff =>
    intro definition body
    rw [define_fst, sound.contains_iff]
  case define_stray =>
    intro definition body stray
    exact DefinitionStorage.define_of_stray (mt (sound.contains_iff definition).1 stray)

/-- Whatever calls are made, the two maps are inverse to each other, and the handles that are given
out count from one in the order in which names are first reserved.  A handle never changes its name,
and its body is what was last set for it.  To reserve a name again clears no body, and to define a
model whose handle was not given out is refused and changes nothing. -/
theorem standing_of_calls (calls : List (DefinitionCall UInt32)) :
    (calls.foldl call start).Standing :=
  (sound_start.calls calls).standing

-- A body comes too early, a name is reserved again, and a model is defined twice.
example :
    let run : DefinitionRun UInt32 := [.define ⟨1⟩ ⟨5⟩, .reserve 14, .register 15 ⟨6⟩, .reserve 14,
      .define ⟨1⟩ ⟨7⟩, .register 15 ⟨8⟩].foldl call start
    run.given = [(14, ⟨1⟩), (15, ⟨2⟩), (14, ⟨1⟩), (15, ⟨2⟩)]
      ∧ run.bodies = [(⟨2⟩, ⟨6⟩), (⟨1⟩, ⟨7⟩), (⟨2⟩, ⟨8⟩)]
      ∧ run.storage.body? ⟨1⟩ = some ⟨7⟩ ∧ run.storage.body? ⟨2⟩ = some ⟨8⟩ := by
  decide

/-! ## Named models in general -/

theorem size_le_calls (sound : run.storage.Sound) (calls : List (DefinitionCall ν)) :
    run.storage.size ≤ (calls.foldl call run).storage.size := by
  induction calls generalizing run with
  | nil => exact Nat.le_refl _
  | cons first rest ih =>
    have sound' : (run.call first).storage.Sound := sound.after first
    exact (sound.size_le_after first).trans (ih sound')

/-- While there are numbers left, the models that are stored after calls are those that the same
calls make of the models that were stored before. -/
theorem models_calls {text : ν → String} (apart : text.Injective) (sound : run.storage.Sound)
    (calls : List (DefinitionCall ν))
    (inside : (calls.foldl call run).storage.size < UInt32.size) :
    (calls.foldl call run).storage.models text
      = calls.foldl (fun models call => call.afterModels text models)
        (run.storage.models text) := by
  induction calls generalizing run with
  | nil => rfl
  | cons first rest ih =>
    have sound' : (run.call first).storage.Sound := sound.after first
    have first_inside := Nat.lt_of_le_of_lt (size_le_calls sound' rest) inside
    have models : (run.call first).storage.models text
        = first.afterModels text (run.storage.models text) :=
      sound.models_after apart first first_inside
    rw [List.foldl_cons, List.foldl_cons, ih sound' inside, models]

end DefinitionRun

end ModelForms
