import Mathlib.Data.List.Nodup
import ModelForms.Proofs.FirstOccurrences
import ModelForms.Proofs.Types.Handles
import ModelForms.Types.DefinitionStorage

/-!
# What a definition storage keeps

A reservation either finds its name or adds one entry to each of the two maps
(`DefinitionStorage.Reserves`), and setting a body changes nothing but one definition
(`DefinitionStorage.get?_define`).  So both maps always list the same names with the same handles,
which count from one (`DefinitionStorage.Sound`).  As long as there are numbers for the handles,
the two maps are inverse to each other (`DefinitionStorage.Sound.find?_iff_name?`), and reserving a
name changes no body (`DefinitionStorage.Reserves.body?_eq`).

The storage does what is said of named models in general.  What is read from it, reserved and
defined in it is read from, reserved and defined among the models that are stored
(`DefinitionStorage.Sound.get?_models`, `models_reserve` and `models_define`).
-/

namespace ModelForms

namespace DefinitionStorage

/-! ## Handles -/

/-- The handle with a number.  A number has 32 bits, so the one after the largest is zero. -/
def handle (number : Nat) : ModelId := ⟨(UInt32.ofNat number).toNat⟩

theorem handle_of_lt {number : Nat} (inside : number < UInt32.size) : handle number = ⟨number⟩ :=
  congrArg ModelId.mk (UInt32.toNat_ofNat_of_lt' inside)

/-- Handles are different until the numbers have run out. -/
theorem nodup_handles {count : Nat} (room : count ≤ UInt32.size) :
    ((List.range' 1 count).map handle).Nodup := by
  refine List.Nodup.map_on (fun a ha b hb same => ?_) List.nodup_range'
  obtain ⟨positive, below⟩ := List.mem_range'_1.1 ha
  obtain ⟨positive', below'⟩ := List.mem_range'_1.1 hb
  have indices : a % 2 ^ 32 = b % 2 ^ 32 := by
    simpa only [handle, ModelId.mk.injEq, UInt32.toNat_ofNat'] using same
  have size : UInt32.size = 2 ^ 32 := rfl
  omega

/-! ## One call -/

section

variable {ν : Type} {storage : DefinitionStorage ν} {definition other : ModelId} {body : TypeId}

/-- The names with their handles as the map of the definitions has them. -/
def pairs (storage : DefinitionStorage ν) : List (ν × ModelId) :=
  storage.definitions.map fun entry => (entry.2.name, entry.1)

theorem size_eq_length_pairs (storage : DefinitionStorage ν) :
    storage.size = storage.pairs.length := by
  rw [size, pairs, List.length_map]

theorem keys_definitions (storage : DefinitionStorage ν) :
    storage.definitions.map Prod.fst = storage.pairs.map Prod.snd := by
  rw [pairs, List.map_map]
  rfl

theorem contains_iff_mem_pairs :
    storage.contains definition = true ↔ definition ∈ storage.pairs.map Prod.snd := by
  rw [← keys_definitions]
  exact isSome_lookup_iff

/-- Setting a body changes one definition. -/
theorem get?_define (given : storage.contains definition = true) :
    (storage.define definition body).2.get? other = (storage.get? other).map fun entry =>
      if other = definition then entry.withBody body else entry := by
  unfold define
  rw [if_pos given]
  exact lookup_map_ite definition other (StoredDefinition.withBody body) storage.definitions

theorem body?_define (given : storage.contains definition = true) :
    (storage.define definition body).2.body? other
      = if other = definition then some body else storage.body? other := by
  unfold body?
  rw [get?_define given]
  by_cases same : other = definition
  · subst same
    obtain ⟨entry, found⟩ := Option.isSome_iff_exists.1 given
    simp [found, StoredDefinition.withBody]
  · simp [same]

theorem pairs_define : (storage.define definition body).2.pairs = storage.pairs := by
  unfold define
  split
  next =>
    simp only [pairs, List.map_map]
    refine List.map_congr_left fun entry _ => ?_
    rw [Function.comp_apply]
    split <;> rfl
  next => rfl

theorem index_define : (storage.define definition body).2.index = storage.index := by
  unfold define
  split <;> rfl

theorem next_define : (storage.define definition body).2.next = storage.next := by
  unfold define
  split <;> rfl

theorem size_define : (storage.define definition body).2.size = storage.size := by
  rw [size_eq_length_pairs, pairs_define, ← size_eq_length_pairs]

/-- The call says whether the handle was given out. -/
theorem define_fst : (storage.define definition body).1 = storage.contains definition := by
  unfold define
  split
  next given => exact given.symm
  next stray => exact (Bool.eq_false_iff.2 stray).symm

theorem define_of_stray (stray : ¬ storage.contains definition = true) :
    storage.define definition body = (false, storage) :=
  if_neg stray

end

section

variable {ν : Type} [DecidableEq ν]

/-- The cases of a reservation, with the handle that it gives and the storage that it leaves. -/
inductive Reserves (name : ν) (storage : DefinitionStorage ν) :
    ModelId → DefinitionStorage ν → Prop
  | known {definition : ModelId} (found : storage.find? name = some definition) :
      Reserves name storage definition storage
  | new (absent : storage.find? name = none) :
      Reserves name storage ⟨storage.next.toNat⟩
        { definitions := (⟨storage.next.toNat⟩, ⟨name, none⟩) :: storage.definitions
          index := (name, ⟨storage.next.toNat⟩) :: storage.index
          next := storage.next + 1 }

theorem reserves (name : ν) (storage : DefinitionStorage ν) :
    Reserves name storage (storage.reserve name).1 (storage.reserve name).2 := by
  unfold reserve
  split
  next found => exact .known found
  next absent => exact .new absent

end

/-! ## What calls keep -/

/-- Both maps list the same names with the same handles.  No name comes twice, and the handles count
from one, the next of them being that of the counter. -/
structure Sound {ν : Type} (storage : DefinitionStorage ν) : Prop where
  pairs : storage.pairs = storage.index
  distinct : (storage.index.map Prod.fst).Nodup
  counted : (storage.index.map Prod.snd).reverse = (List.range' 1 storage.size).map handle
  next : storage.next = .ofNat (storage.size + 1)

theorem sound_empty {ν : Type} : (empty : DefinitionStorage ν).Sound :=
  ⟨rfl, List.nodup_nil, rfl, rfl⟩

namespace Sound

section

variable {ν : Type} {storage : DefinitionStorage ν} {definition other : ModelId} {name : ν}
  {body : TypeId} (sound : storage.Sound)

include sound

theorem size_eq : storage.size = storage.index.length := by
  rw [size_eq_length_pairs, sound.pairs]

/-- The handle that the counter gives out. -/
theorem next_eq : (⟨storage.next.toNat⟩ : ModelId) = handle (storage.size + 1) := by
  rw [sound.next, handle]

theorem contains_iff :
    storage.contains definition = true ↔ definition ∈ storage.index.map Prod.snd := by
  rw [contains_iff_mem_pairs, sound.pairs]

theorem contains_iff_le (inside : storage.size < UInt32.size) :
    storage.contains definition = true
      ↔ 1 ≤ definition.index ∧ definition.index ≤ storage.size := by
  rw [sound.contains_iff, ← List.mem_reverse, sound.counted, List.mem_map]
  constructor
  · rintro ⟨number, mem, rfl⟩
    obtain ⟨positive, below⟩ := List.mem_range'_1.1 mem
    rw [handle_of_lt (by omega)]
    exact ⟨positive, Nat.lt_succ_iff.1 (Nat.one_add _ ▸ below)⟩
  · rintro ⟨positive, le⟩
    refine ⟨definition.index, List.mem_range'_1.2 ⟨positive, by omega⟩, ?_⟩
    exact handle_of_lt (by omega)

theorem nodup_handles (room : storage.size ≤ UInt32.size) :
    (storage.index.map Prod.snd).Nodup := by
  rw [← List.nodup_reverse, sound.counted]
  exact DefinitionStorage.nodup_handles room

theorem get?_eq_some_iff (room : storage.size ≤ UInt32.size) {entry : StoredDefinition ν} :
    storage.get? definition = some entry ↔ (definition, entry) ∈ storage.definitions := by
  refine lookup_eq_some_iff_mem ?_
  rw [keys_definitions, sound.pairs]
  exact sound.nodup_handles room

theorem name?_eq_some_iff (room : storage.size ≤ UInt32.size) :
    storage.name? definition = some name ↔ (name, definition) ∈ storage.index := by
  rw [← sound.pairs, name?, Option.map_eq_some_iff, DefinitionStorage.pairs, List.mem_map]
  constructor
  · rintro ⟨entry, found, rfl⟩
    exact ⟨_, (sound.get?_eq_some_iff room).1 found, rfl⟩
  · rintro ⟨⟨d, entry⟩, mem, same⟩
    cases same
    exact ⟨entry, (sound.get?_eq_some_iff room).2 mem, rfl⟩

theorem define : (storage.define definition body).2.Sound where
  pairs := by rw [pairs_define, index_define, sound.pairs]
  distinct := by rw [index_define]; exact sound.distinct
  counted := by rw [index_define, size_define, sound.counted]
  next := by rw [next_define, size_define, sound.next]

end

section

variable {ν : Type} [DecidableEq ν] {storage : DefinitionStorage ν} {definition : ModelId} {name : ν}
  (sound : storage.Sound)

include sound

theorem find?_eq_some_iff :
    storage.find? name = some definition ↔ (name, definition) ∈ storage.index :=
  lookup_eq_some_iff_mem sound.distinct

/-- While handles are different, names and handles lead to each other. -/
theorem find?_iff_name? (room : storage.size ≤ UInt32.size) :
    storage.find? name = some definition ↔ storage.name? definition = some name := by
  rw [sound.find?_eq_some_iff, sound.name?_eq_some_iff room]

end

end Sound

namespace Reserves

variable {ν : Type} [DecidableEq ν] {storage after : DefinitionStorage ν}
  {definition other : ModelId} {name : ν} (reserves : Reserves name storage definition after)

include reserves

theorem sound (sound : storage.Sound) : after.Sound := by
  cases reserves with
  | known => exact sound
  | new absent =>
    have new : name ∉ storage.index.map Prod.fst := lookup_eq_none_iff_notMem.1 absent
    constructor
    case pairs => exact congrArg _ sound.pairs
    case distinct => exact List.nodup_cons.2 ⟨new, sound.distinct⟩
    case counted =>
      rw [List.map_cons, List.reverse_cons, sound.counted, sound.next_eq]
      show _ = (List.range' 1 (storage.size + 1)).map handle
      rw [List.range'_1_concat, List.map_append, Nat.add_comm 1]
      rfl
    case next =>
      show storage.next + 1 = .ofNat (storage.size + 1 + 1)
      rw [sound.next]
      exact (UInt32.ofNat_add (storage.size + 1) 1).symm

theorem suffix_index : storage.index <:+ after.index := by
  cases reserves with
  | known => exact List.suffix_rfl
  | new => exact List.suffix_cons _ _

/-- The name has the handle from then on. -/
theorem mem_index (sound : storage.Sound) : (name, definition) ∈ after.index := by
  cases reserves with
  | known found => exact sound.find?_eq_some_iff.1 found
  | new => exact List.mem_cons_self

/-- A reservation sets no body, and it clears none. -/
theorem body?_eq (sound : storage.Sound) (room : after.size ≤ UInt32.size) :
    after.body? other = storage.body? other := by
  have sound' := reserves.sound sound
  cases reserves with
  | known => rfl
  | new absent =>
    have handles := List.nodup_cons.1 (sound'.nodup_handles room)
    have stray : storage.get? ⟨storage.next.toNat⟩ = none := by
      rw [← Option.not_isSome_iff_eq_none]
      exact fun given => handles.1 (sound.contains_iff.1 given)
    show (List.lookup other (_ :: storage.definitions)).bind StoredDefinition.body = _
    rw [lookup_cons_eq_ite]
    by_cases same : other = ⟨storage.next.toNat⟩
    · rw [if_pos same, same, body?, stray]
      rfl
    · rw [if_neg same]
      rfl

end Reserves

/-! ## The models that are stored -/

namespace Sound

section

variable {ν : Type} {storage : DefinitionStorage ν} {text : ν → String} {definition : ModelId}
  {body : TypeId} (sound : storage.Sound)

include sound

theorem names_models : (storage.models text).names
    = ((storage.index.map Prod.fst).map text).reverse := by
  rw [← sound.pairs]
  simp only [models, Definitions.names, DefinitionStorage.pairs, List.map_reverse, List.map_map]
  rfl

variable (inside : storage.size < UInt32.size)

include inside

/-- The definitions are in the order of their handles. -/
theorem handle_of_getElem? {i : Nat} {entry : ModelId × StoredDefinition ν}
    (found : storage.definitions.reverse[i]? = some entry) : entry.1 = ⟨i + 1⟩ := by
  have keys : storage.definitions.reverse.map Prod.fst
      = (List.range' 1 storage.size).map handle := by
    rw [List.map_reverse, keys_definitions, sound.pairs, sound.counted]
  have below : i < storage.size := by
    obtain ⟨below, -⟩ := List.getElem?_eq_some_iff.1 found
    rwa [List.length_reverse] at below
  have at_i := congrArg (·[i]?) keys
  simp only [List.getElem?_map, found, List.getElem?_range' below, Option.map_some,
    Option.some.injEq, Nat.one_mul] at at_i
  rw [at_i, handle_of_lt (by omega), Nat.add_comm]

theorem get?_eq_getElem? (i : Nat) :
    storage.get? ⟨i + 1⟩ = storage.definitions.reverse[i]?.map Prod.snd := by
  cases found : storage.definitions.reverse[i]? with
  | none =>
    have beyond : storage.size ≤ i := by
      simpa [size] using List.getElem?_eq_none_iff.1 found
    rw [Option.map_none, ← Option.not_isSome_iff_eq_none]
    intro given
    have le := ((sound.contains_iff_le inside).1 given).2
    exact absurd (Nat.lt_of_succ_le le) (Nat.not_lt.2 beyond)
  | some entry =>
    have mem : entry ∈ storage.definitions := List.mem_reverse.1 (List.mem_of_getElem? found)
    rw [Option.map_some, ← sound.handle_of_getElem? inside found]
    exact (sound.get?_eq_some_iff (Nat.le_of_lt inside)).2 mem

theorem get?_models (definition : ModelId) : (storage.models text).get? definition
    = (storage.get? definition).map (StoredDefinition.named text) := by
  obtain ⟨index⟩ := definition
  cases index with
  | zero =>
    have stray : storage.get? ⟨0⟩ = none := by
      rw [← Option.not_isSome_iff_eq_none]
      exact fun given => absurd ((sound.contains_iff_le inside).1 given).1 (Nat.not_succ_le_zero 0)
    rw [stray]
    rfl
  | succ i =>
    rw [sound.get?_eq_getElem? inside]
    show (storage.definitions.reverse.map _)[i]? = _
    rw [List.getElem?_map, Option.map_map]
    rfl

theorem name?_models (definition : ModelId) :
    (storage.models text).name? definition = (storage.name? definition).map text := by
  rw [Definitions.name?, sound.get?_models inside, Option.map_map, name?, Option.map_map]
  rfl

theorem contains_models :
    (storage.models text).contains definition = storage.contains definition := by
  rw [Definitions.contains, sound.get?_models inside, Option.isSome_map]
  rfl

theorem models_define : (storage.models text).define definition body
    = ((storage.define definition body).1, (storage.define definition body).2.models text) := by
  unfold Definitions.define DefinitionStorage.define
  rw [sound.contains_models inside]
  split
  next given =>
    have positive := ((sound.contains_iff_le inside).1 given).1
    refine Prod.ext rfl (congrArg Definitions.mk (List.ext_getElem? fun i => ?_))
    rw [models, List.getElem?_modify, ← List.map_reverse, List.getElem?_map, List.getElem?_map,
      List.getElem?_map]
    cases found : storage.definitions.reverse[i]? with
    | none => rfl
    | some entry =>
      have at_i : definition.index - 1 = i ↔ entry.1 = definition := by
        obtain ⟨index⟩ := definition
        rw [sound.handle_of_getElem? inside found, ModelId.mk.injEq]
        show index - 1 = i ↔ i + 1 = index
        have positive : 1 ≤ index := positive
        omega
      simp only [Option.map_some, Option.map_eq_map, at_i]
      split <;> rfl
  next => rfl

end

/-- Texts that tell the names apart give each model a name of its own. -/
theorem nodup_names_models {ν : Type} {storage : DefinitionStorage ν} {text : ν → String}
    (sound : storage.Sound) (apart : text.Injective) : (storage.models text).names.Nodup := by
  rw [sound.names_models, List.nodup_reverse]
  exact sound.distinct.map apart

section

variable {ν : Type} [DecidableEq ν] {storage : DefinitionStorage ν} {text : ν → String}
  (sound : storage.Sound) (apart : text.Injective)

include sound

include apart

theorem find?_models (inside : storage.size < UInt32.size) (name : ν) :
    (storage.models text).find? (text name) = storage.find? name := by
  have mem_iff : text name ∈ (storage.models text).names ↔ name ∈ storage.index.map Prod.fst := by
    rw [sound.names_models, List.mem_reverse, List.mem_map_of_injective apart]
  cases found : storage.find? name with
  | none =>
    rw [Definitions.find?_eq_none_iff, mem_iff]
    exact lookup_eq_none_iff_notMem.1 found
  | some definition =>
    have mem := sound.find?_eq_some_iff.1 found
    obtain ⟨other, again⟩ :=
      Definitions.exists_find?_of_mem (mem_iff.2 (List.mem_map.2 ⟨_, mem, rfl⟩))
    have named : (storage.models text).name? definition = some (text name) := by
      rw [sound.name?_models inside, (sound.name?_eq_some_iff (Nat.le_of_lt inside)).2 mem,
        Option.map_some]
    rw [again, Definitions.eq_of_name?_eq (sound.nodup_names_models apart) named
      (Definitions.name?_eq_some_of_find? again)]

/-- A name is reserved among the models that are stored as it is in the storage. -/
theorem models_reserve {name : ν} {definition : ModelId} {after : DefinitionStorage ν}
    (reserves : Reserves name storage definition after) (inside : after.size < UInt32.size) :
    (storage.models text).reserve (text name) = (definition, after.models text) := by
  unfold Definitions.reserve
  cases reserves with
  | known found => rw [sound.find?_models apart inside, found]
  | new absent =>
    have next : handle (storage.size + 1) = ⟨storage.size + 1⟩ := handle_of_lt inside
    have same_size : (storage.models text).size = storage.size := by
      simp [models, Definitions.size, size]
    rw [sound.find?_models apart (Nat.lt_of_succ_lt inside), absent]
    simp only [same_size, sound.next_eq, next]
    simp only [models, List.reverse_cons, List.map_append]
    rfl

end

end Sound

end DefinitionStorage

end ModelForms
