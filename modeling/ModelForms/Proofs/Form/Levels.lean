import ModelForms.Proofs.Form.Inhabitation

/-!
# Matching over levels

`Catalog.InhabitsWithin` is the relation of values and types over a number of levels: each step
into a value, into a member of a union and from a reference to its model takes one.  More levels
have more values (`InhabitsWithin.mono`), and over any number of them a value is one of its type
(`InhabitsWithin.inhabits`).

Matching decides it.  What an action answers depends on the levels that the counter has left and on
nothing else of the state, and the action leaves as many as it found (`Matching.Answers`).  So the
recursion of matching, which goes along a number of its own, stops nothing that the counter allows
(`Matching.answers_value`), and acceptance is the relation at the levels of a whole match
(`Catalog.accepts_iff`).
-/

namespace ModelForms

namespace Catalog

/-- A value is one of a type if its parts are of the parts of the type. -/
def Suits (catalog : Catalog) (below : Json → TypeId → Prop) (value : Json) (type : TypeId) :
    Prop :=
  match catalog.types.lookup type with
  | none => False
  | some (.intrinsic k) => k.accepts value = true
  | some (.literal literal) => literal.accepts value = true
  | some (.leaf _) => value.isNull = false
  | some (.object properties) =>
      ∃ members : Entries Json, value = .object members
        ∧ (∀ p ∈ properties, (∀ v, members.lookup p.name = some v → below v p.type)
          ∧ (members.lookup p.name = none →
            p.optional = true ∨ catalog.allowsAbsence p.type = true))
        ∧ ∀ name ∈ members.keys, ∃ p ∈ properties, p.name = name
  | some (.array element) => ∃ items, value = .array items ∧ ∀ item ∈ items, below item element
  | some (.union members) => ∃ m ∈ members, below value m
  | some (.reference definition) =>
      ∃ body, catalog.models.body? definition = some body ∧ below value body

/-- A value is one of a type, over some levels. -/
def InhabitsWithin (catalog : Catalog) : (levels : Nat) → Json → TypeId → Prop
  | 0 => fun _ _ => False
  | levels + 1 => catalog.Suits (catalog.InhabitsWithin levels)

section

variable {catalog : Catalog} {below : Json → TypeId → Prop} {value : Json} {type : TypeId}

theorem suits_object_iff {properties : List Property}
    (found : catalog.types.lookup type = some (.object properties)) :
    catalog.Suits below value type ↔ ∃ members : Entries Json, value = .object members
      ∧ (∀ p ∈ properties, (∀ v, members.lookup p.name = some v → below v p.type)
        ∧ (members.lookup p.name = none →
          p.optional = true ∨ catalog.allowsAbsence p.type = true))
      ∧ ∀ name ∈ members.keys, ∃ p ∈ properties, p.name = name := by
  unfold Suits
  rw [found]

theorem suits_array_iff {element : TypeId}
    (found : catalog.types.lookup type = some (.array element)) :
    catalog.Suits below value type
      ↔ ∃ items, value = .array items ∧ ∀ item ∈ items, below item element := by
  unfold Suits
  rw [found]

theorem suits_union_iff {members : List TypeId}
    (found : catalog.types.lookup type = some (.union members)) :
    catalog.Suits below value type ↔ ∃ m ∈ members, below value m := by
  unfold Suits
  rw [found]

theorem suits_reference_iff {definition : ModelId} {body : TypeId}
    (found : catalog.types.lookup type = some (.reference definition))
    (defined : catalog.models.body? definition = some body) :
    catalog.Suits below value type ↔ below value body := by
  unfold Suits
  rw [found]
  simp [defined]

theorem Suits.mono {other : Json → TypeId → Prop} (weaker : ∀ v t, below v t → other v t)
    (h : catalog.Suits below value type) : catalog.Suits other value type := by
  unfold Suits at h ⊢
  cases found : catalog.types.lookup type with
  | none =>
    rw [found] at h
    exact h
  | some entry =>
    rw [found] at h
    cases entry with
    | intrinsic | literal | leaf => exact h
    | object properties =>
      obtain ⟨members, rfl, suits, declared⟩ := h
      exact ⟨members, rfl, fun p hp => (suits p hp).imp_left fun h v hv => weaker v _ (h v hv),
        declared⟩
    | array element =>
      obtain ⟨items, rfl, suits⟩ := h
      exact ⟨items, rfl, fun item hitem => weaker item element (suits item hitem)⟩
    | union members =>
      obtain ⟨m, hm, suits⟩ := h
      exact ⟨m, hm, weaker value m suits⟩
    | reference definition =>
      obtain ⟨body, defined, suits⟩ := h
      exact ⟨body, defined, weaker value body suits⟩

theorem InhabitsWithin.mono {levels more : Nat} (le : levels ≤ more)
    (h : catalog.InhabitsWithin levels value type) : catalog.InhabitsWithin more value type := by
  induction levels generalizing more value type with
  | zero => exact h.elim
  | succ levels ih =>
    obtain ⟨more, rfl⟩ : ∃ n, more = n + 1 := ⟨more - 1, by omega⟩
    exact Suits.mono (fun v t h => ih (by omega) h) h

/-- If what parts suit are values of theirs, what a type suits are values of it. -/
theorem Suits.inhabits (sound : ∀ v t, below v t → Inhabits catalog v t)
    (h : catalog.Suits below value type) : Inhabits catalog value type := by
  unfold Suits at h
  cases found : catalog.types.lookup type with
  | none =>
    rw [found] at h
    exact h.elim
  | some entry =>
    rw [found] at h
    cases entry with
    | intrinsic k => exact .intrinsic found h
    | literal literal => exact .literal found h
    | leaf name => exact .leaf found h
    | object properties =>
      obtain ⟨members, rfl, suits, declared⟩ := h
      exact .object found (fun p hp v hv => sound v p.type ((suits p hp).1 v hv))
        (fun p hp => (suits p hp).2) declared
    | array element =>
      obtain ⟨items, rfl, suits⟩ := h
      exact .array found fun item hitem => sound item element (suits item hitem)
    | union members =>
      obtain ⟨m, hm, suits⟩ := h
      exact .union found hm (sound value m suits)
    | reference definition =>
      obtain ⟨body, defined, suits⟩ := h
      exact .reference found defined (sound value body suits)

theorem InhabitsWithin.inhabits {levels : Nat} (h : catalog.InhabitsWithin levels value type) :
    Inhabits catalog value type := by
  induction levels generalizing value type with
  | zero => exact h.elim
  | succ levels ih => exact Suits.inhabits (fun _ _ => ih) h

end

end Catalog

/-! ## Matching decides it -/

namespace Matching

/-- An action answers yes exactly if something holds, whenever the counter has so many levels left,
and leaves the counter where it was. -/
def Answers (action : Matching Bool) (left : Nat) (holds : Prop) : Prop :=
  ∀ state : MatchState, state.depth.maxLevel = state.depth.level + left →
    ((action state).1 = true ↔ holds) ∧ (action state).2.depth.level = state.depth.level
      ∧ (action state).2.depth.maxLevel = state.depth.maxLevel

section

variable {left : Nat} {first second action : Matching Bool} {holds also : Prop}

theorem answers_pure (b : Bool) : Answers (pure b) left (b = true) :=
  fun _ _ => ⟨Iff.rfl, rfl, rfl⟩

theorem Answers.congr (same : holds ↔ also) (h : Answers action left holds) :
    Answers action left also :=
  fun state room => ⟨(h state room).1.trans same, (h state room).2⟩

/-- An action that goes on with another one only after a yes. -/
theorem Answers.andThen (h : Answers first left holds) (h' : Answers second left also)
    (run : ∀ state, action state =
      match first state with
      | (true, state') => second state'
      | (false, state') => (false, state')) : Answers action left (holds ∧ also) := by
  intro state room
  obtain ⟨answer, level, maxLevel⟩ := h state room
  rw [run]
  cases outcome : first state with
  | mk yes state' =>
  rw [outcome] at answer level maxLevel
  cases yes with
  | false => exact ⟨by simp [← answer], level, maxLevel⟩
  | true =>
    obtain ⟨answer', level', maxLevel'⟩ := h' state' (by rw [level, maxLevel]; exact room)
    exact ⟨by simp [← answer, ← answer'], level'.trans level, maxLevel'.trans maxLevel⟩

/-- An action that goes on with another one only after a no. -/
theorem Answers.orElse (h : Answers first left holds) (h' : Answers second left also)
    (run : ∀ state, action state =
      match first state with
      | (true, state') => (true, state')
      | (false, state') => second state') : Answers action left (holds ∨ also) := by
  intro state room
  obtain ⟨answer, level, maxLevel⟩ := h state room
  rw [run]
  cases outcome : first state with
  | mk yes state' =>
  rw [outcome] at answer level maxLevel
  cases yes with
  | true => exact ⟨by simp [← answer], level, maxLevel⟩
  | false =>
    obtain ⟨answer', level', maxLevel'⟩ := h' state' (by rw [level, maxLevel]; exact room)
    exact ⟨by simp [← answer, ← answer'], level'.trans level, maxLevel'.trans maxLevel⟩

theorem answers_allM {α : Type} {p : α → Matching Bool} {q : α → Prop} :
    ∀ {xs : List α}, (∀ x ∈ xs, Answers (p x) left (q x)) →
      Answers (xs.allM p) left (∀ x ∈ xs, q x)
  | [], _ => (answers_pure true).congr (by simp)
  | x :: rest, h => by
    have here := h x List.mem_cons_self
    have there := answers_allM fun y hy => h y (List.mem_cons_of_mem x hy)
    refine (here.andThen there fun state => ?_).congr List.forall_mem_cons.symm
    show (match (p x state).1 with
      | true => rest.allM p
      | false => (pure false : Matching Bool)) (p x state).2 = _
    cases p x state with
    | mk yes state' => cases yes <;> rfl

theorem answers_anyM {α : Type} {p : α → Matching Bool} {q : α → Prop} :
    ∀ {xs : List α}, (∀ x ∈ xs, Answers (p x) left (q x)) →
      Answers (xs.anyM p) left (∃ x ∈ xs, q x)
  | [], _ => (answers_pure false).congr (by simp)
  | x :: rest, h => by
    have here := h x List.mem_cons_self
    have there := answers_anyM fun y hy => h y (List.mem_cons_of_mem x hy)
    refine (here.orElse there fun state => ?_).congr (by simp)
    show (match (p x state).1 with
      | true => (pure true : Matching Bool)
      | false => rest.anyM p) (p x state).2 = _
    cases p x state with
    | mk yes state' => cases yes <;> rfl

theorem withinLevel_eq (action : Matching Bool) (state : MatchState) :
    withinLevel action state =
      if state.depth.enter.1 then
        let (answer, after) := action { state with depth := state.depth.enter.2 }
        (answer, { after with depth := after.depth.leave })
      else (false, { state with depth := state.depth.enter.2 }) := by
  show (if state.depth.enter.1 then _ else _ : Matching Bool) _ = _
  split <;> rfl

/-- One level further in, one level fewer is left. -/
theorem Answers.withinLevel (h : Answers action left holds) :
    Answers (withinLevel action) (left + 1) holds := by
  intro state room
  have allow : state.depth.enter
      = (true, { state.depth with level := state.depth.level + 1 }) := by
    simp [Depth.enter, room]
  have room' : state.depth.maxLevel = state.depth.level + 1 + left := by omega
  obtain ⟨answer, level, maxLevel⟩ :=
    h { state with depth := { state.depth with level := state.depth.level + 1 } } room'
  rw [withinLevel_eq, allow]
  refine ⟨answer, ?_, maxLevel⟩
  show (action _).2.depth.level - 1 = _
  rw [level]
  exact Nat.add_sub_cancel state.depth.level 1

theorem answers_withinLevel_zero : Answers (withinLevel action) 0 False := by
  intro state room
  have deny : state.depth.enter = (false, { state.depth with exceeded := true }) := by
    simp [Depth.enter, room]
  rw [withinLevel_eq, deny]
  exact ⟨by simp, rfl, rfl⟩

end

section

variable {catalog : Catalog} {below : Json → TypeId → Matching Bool} {left : Nat}
  {inner : Json → TypeId → Prop}

theorem answers_property (answers : ∀ v t, Answers (below v t) left (inner v t))
    {members : Entries Json} (p : Property) :
    Answers (property catalog below members p) left
      ((∀ v, members.lookup p.name = some v → inner v p.type)
        ∧ (members.lookup p.name = none →
          p.optional = true ∨ catalog.allowsAbsence p.type = true)) := by
  unfold property
  cases found : members.lookup p.name with
  | none => exact (answers_pure _).congr (by simp)
  | some v => exact (answers v p.type).congr (by simp)

theorem answers_isDeclared {properties : List Property} (name : String) :
    Answers (isDeclared properties name) left (∃ p ∈ properties, p.name = name) := by
  intro state _
  have run : (isDeclared properties name state).1 = properties.any (·.name == name) := rfl
  exact ⟨by simp [run], rfl, rfl⟩

theorem answers_object (answers : ∀ v t, Answers (below v t) left (inner v t))
    {members : Entries Json} {properties : List Property} :
    Answers (object catalog below members properties) left
      ((∀ p ∈ properties, (∀ v, members.lookup p.name = some v → inner v p.type)
          ∧ (members.lookup p.name = none →
            p.optional = true ∨ catalog.allowsAbsence p.type = true))
        ∧ ∀ name ∈ members.keys, ∃ p ∈ properties, p.name = name) := by
  refine (answers_allM fun p _ => answers_property answers p).andThen
    (answers_allM fun name _ => answers_isDeclared name) fun state => ?_
  show (if (properties.allM (property catalog below members) state).1 then
      members.keys.allM (isDeclared properties)
    else (pure false : Matching Bool)) (properties.allM (property catalog below members) state).2
      = _
  cases properties.allM (property catalog below members) state with
  | mk yes state' => cases yes <;> rfl

/-- One step of matching asks for what the values of a type are. -/
theorem answers_valueStep (answers : ∀ v t, Answers (below v t) left (inner v t)) (value : Json)
    (type : TypeId) :
    Answers (valueStep catalog below value type) (left + 1) (catalog.Suits inner value type) := by
  unfold Catalog.Suits
  refine Answers.withinLevel ?_
  cases catalog.types.lookup type with
  | none => exact (answers_pure false).congr (by simp)
  | some entry =>
    cases entry with
    | intrinsic k => exact answers_pure (k.accepts value)
    | literal literal => exact answers_pure (literal.accepts value)
    | leaf name => exact (answers_pure (!value.isNull)).congr (by simp)
    | object properties =>
      cases value with
      | object members => exact (answers_object answers).congr (by simp)
      | null | bool | number | string | array => exact (answers_pure false).congr (by simp)
    | array element =>
      cases value with
      | array items => exact (answers_allM fun item _ => answers item element).congr (by simp)
      | null | bool | number | string | object => exact (answers_pure false).congr (by simp)
    | union members => exact answers_anyM fun m _ => answers value m
    | reference definition =>
      simp only
      cases catalog.models.body? definition with
      | none => exact (answers_pure false).congr (by simp)
      | some body => exact (answers value body).congr (by simp)

/-- Matching asks for what the values of a type are over the levels that are left, if its own
recursion goes on for as long. -/
theorem answers_value : ∀ levels left : Nat, left ≤ levels + 1 → ∀ (value : Json) (type : TypeId),
    Answers (Matching.value catalog levels value type) left
      (catalog.InhabitsWithin left value type)
  | 0, 0, _ | _ + 1, 0, _ => fun _ _ => answers_withinLevel_zero
  | 0, left + 1, bound => by
    obtain rfl : left = 0 := by omega
    exact answers_valueStep fun _ _ => (answers_pure false).congr (by simp [Catalog.InhabitsWithin])
  | levels + 1, left + 1, bound => answers_valueStep (answers_value levels left (by omega))

end

end Matching

namespace Catalog

/-- A type accepts the values that are of it over the levels of a whole match. -/
theorem accepts_iff {catalog : Catalog} {value : Json} {type : TypeId} :
    catalog.accepts value type = true
      ↔ catalog.InhabitsWithin WalkKind.matching.maxDepth value type :=
  (Matching.answers_value _ _ (Nat.le_succ _) value type .start (Nat.zero_add _).symm).1

end Catalog

/-- A value that a type accepts is one of the type. -/
theorem inhabits_of_accepts {catalog : Catalog} {value : Json} {type : TypeId}
    (h : catalog.accepts value type = true) : Inhabits catalog value type :=
  (Catalog.accepts_iff.1 h).inhabits

end ModelForms
