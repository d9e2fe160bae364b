/-!
# Runs

A computation that keeps a state and may fail gives a result and a state, or it fails.  `Gives` says
that it succeeds, and the lemmas take a run apart along the way the computation is written.
`Settles` says what a run comes to in either case, and has one rule for each way of putting
computations together.  `Ends` does the same where it counts which state a failure leaves.
-/

namespace ModelForms

variable {ε σ α β : Type} {state after : σ}

/-- A computation succeeds with a result and a state. -/
def Gives (action : ExceptT ε (StateM σ) α) (state : σ) (result : α) (after : σ) : Prop :=
  action.run.run state = (.ok result, after)

theorem gives_pure_iff {a result : α} :
    Gives (pure a : ExceptT ε (StateM σ) α) state result after ↔ result = a ∧ after = state := by
  show ((Except.ok a, state) : Except ε α × σ) = _ ↔ _
  simp [eq_comm]

theorem not_gives_throw {error : ε} {result : α} :
    ¬ Gives (throw error : ExceptT ε (StateM σ) α) state result after := by
  show ((Except.error error, state) : Except ε α × σ) ≠ _
  simp

theorem run_bind (action : ExceptT ε (StateM σ) α) (next : α → ExceptT ε (StateM σ) β)
    (state : σ) :
    (action >>= next).run.run state =
      match action.run.run state with
      | (.ok a, middle) => (next a).run.run middle
      | (.error error, middle) => (.error error, middle) := by
  rw [ExceptT.run_bind, StateT.run_bind]
  cases action.run.run state with
  | mk outcome middle => cases outcome <;> rfl

theorem gives_bind_iff {action : ExceptT ε (StateM σ) α} {next : α → ExceptT ε (StateM σ) β}
    {result : β} :
    Gives (action >>= next) state result after
      ↔ ∃ a middle, Gives action state a middle ∧ Gives (next a) middle result after := by
  unfold Gives
  rw [run_bind]
  cases action.run.run state with
  | mk outcome middle =>
    cases outcome with
    | ok a =>
      constructor
      · exact fun h => ⟨a, middle, rfl, h⟩
      · rintro ⟨_, _, h, h'⟩
        cases h
        exact h'
    | error error =>
      constructor
      · intro h
        cases h
      · rintro ⟨_, _, h, _⟩
        cases h

theorem not_gives_throw_bind {error : ε} {next : α → ExceptT ε (StateM σ) β} {result : β} :
    ¬ Gives (throw error >>= next) state result after := by
  rw [gives_bind_iff]
  rintro ⟨_, _, throws, _⟩
  exact not_gives_throw throws

theorem gives_modifyGet_iff {f : σ → α × σ} {result : α} :
    Gives (modifyGet f : ExceptT ε (StateM σ) α) state result after
      ↔ result = (f state).1 ∧ after = (f state).2 := by
  show ((Except.ok (f state).1, (f state).2) : Except ε α × σ) = _ ↔ _
  rw [Prod.mk.injEq, Except.ok.injEq, eq_comm, @eq_comm _ (f state).2]

theorem gives_modifyGet_bind_iff {f : σ → α × σ} {next : α → ExceptT ε (StateM σ) β} {result : β} :
    Gives (modifyGet f >>= next) state result after
      ↔ Gives (next (f state).1) (f state).2 result after :=
  Iff.rfl

theorem gives_forM_cons_iff {step : α → ExceptT ε (StateM σ) PUnit} {first : α} {rest : List α} :
    Gives ((first :: rest).forM step) state ⟨⟩ after
      ↔ ∃ middle, Gives (step first) state ⟨⟩ middle ∧ Gives (rest.forM step) middle ⟨⟩ after := by
  show Gives (step first >>= fun _ => rest.forM step) state ⟨⟩ after ↔ _
  rw [gives_bind_iff]
  exact ⟨fun ⟨_, middle, h⟩ => ⟨middle, h⟩, fun ⟨middle, h⟩ => ⟨_, middle, h⟩⟩

theorem gives_mapM_cons_iff {step : α → ExceptT ε (StateM σ) β} {first : α} {rest : List α}
    {results : List β} :
    Gives ((first :: rest).mapM step) state results after
      ↔ ∃ b middle others, Gives (step first) state b middle
        ∧ Gives (rest.mapM step) middle others after ∧ results = b :: others := by
  rw [List.mapM_cons, gives_bind_iff]
  constructor
  · rintro ⟨b, middle, gives, h⟩
    obtain ⟨others, _, more, last⟩ := gives_bind_iff.1 h
    obtain ⟨rfl, rfl⟩ := gives_pure_iff.1 last
    exact ⟨b, middle, others, gives, more, rfl⟩
  · rintro ⟨b, middle, others, gives, more, rfl⟩
    exact ⟨b, middle, gives, gives_bind_iff.2 ⟨others, _, more, gives_pure_iff.2 ⟨rfl, rfl⟩⟩⟩

/-! ## Either outcome -/

/-- A computation succeeds with what is good, or fails with what is bad. -/
def Settles (action : ExceptT ε (StateM σ) α) (state : σ) (good : α → σ → Prop) (bad : ε → Prop) :
    Prop :=
  match action.run.run state with
  | (.ok result, after) => good result after
  | (.error error, _) => bad error

section

variable {action : ExceptT ε (StateM σ) α} {good : α → σ → Prop} {bad : ε → Prop}

theorem Settles.of_gives {result : α} (h : Settles action state good bad)
    (gives : Gives action state result after) : good result after := by
  unfold Settles at h
  rw [show action.run.run state = _ from gives] at h
  exact h

theorem Settles.of_fails {error : ε} (h : Settles action state good bad)
    (fails : action.run.run state = (.error error, after)) : bad error := by
  unfold Settles at h
  rw [fails] at h
  exact h

theorem Settles.imp {good' : α → σ → Prop} {bad' : ε → Prop} (h : Settles action state good bad)
    (succeeds : ∀ result after, good result after → good' result after)
    (fails : ∀ error, bad error → bad' error) : Settles action state good' bad' := by
  unfold Settles at h ⊢
  split at h
  next result after _ => exact succeeds result after h
  next error _ _ => exact fails error h

/-- What is good of a result is good of one that the computation gives. -/
theorem Settles.and_gives (h : Settles action state good bad) :
    Settles action state (fun result after => good result after ∧ Gives action state result after)
      bad := by
  unfold Settles at h ⊢
  split at h
  next run => exact ⟨h, run⟩
  next => exact h

theorem Settles.and {good' : α → σ → Prop} {bad' : ε → Prop} (h : Settles action state good bad)
    (h' : Settles action state good' bad') :
    Settles action state (fun result after => good result after ∧ good' result after)
      fun error => bad error ∧ bad' error := by
  unfold Settles at h h' ⊢
  split at h
  next run =>
    rw [run] at h'
    exact ⟨h, h'⟩
  next run =>
    rw [run] at h'
    exact ⟨h, h'⟩

theorem settles_pure {result : α} (h : good result state) :
    Settles (pure result) state good bad :=
  h

theorem settles_throw {error : ε} (h : bad error) :
    Settles (throw error : ExceptT ε (StateM σ) α) state good bad :=
  h

theorem settles_throw_bind {error : ε} {next : α → ExceptT ε (StateM σ) β}
    {good : β → σ → Prop} (h : bad error) : Settles (throw error >>= next) state good bad :=
  h

theorem settles_modifyGet {f : σ → α × σ} (h : good (f state).1 (f state).2) :
    Settles (modifyGet f : ExceptT ε (StateM σ) α) state good bad :=
  h

theorem settles_modifyGet_bind_iff {f : σ → α × σ} {next : α → ExceptT ε (StateM σ) β}
    {good : β → σ → Prop} :
    Settles (modifyGet f >>= next) state good bad
      ↔ Settles (next (f state).1) (f state).2 good bad :=
  Iff.rfl

theorem Settles.bind {next : α → ExceptT ε (StateM σ) β} {bad' : ε → Prop}
    {last : β → σ → Prop} (first : Settles action state good bad)
    (fails : ∀ error, bad error → bad' error)
    (rest : ∀ result middle, good result middle → Settles (next result) middle last bad') :
    Settles (action >>= next) state last bad' := by
  unfold Settles at first
  unfold Settles
  rw [run_bind]
  cases run : action.run.run state with
  | mk outcome middle =>
    rw [run] at first
    cases outcome with
    | ok result => exact rest result middle first
    | error error => exact fails error first

end

/-! ## Either outcome, and the state it leaves -/

/-- A computation succeeds with what is good, or it fails with what is bad, where the state counts
that it leaves. -/
def Ends (action : ExceptT ε (StateM σ) α) (state : σ) (good : α → σ → Prop)
    (bad : ε → σ → Prop) : Prop :=
  match action.run.run state with
  | (.ok result, after) => good result after
  | (.error error, after) => bad error after

section

variable {action : ExceptT ε (StateM σ) α} {good : α → σ → Prop} {bad : ε → σ → Prop}

theorem Ends.of_fails {error : ε} (h : Ends action state good bad)
    (fails : action.run.run state = (.error error, after)) : bad error after := by
  unfold Ends at h
  rw [fails] at h
  exact h

theorem ends_pure {result : α} (h : good result state) : Ends (pure result) state good bad :=
  h

theorem ends_throw {error : ε} (h : bad error state) :
    Ends (throw error : ExceptT ε (StateM σ) α) state good bad :=
  h

theorem Ends.bind {next : α → ExceptT ε (StateM σ) β} {last : β → σ → Prop}
    (first : Ends action state good bad)
    (rest : ∀ result middle, good result middle → Ends (next result) middle last bad) :
    Ends (action >>= next) state last bad := by
  unfold Ends at first
  unfold Ends
  rw [run_bind]
  cases run : action.run.run state with
  | mk outcome middle =>
    rw [run] at first
    cases outcome with
    | ok result => exact rest result middle first
    | error error => exact first

end

end ModelForms
