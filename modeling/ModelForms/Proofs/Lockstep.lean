import ModelForms.Proofs.Runs

/-!
# Runs side by side

Two computations that keep a state and may fail run in lockstep if, from states that are related,
they either both succeed with related results or both fail with one error, and leave states that are
related again.  The relation of states is an invariant.  Each way of putting computations together
has a rule, so a proof about two runs follows the text that both of them have in common.
-/

namespace ModelForms

variable {ε σ α β α' β' : Type}

/-- Two runs end in the same way: with related results or with one error, and in related states. -/
inductive EndAlike (states : σ → σ → Prop) (results : α → β → Prop) :
    Except ε α × σ → Except ε β × σ → Prop
  | ok {a : α} {b : β} {s t : σ} (alike : results a b) (abreast : states s t) :
      EndAlike states results (.ok a, s) (.ok b, t)
  | error {e : ε} {s t : σ} (abreast : states s t) :
      EndAlike states results (.error e, s) (.error e, t)

namespace EndAlike

variable {states : σ → σ → Prop} {results : α → β → Prop} {left : Except ε α × σ}
  {right : Except ε β × σ}

/-- The states in which the runs end are related, whether the runs fail or not. -/
theorem abreast (h : EndAlike states results left right) : states left.2 right.2 := by
  cases h with
  | ok _ abreast => exact abreast
  | error abreast => exact abreast

end EndAlike

/-- Two computations end in the same way wherever they start abreast. -/
def Lockstep (states : σ → σ → Prop) (results : α → β → Prop) (left : ExceptT ε (StateM σ) α)
    (right : ExceptT ε (StateM σ) β) : Prop :=
  ∀ ⦃s t : σ⦄, states s t → EndAlike states results (left.run.run s) (right.run.run t)

namespace Lockstep

variable {states : σ → σ → Prop} {results : α → β → Prop} {others : α' → β' → Prop}
  {left : ExceptT ε (StateM σ) α} {right : ExceptT ε (StateM σ) β}

theorem pure {a : α} {b : β} (alike : results a b) :
    Lockstep states results (Pure.pure a : ExceptT ε (StateM σ) α)
      (Pure.pure b : ExceptT ε (StateM σ) β) :=
  fun _ _ abreast => .ok alike abreast

theorem throw (e : ε) :
    Lockstep states results (MonadExcept.throw e : ExceptT ε (StateM σ) α)
      (MonadExcept.throw e : ExceptT ε (StateM σ) β) :=
  fun _ _ abreast => .error abreast

/-- An error that is read off the state is one error if the states agree on it. -/
theorem throwOf {f : σ → ε} (same : ∀ s t, states s t → f s = f t) :
    Lockstep states results (get >>= fun s => MonadExcept.throw (f s) : ExceptT ε (StateM σ) α)
      (get >>= fun t => MonadExcept.throw (f t) : ExceptT ε (StateM σ) β) := by
  intro s t abreast
  show EndAlike states results (.error (f s), s) (.error (f t), t)
  rw [same s t abreast]
  exact .error abreast

theorem modifyGet {f g : σ → α × σ}
    (keeps : ∀ s t, states s t → (f s).1 = (g t).1 ∧ states (f s).2 (g t).2) :
    Lockstep states Eq (MonadStateOf.modifyGet f : ExceptT ε (StateM σ) α)
      (MonadStateOf.modifyGet g : ExceptT ε (StateM σ) α) :=
  fun s t abreast => .ok (keeps s t abreast).1 (keeps s t abreast).2

theorem bind (h : Lockstep states results left right) {next : α → ExceptT ε (StateM σ) α'}
    {next' : β → ExceptT ε (StateM σ) β'}
    (rest : ∀ a b, results a b → Lockstep states others (next a) (next' b)) :
    Lockstep states others (left >>= next) (right >>= next') := by
  intro s t abreast
  rw [run_bind, run_bind]
  have first := h abreast
  generalize left.run.run s = outcome at first ⊢
  generalize right.run.run t = outcome' at first ⊢
  cases first with
  | ok alike abreast => exact rest _ _ alike abreast
  | error abreast => exact .error abreast

end Lockstep

end ModelForms
