import Mathlib

/-!
# `Lib.Run` — runs of a partial step function and the invariant rule

A system is a step function `step : σ → α → Option σ`: an action either yields the next state or is not
possible there (`none`: the caller's contract excludes it, or the machine stops). `Reach` collects the
states some run visits when every action it takes meets a guard `ok`; with the trivial guard these are all
reachable states. `exec` runs a list of actions, for witnesses and for statements over call sequences. Total systems
are folded, and related to an abstract system by `foldl_simulates`.
-/

namespace OxideOs.Run

variable {σ α : Type _}

/-- The states visited by runs from `Init` whose every action is allowed by `ok` where it is taken. -/
inductive Reach (step : σ → α → Option σ) (ok : σ → α → Prop) (Init : σ → Prop) : σ → Prop where
  | start {s} : Init s → Reach step ok Init s
  | next {s s' a} : Reach step ok Init s → ok s a → step s a = some s' → Reach step ok Init s'

variable {step : σ → α → Option σ} {ok : σ → α → Prop} {Init : σ → Prop}

variable {s s' : σ}

/-- **The invariant rule.** What holds initially and survives every allowed action holds in every state a
    run visits. -/
theorem Reach.invariant (Inv : σ → Prop) (h0 : ∀ s, Init s → Inv s)
    (hstep : ∀ s a s', Inv s → ok s a → step s a = some s' → Inv s') (h : Reach step ok Init s) : Inv s := by
  induction h with
  | start hs => exact h0 _ hs
  | next _ hok hs ih => exact hstep _ _ _ ih hok hs

/-- The states some run from `s` visits. -/
def Steps (step : σ → α → Option σ) (ok : σ → α → Prop) (s s' : σ) : Prop := Reach step ok (fun t => t = s) s'

theorem Steps.refl (s : σ) : Steps step ok s s := Reach.start rfl

theorem Steps.single (a : α) (hok : ok s a) (h : step s a = some s') : Steps step ok s s' := (refl s).next hok h

theorem Reach.trans (h : Reach step ok Init s) (h' : Steps step ok s s') : Reach step ok Init s' := by
  induction h' with
  | start hs => exact hs ▸ h
  | next _ hok hs ih => exact ih.next hok hs

theorem Steps.trans {s'' : σ} (h : Steps step ok s s') (h' : Steps step ok s' s'') :
    Steps step ok s s'' := Reach.trans h h'

/-- What is allowed by a stronger guard is allowed by a weaker one. -/
theorem Steps.mono {ok' : σ → α → Prop} (h : Steps step ok s s') (hok : ∀ t a, ok t a → ok' t a) :
    Steps step ok' s s' := by
  induction h with
  | start hs => exact Reach.start hs
  | next _ ha hs ih => exact Reach.next ih (hok _ _ ha) hs

/-- The invariant rule for a run from one state. -/
theorem Steps.invariant (Inv : σ → Prop) (hstep : ∀ s a s', Inv s → ok s a → step s a = some s' → Inv s')
    (h : Steps step ok s s') (h0 : Inv s) : Inv s' := by
  refine Reach.invariant Inv ?_ hstep h
  rintro t rfl
  exact h0

/-- Run a list of actions; `none` as soon as one of them is not allowed, or not possible. -/
def exec (step : σ → α → Option σ) (ok : σ → α → Prop) [∀ s a, Decidable (ok s a)] : σ → List α → Option σ
  | s, [] => some s
  | s, a :: as => if ok s a then (step s a).bind (fun s' => exec step ok s' as) else none

/-- A completed run from a reached state ends in a reached state. -/
theorem Reach.exec [∀ s a, Decidable (ok s a)] {as : List α} (h : Reach step ok Init s)
    (he : Run.exec step ok s as = some s') : Reach step ok Init s' := by
  induction as generalizing s with
  | nil =>
    simp only [exec, Option.some.injEq] at he
    exact he ▸ h
  | cons a as ih =>
    unfold exec at he
    split at he
    next hok =>
      obtain ⟨s1, h1, h2⟩ := Option.bind_eq_some_iff.mp he
      exact ih (h.next hok h1) h2
    · cases he

/-- A computation whose result passes a test. -/
theorem exists_of_any {o : Option σ} {p : σ → Prop} [DecidablePred p] (h : o.any p = true) : ∃ s, o = some s ∧ p s := by
  simpa [Option.any_eq_true] using h

/-- Two computations, the second from the result of the first. -/
theorem exists_two_of_any {τ : Type _} {o : Option σ} {f : σ → Option τ} {p : σ → Prop} {q : σ → τ → Prop}
    [DecidablePred p] [∀ s, DecidablePred (q s)] (h : o.any (fun s => decide (p s ∧ (f s).any (q s) = true)) = true) :
    ∃ s t, o = some s ∧ p s ∧ f s = some t ∧ q s t := by
  obtain ⟨s, hs, hp, h⟩ := exists_of_any h
  obtain ⟨t, ht, hq⟩ := exists_of_any h
  exact ⟨s, t, hs, hp, ht, hq⟩

/-- A run from an initial state whose end passes a test. -/
theorem Reach.exists_exec [∀ s a, Decidable (ok s a)] {p : σ → Prop} [DecidablePred p] (as : List α) (h0 : Init s)
    (h : (Run.exec step ok s as).any p = true) : ∃ s, Reach step ok Init s ∧ p s := by
  obtain ⟨s', he, hp⟩ := exists_of_any h
  exact ⟨s', (start h0).exec he, hp⟩

/-- **The simulation rule** for total systems. A relation that holds initially and is kept by matching
    steps holds after every sequence of actions. -/
theorem foldl_simulates {τ : Type _} {impl : σ → α → σ} {spec : τ → α → τ} {R : σ → τ → Prop}
    (hstep : ∀ s t a, R s t → R (impl s a) (spec t a)) {t : τ} (h : R s t) (as : List α) :
    R (as.foldl impl s) (as.foldl spec t) := by
  induction as generalizing s t with
  | nil => exact h
  | cons a as ih => exact ih (hstep s t a h)

end OxideOs.Run
