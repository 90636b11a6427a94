import Mathlib.Data.List.Basic

/-!
# Finite runs of a partial step function

A component is given by a partial step function on its states: `step s a` is the
state after the action `a`, and `none` when `a` is not possible in `s`. A run is
a finite list of actions; every interleaving of several parties is one such
list. Safety statements are proved once for a single step and carried to whole
runs by the invariant rule. A component that is safe only under a condition on
its steps is described exactly by the conditional rule: the property holds in
every state of a run if and only if every step of the run meets the condition.
-/

namespace IpcBench.Lib

variable {σ α : Type*}

/-- The state after a list of actions, or `none` as soon as one of them is not
possible. -/
def run (step : σ → α → Option σ) : σ → List α → Option σ
  | s, [] => some s
  | s, a :: as => (step s a).bind fun t => run step t as

/-- A state from which no action at all is possible. -/
def Stuck (step : σ → α → Option σ) (s : σ) : Prop := ∀ a, step s a = none

/-- A state that no action changes. Turning once more in a waiting loop is a step,
but it leads nowhere. -/
def Stalled (step : σ → α → Option σ) (s : σ) : Prop := ∀ a t, step s a = some t → t = s

/-- Every action of a run is taken in a state that meets the condition. -/
def Meets (step : σ → α → Option σ) (cond : σ → α → Prop) : σ → List α → Prop
  | _, [] => True
  | s, a :: as => cond s a ∧ ∀ t, step s a = some t → Meets step cond t as

/-- Whether a run meets a decidable condition can be computed along the run. -/
instance decidableMeets (step : σ → α → Option σ) (cond : σ → α → Prop)
    [∀ s a, Decidable (cond s a)] : ∀ s as, Decidable (Meets step cond s as)
  | _, [] => .isTrue trivial
  | s, a :: as =>
      match h : step s a with
      | none => decidable_of_iff (cond s a) (by simp [Meets, h])
      | some t =>
          haveI := decidableMeets step cond t as
          decidable_of_iff (cond s a ∧ Meets step cond t as) (by simp [Meets, h])

/-- Every state of a run has the property, the first and the last included. -/
def Throughout (step : σ → α → Option σ) (prop : σ → Prop) : σ → List α → Prop
  | s, [] => prop s
  | s, a :: as => prop s ∧ ∀ t, step s a = some t → Throughout step prop t as

@[simp] theorem run_nil (step : σ → α → Option σ) (s : σ) : run step s [] = some s := rfl

/-- The first action of a nonempty run is possible, and the rest runs from the
state it leads to. -/
theorem run_cons_eq_some {step : σ → α → Option σ} {s t : σ} {a : α} {as : List α} :
    run step s (a :: as) = some t ↔ ∃ u, step s a = some u ∧ run step u as = some t := by
  simp [run, Option.bind_eq_some_iff]

/-- Runs compose. -/
theorem run_append {step : σ → α → Option σ} {s t u : σ} {as bs : List α}
    (hfirst : run step s as = some t) (hsecond : run step t bs = some u) :
    run step s (as ++ bs) = some u := by
  induction as generalizing s with
  | nil =>
    obtain rfl : s = t := by simpa using hfirst
    simpa using hsecond
  | cons a as ih =>
    obtain ⟨v, hstep, hrest⟩ := run_cons_eq_some.mp hfirst
    exact run_cons_eq_some.mpr ⟨v, hstep, ih hrest⟩

/-- The invariant rule: a property of the first state that every step keeps
holds at the end of every run. -/
theorem run_invariant {step : σ → α → Option σ} (Inv : σ → Prop)
    (hstep : ∀ {s a t}, Inv s → step s a = some t → Inv t)
    {s t : σ} {as : List α} (hstart : Inv s) (hrun : run step s as = some t) : Inv t := by
  induction as generalizing s with
  | nil =>
    obtain rfl : s = t := by simpa using hrun
    exact hstart
  | cons a as ih =>
    obtain ⟨u, hfirst, hrest⟩ := run_cons_eq_some.mp hrun
    exact ih (hstep hstart hfirst) hrest

/-- If every step makes a measure smaller, no run is longer than the measure it uses up. -/
theorem length_add_measure_le {step : σ → α → Option σ} (measure : σ → ℕ)
    (hstep : ∀ {s a t}, step s a = some t → measure t < measure s)
    {s t : σ} {as : List α} (hrun : run step s as = some t) :
    as.length + measure t ≤ measure s := by
  induction as generalizing s with
  | nil =>
    obtain rfl : s = t := by simpa using hrun
    simp
  | cons a as ih =>
    obtain ⟨u, hfirst, hrest⟩ := run_cons_eq_some.mp hrun
    have hless := hstep hfirst
    have hle := ih hrest
    rw [List.length_cons]
    omega

/-- If every step makes a measure smaller by one, the length of a run is the measure it uses
up. -/
theorem length_add_measure_eq {step : σ → α → Option σ} (Inv : σ → Prop) (measure : σ → ℕ)
    (hstep : ∀ {s a t}, Inv s → step s a = some t → Inv t ∧ measure t + 1 = measure s)
    {s t : σ} {as : List α} (hstart : Inv s) (hrun : run step s as = some t) :
    as.length + measure t = measure s := by
  induction as generalizing s with
  | nil =>
    obtain rfl : s = t := by simpa using hrun
    simp
  | cons a as ih =>
    obtain ⟨u, hfirst, hrest⟩ := run_cons_eq_some.mp hrun
    obtain ⟨hinv, hone⟩ := hstep hstart hfirst
    have hlength := ih hinv hrest
    rw [List.length_cons]
    omega

/-- If every step makes a measure smaller, every run can be continued until no step
is possible. -/
theorem exists_run_to_stuck {step : σ → α → Option σ} (Inv : σ → Prop) (measure : σ → ℕ)
    (hstep : ∀ {s a t}, Inv s → step s a = some t → Inv t ∧ measure t < measure s)
    {s : σ} (hstart : Inv s) :
    ∃ as t, run step s as = some t ∧ Inv t ∧ Stuck step t := by
  induction hn : measure s using Nat.strongRecOn generalizing s with
  | _ n ih =>
    by_cases hstuck : Stuck step s
    · exact ⟨[], s, rfl, hstart, hstuck⟩
    · simp only [Stuck, not_forall] at hstuck
      obtain ⟨a, hpossible⟩ := hstuck
      obtain ⟨t, ht⟩ := Option.ne_none_iff_exists'.mp hpossible
      obtain ⟨hinv, hless⟩ := hstep hstart ht
      obtain ⟨as, u, hrun, hend⟩ := ih (measure t) (hn ▸ hless) hinv rfl
      exact ⟨a :: as, u, run_cons_eq_some.mpr ⟨t, ht, hrun⟩, hend⟩

/-- A condition that holds of the actions in every state is met along the run. -/
theorem meets_of_forall {step : σ → α → Option σ} {cond : σ → α → Prop} {as : List α}
    (h : ∀ a ∈ as, ∀ s, cond s a) (s : σ) : Meets step cond s as := by
  induction as generalizing s with
  | nil => trivial
  | cons a as ih =>
    obtain ⟨hfirst, hrest⟩ := List.forall_mem_cons.mp h
    exact ⟨hfirst s, fun t _ => ih hrest t⟩

/-- The conditional rule: if the steps that meet the condition keep an invariant,
which contains the property, and every other step breaks the property at once, then
the property holds throughout a run exactly when every step of the run meets the
condition. -/
theorem throughout_iff_meets {step : σ → α → Option σ} {cond : σ → α → Prop} {prop : σ → Prop}
    (Inv : σ → Prop) (hprop : ∀ {s}, Inv s → prop s)
    (hkeep : ∀ {s a t}, Inv s → cond s a → step s a = some t → Inv t)
    (hbreak : ∀ {s a t}, Inv s → ¬ cond s a → step s a = some t → ¬ prop t)
    {s t : σ} {as : List α} (hstart : Inv s) (hrun : run step s as = some t) :
    Throughout step prop s as ↔ Meets step cond s as := by
  induction as generalizing s with
  | nil => exact iff_of_true (hprop hstart) trivial
  | cons a as ih =>
    obtain ⟨u, hfirst, hrest⟩ := run_cons_eq_some.mp hrun
    have hnext : ∀ {R : σ → Prop}, (∀ v, step s a = some v → R v) ↔ R u := by
      intro R
      rw [hfirst]
      exact ⟨fun h => h u rfl, fun h v hv => Option.some.inj hv ▸ h⟩
    simp only [Throughout, Meets, hnext]
    by_cases hmet : cond s a
    · have hiff := ih (hkeep hstart hmet hfirst) hrest
      exact and_congr (iff_of_true (hprop hstart) hmet) hiff
    · -- the property fails already in the state the step leads to
      refine iff_of_false (fun h => ?_) (fun h => hmet h.1)
      cases as with
      | nil => exact hbreak hstart hmet hfirst h.2
      | cons b bs => exact hbreak hstart hmet hfirst h.2.1

end IpcBench.Lib
