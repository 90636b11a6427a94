import IpcBench.Lib.Runs

/-!
# Two levels of one design

A detailed component and an abstract one are related by what an observer sees. Most
steps of the detailed component are silent; a few of them show an event, and these are
the steps of the abstract component. If every visible step is matched by the abstract
component and every abstract step can be taken by the detailed one after finitely many
silent steps, the two show exactly the same sequences of events.
-/

namespace IpcBench.Lib

variable {σ α ε ρ : Type*}

/-- The events an observer sees in a run. -/
def observed (step : σ → α → Option σ) (event : σ → α → σ → Option ε) : σ → List α → List ε
  | _, [] => []
  | s, a :: as =>
      match step s a with
      | none => []
      | some t => (event s a t).toList ++ observed step event t as

/-- Some run leads from one state to another and shows the given events. -/
def Reaches (step : σ → α → Option σ) (event : σ → α → σ → Option ε) (s : σ) (es : List ε)
    (t : σ) : Prop :=
  ∃ as, run step s as = some t ∧ observed step event s as = es

namespace Reaches

variable {step : σ → α → Option σ} {event : σ → α → σ → Option ε} {s t u : σ} {a : α}
  {es fs : List ε}

theorem refl (s : σ) : Reaches step event s [] s := ⟨[], rfl, rfl⟩

/-- One step and then the rest. -/
theorem head (hstep : step s a = some t) (hrest : Reaches step event t es u) :
    Reaches step event s ((event s a t).toList ++ es) u := by
  obtain ⟨as, hrun, rfl⟩ := hrest
  exact ⟨a :: as, run_cons_eq_some.mpr ⟨t, hstep, hrun⟩, by simp [observed, hstep]⟩

/-- A silent step and then the rest. -/
theorem silent (hstep : step s a = some t) (hsilent : event s a t = none)
    (hrest : Reaches step event t es u) : Reaches step event s es u := by
  simpa [hsilent] using head hstep hrest

/-- A visible step. -/
theorem visible {e : ε} (hstep : step s a = some t) (hvisible : event s a t = some e) :
    Reaches step event s [e] t := by
  have hone : Reaches step event s _ t := head hstep (refl t)
  simpa [hvisible] using hone

/-- Two runs, one after the other. -/
theorem trans (hfirst : Reaches step event s es t) (hsecond : Reaches step event t fs u) :
    Reaches step event s (es ++ fs) u := by
  obtain ⟨as, hrun, rfl⟩ := hfirst
  induction as generalizing s with
  | nil =>
    obtain rfl : s = t := by simpa using hrun
    exact hsecond
  | cons a as ih =>
    obtain ⟨v, hstep, hrest⟩ := run_cons_eq_some.mp hrun
    have htail := head hstep (ih hrest)
    simpa [observed, hstep] using htail

/-- What is shown in one component is shown in another one that takes the same steps. -/
theorem map {σ' α' : Type*} {step' : σ' → α' → Option σ'} {event' : σ' → α' → σ' → Option ε}
    (f : σ → σ') (g : α → α') (hstep : ∀ s a t, step s a = some t → step' (f s) (g a) = some (f t))
    (hevent : ∀ s a t, step s a = some t → event' (f s) (g a) (f t) = event s a t)
    (h : Reaches step event s es t) : Reaches step' event' (f s) es (f t) := by
  obtain ⟨as, hrun, rfl⟩ := h
  induction as generalizing s with
  | nil =>
    obtain rfl : s = t := by simpa using hrun
    exact refl (f s)
  | cons a as ih =>
    obtain ⟨u, hfirst, hrest⟩ := run_cons_eq_some.mp hrun
    have htail : Reaches step' event' (f s) _ (f t) := head (hstep s a u hfirst) (ih hrest)
    rw [hevent s a u hfirst] at htail
    simpa [observed, hfirst] using htail

/-- If silent steps lead nearer and nearer to a state that shows the events, they are
shown. -/
theorem of_nearer (P Q : σ → Prop) (distance : σ → ℕ)
    (hprogress : ∀ s, P s → (∃ t, Reaches step event s es t ∧ Q t) ∨
      ∃ a t, step s a = some t ∧ event s a t = none ∧ P t ∧ distance t < distance s)
    (hstart : P s) : ∃ t, Reaches step event s es t ∧ Q t := by
  induction hn : distance s using Nat.strongRecOn generalizing s with
  | _ n ih =>
    rcases hprogress s hstart with hshown | ⟨a, u, hstep, hsilent, hnext, hless⟩
    · exact hshown
    · obtain ⟨t, hreaches, hend⟩ := ih (distance u) (hn ▸ hless) hnext rfl
      exact ⟨t, silent hstep hsilent hreaches, hend⟩

end Reaches

/-- Related states stay related, and what a step shows is what the abstract component
does. -/
def Refines (step : σ → α → Option σ) (event : σ → α → σ → Option ε) (next : ρ → ε → Option ρ)
    (R : σ → ρ → Prop) : Prop :=
  ∀ s a t r, R s r → step s a = some t → ∃ q, run next r (event s a t).toList = some q ∧ R t q

/-- Whatever the abstract component can do is shown after finitely many steps. -/
def Realizes (step : σ → α → Option σ) (event : σ → α → σ → Option ε) (next : ρ → ε → Option ρ)
    (R : σ → ρ → Prop) : Prop :=
  ∀ s r e q, R s r → next r e = some q → ∃ t, Reaches step event s [e] t ∧ R t q

/-- What one component does, another one does that keeps up with its steps. -/
theorem exists_run_of_keeping_up {σ' α' : Type*} {step : σ → α → Option σ}
    {step' : σ' → α' → Option σ'} (R : σ → σ' → Prop) (f : α → α')
    (hstep : ∀ {s s' a t}, R s s' → step s a = some t → ∃ t', step' s' (f a) = some t' ∧ R t t')
    {s t : σ} {s' : σ'} {as : List α} (hrelated : R s s') (hrun : run step s as = some t) :
    ∃ t', run step' s' (as.map f) = some t' ∧ R t t' := by
  induction as generalizing s s' with
  | nil =>
    obtain rfl : s = t := by simpa using hrun
    exact ⟨s', rfl, hrelated⟩
  | cons a as ih =>
    obtain ⟨u, hfirst, hrest⟩ := run_cons_eq_some.mp hrun
    obtain ⟨u', hfirst', hnext⟩ := hstep hrelated hfirst
    obtain ⟨t', hrest', hend⟩ := ih hnext hrest
    exact ⟨t', run_cons_eq_some.mpr ⟨u', hfirst', hrest'⟩, hend⟩

section Levels

variable {step : σ → α → Option σ} {event : σ → α → σ → Option ε} {next : ρ → ε → Option ρ}
  {R : σ → ρ → Prop} {s t : σ} {r q : ρ} {es : List ε}

/-- What a run shows is a run of the abstract component. -/
theorem Refines.run_of_reaches (h : Refines step event next R) (hrelated : R s r)
    (hreaches : Reaches step event s es t) : ∃ q, run next r es = some q ∧ R t q := by
  obtain ⟨as, hrun, rfl⟩ := hreaches
  induction as generalizing s r with
  | nil =>
    obtain rfl : s = t := by simpa using hrun
    exact ⟨r, rfl, hrelated⟩
  | cons a as ih =>
    obtain ⟨u, hstep, hrest⟩ := run_cons_eq_some.mp hrun
    obtain ⟨p, hfirst, hnext⟩ := h s a u r hrelated hstep
    obtain ⟨q, hlast, hend⟩ := ih hnext hrest
    refine ⟨q, ?_, hend⟩
    simp only [observed, hstep]
    exact run_append hfirst hlast

/-- A run of the abstract component is shown by some run. -/
theorem Realizes.reaches_of_run (h : Realizes step event next R) (hrelated : R s r)
    (hrun : run next r es = some q) : ∃ t, Reaches step event s es t ∧ R t q := by
  induction es generalizing s r with
  | nil =>
    obtain rfl : r = q := by simpa using hrun
    exact ⟨s, .refl s, hrelated⟩
  | cons e es ih =>
    obtain ⟨p, hfirst, hrest⟩ := run_cons_eq_some.mp hrun
    obtain ⟨u, hshown, hnext⟩ := h s r e p hrelated hfirst
    obtain ⟨t, hlast, hend⟩ := ih hnext hrest
    exact ⟨t, hshown.trans hlast, hend⟩

/-- The abstract state computed from the detailed one: if silent steps leave it alone, visible
steps are abstract steps, and whatever is possible in it is shown or some silent step leads
nearer to it, then the runs show exactly the runs of the abstract component. -/
theorem reaches_view_iff (Inv : σ → Prop) (view : σ → ρ) (distance : σ → ℕ)
    (hkeep : ∀ {s a t}, Inv s → step s a = some t → Inv t)
    (hview : ∀ {s a t}, Inv s → step s a = some t →
      run next (view s) (event s a t).toList = some (view t))
    (hprogress : ∀ {s e r}, Inv s → next (view s) e = some r →
      (∃ a t, step s a = some t ∧ event s a t = some e) ∨
        ∃ a t, step s a = some t ∧ event s a t = none ∧ distance t < distance s)
    (hstart : Inv s) :
    (∃ t, Reaches step event s es t ∧ view t = q) ↔ run next (view s) es = some q := by
  have hrefines : Refines step event next fun s r => Inv s ∧ view s = r := by
    rintro s a t r ⟨hinv, rfl⟩ hstep
    exact ⟨view t, hview hinv hstep, hkeep hinv hstep, rfl⟩
  have hrealizes : Realizes step event next fun s r => Inv s ∧ view s = r := by
    rintro s r e q ⟨hinv, hsame⟩ hnext
    refine Reaches.of_nearer (fun s => Inv s ∧ view s = r) _ distance ?_ ⟨hinv, hsame⟩
    rintro s ⟨hinv, rfl⟩
    rcases hprogress hinv hnext with ⟨a, t, hstep, hshown⟩ | ⟨a, t, hstep, hsilent, hless⟩
    · have hend := hview hinv hstep
      simp only [hshown, Option.toList_some, run, hnext, Option.bind_some,
        Option.some.injEq] at hend
      exact Or.inl ⟨t, .visible hstep hshown, hkeep hinv hstep, hend.symm⟩
    · have hend := hview hinv hstep
      simp only [hsilent, Option.toList_none, run_nil, Option.some.injEq] at hend
      exact Or.inr ⟨a, t, hstep, hsilent, ⟨hkeep hinv hstep, hend.symm⟩, hless⟩
  constructor
  · rintro ⟨t, hreaches, rfl⟩
    obtain ⟨q, hrun, _, rfl⟩ := hrefines.run_of_reaches ⟨hstart, rfl⟩ hreaches
    exact hrun
  · intro hrun
    obtain ⟨t, hreaches, _, hend⟩ := hrealizes.reaches_of_run ⟨hstart, rfl⟩ hrun
    exact ⟨t, hreaches, hend⟩

end Levels

end IpcBench.Lib
