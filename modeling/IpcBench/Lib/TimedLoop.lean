import IpcBench.Lib.RequestReply

/-!
# A loop that times each of its turns

One side takes a reading, does something with the other side, takes a second reading and
adds the difference, a given number of times. What it does in between is not part of it. The
events that can happen are whole turns, and perhaps the first reading of another one.
-/

namespace IpcBench.Lib

variable {σ α τ β : Type*}

/-- The loop between two readings: the turn that has begun, how many turns are finished, and
the accumulator. -/
structure TimedLoop (τ β : Type*) where
  begun : Option τ
  finished : ℕ
  total : β
  deriving DecidableEq, Repr

/-- One reading of a loop of `count` turns. -/
def TimedLoop.next (store add : β → τ → β) (count : ℕ) :
    TimedLoop τ β → Event τ → Option (TimedLoop τ β)
  | ⟨none, finished, total⟩, .stamp now =>
      if finished < count then some ⟨some now, finished, store total now⟩ else none
  | ⟨some _, finished, total⟩, .sample now => some ⟨none, finished + 1, add total now⟩
  | _, _ => none

namespace TimedLoop

variable {store add : β → τ → β} {count : ℕ}

/-- The loop begins a turn if it has one left, and finishes the turn that has begun. -/
theorem next_cases {x y : TimedLoop τ β} {e : Event τ} (hnext : next store add count x e = some y) :
    (x.begun = none ∧ x.finished < count ∧ ∃ now, e = .stamp now) ∨
      ∃ start now, x.begun = some start ∧ e = .sample now := by
  obtain ⟨begun, finished, total⟩ := x
  cases begun with
  | none =>
    cases e with
    | stamp now =>
      simp only [next, Option.ite_none_right_eq_some] at hnext
      exact Or.inl ⟨rfl, hnext.1, now, rfl⟩
    | _ => cases hnext
  | some start =>
    cases e with
    | sample now => exact Or.inr ⟨start, now, rfl, rfl⟩
    | _ => cases hnext

/-- A program that computes the state of the loop shows exactly its runs, if it can take the
first reading of a turn whenever one is left, and in a turn that has begun it can take the
second one or comes nearer to it. -/
theorem reaches_view_iff {step : σ → α → Option σ} {event : σ → α → σ → Option (Event τ)}
    {s : σ} {events : List (Event τ)} {x : TimedLoop τ β}
    (Inv : σ → Prop) (view : σ → TimedLoop τ β) (distance : σ → ℕ)
    (hkeep : ∀ {s a t}, Inv s → step s a = some t → Inv t)
    (hview : ∀ {s a t}, Inv s → step s a = some t →
      run (next store add count) (view s) (event s a t).toList = some (view t))
    (hstamp : ∀ {s} now, Inv s → (view s).begun = none → (view s).finished < count →
      ∃ a t, step s a = some t ∧ event s a t = some (.stamp now))
    (hsample : ∀ {s start} now, Inv s → (view s).begun = some start →
      (∃ a t, step s a = some t ∧ event s a t = some (.sample now)) ∨
        ∃ a t, step s a = some t ∧ event s a t = none ∧ distance t < distance s)
    (hstart : Inv s) :
    (∃ t, Reaches step event s events t ∧ view t = x) ↔
      run (next store add count) (view s) events = some x := by
  refine Lib.reaches_view_iff Inv view distance hkeep hview ?_ hstart
  intro s e y hinv hnext
  rcases next_cases hnext with ⟨hbegun, hmore, now, rfl⟩ | ⟨start, now, hbegun, rfl⟩
  · exact Or.inl (hstamp now hinv hbegun hmore)
  · exact hsample now hinv hbegun

end TimedLoop

end IpcBench.Lib
