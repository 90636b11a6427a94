import Mathlib.Algebra.Order.BigOperators.Group.List
import Mathlib.Algebra.Order.Ring.Nat
import IpcBench.Lib.Simulation

/-!
# A client that asks for readings of a clock

The purpose of a measured exchange, with nothing of how it is transported: the client asks,
the other side takes a reading, the client receives that very reading and compares it with
one of its own. What it has seen so far is an accumulator, into which it stores what it has
received and to which it adds its own reading. The sequences of events that can happen are
whole rounds with one unfinished round behind them.
-/

namespace IpcBench.Lib

variable {σ α τ β : Type*}

/-- Where the exchange stands. -/
inductive Stage (τ : Type*) where
  | resting
  | asked
  | stamped (value : τ)
  | received (value : τ)
  | left
  deriving DecidableEq, Repr

/-- What happens in an exchange. -/
inductive Event (τ : Type*) where
  | ask
  | stamp (now : τ)
  | receive (value : τ)
  | sample (now : τ)
  | leave
  deriving DecidableEq, Repr

/-- The exchange with the accumulator of the client. -/
structure Exchange (τ β : Type*) where
  stage : Stage τ
  total : β
  deriving DecidableEq, Repr

/-- One event. Only the reading that was taken is received, and the client leaves only
between two rounds. -/
def Exchange.next [DecidableEq τ] (store add : β → τ → β) :
    Exchange τ β → Event τ → Option (Exchange τ β)
  | ⟨.resting, total⟩, .ask => some ⟨.asked, total⟩
  | ⟨.resting, total⟩, .leave => some ⟨.left, total⟩
  | ⟨.asked, total⟩, .stamp now => some ⟨.stamped now, total⟩
  | ⟨.stamped value, total⟩, .receive got =>
      if got = value then some ⟨.received value, store total value⟩ else none
  | ⟨.received _, total⟩, .sample now => some ⟨.resting, add total now⟩
  | _, _ => none

/-- The events of the round that has been begun. -/
def Stage.begun : Stage τ → List (Event τ)
  | .resting => []
  | .asked => [.ask]
  | .stamped value => [.ask, .stamp value]
  | .received value => [.ask, .stamp value, .receive value]
  | .left => [.leave]

/-- The reading of the clock that an event takes. -/
def Event.reading? : Event τ → Option τ
  | .stamp now | .sample now => some now
  | .ask | .receive _ | .leave => none

/-- All readings of the clock, in order. -/
def readings (events : List (Event τ)) : List τ := events.filterMap Event.reading?

namespace Exchange

variable [DecidableEq τ] {store add : β → τ → β}

/-- Whatever can happen in the exchange is shown, if each kind of event is. -/
theorem realizes_of {step : σ → α → Option σ} {event : σ → α → σ → Option (Event τ)}
    {R : σ → Exchange τ β → Prop}
    (ask : ∀ s total, R s ⟨.resting, total⟩ →
      ∃ t, Reaches step event s [.ask] t ∧ R t ⟨.asked, total⟩)
    (leave : ∀ s total, R s ⟨.resting, total⟩ →
      ∃ t, Reaches step event s [.leave] t ∧ R t ⟨.left, total⟩)
    (stamp : ∀ s total now, R s ⟨.asked, total⟩ →
      ∃ t, Reaches step event s [.stamp now] t ∧ R t ⟨.stamped now, total⟩)
    (receive : ∀ s total value, R s ⟨.stamped value, total⟩ →
      ∃ t, Reaches step event s [.receive value] t ∧ R t ⟨.received value, store total value⟩)
    (sample : ∀ s total value now, R s ⟨.received value, total⟩ →
      ∃ t, Reaches step event s [.sample now] t ∧ R t ⟨.resting, add total now⟩) :
    Realizes step event (next store add) R := by
  intro s x e y h hnext
  obtain ⟨stage, total⟩ := x
  cases stage with
  | resting =>
    cases e with
    | ask =>
      obtain rfl := Option.some.inj hnext
      exact ask s total h
    | leave =>
      obtain rfl := Option.some.inj hnext
      exact leave s total h
    | _ => cases hnext
  | asked =>
    cases e with
    | stamp now =>
      obtain rfl := Option.some.inj hnext
      exact stamp s total now h
    | _ => cases hnext
  | stamped value =>
    cases e with
    | receive got =>
      simp only [next, Option.ite_none_right_eq_some, Option.some.injEq] at hnext
      obtain ⟨rfl, rfl⟩ := hnext
      exact receive s total got h
    | _ => cases hnext
  | received value =>
    cases e with
    | sample now =>
      obtain rfl := Option.some.inj hnext
      exact sample s total value now h
    | _ => cases hnext
  | left => cases e <;> cases hnext

/-- If the detailed component refines the exchange and realizes it, both show the same
events with the same accumulators. -/
theorem reaches_iff_run {step : σ → α → Option σ} {event : σ → α → σ → Option (Event τ)}
    {R R' : σ → Exchange τ β → Prop} {accumulator : σ → β} {s : σ} {x : Exchange τ β}
    {events : List (Event τ)} {total : β} (hrefines : Refines step event (next store add) R)
    (hrealizes : Realizes step event (next store add) R')
    (htotal : ∀ t y, R t y ∨ R' t y → y.total = accumulator t) (hstart : R s x)
    (hstart' : R' s x) :
    (∃ t, Reaches step event s events t ∧ accumulator t = total) ↔
      ∃ stage, run (next store add) x events = some ⟨stage, total⟩ := by
  constructor
  · rintro ⟨t, hreaches, rfl⟩
    obtain ⟨y, hrun, hrelated⟩ := hrefines.run_of_reaches hstart hreaches
    exact ⟨y.stage, by rw [hrun, ← htotal t y (Or.inl hrelated)]⟩
  · rintro ⟨stage, hrun⟩
    obtain ⟨t, hreaches, hrelated⟩ := hrealizes.reaches_of_run hstart' hrun
    exact ⟨t, hreaches, (htotal t _ (Or.inr hrelated)).symm⟩

end Exchange

/-- What the client of an exchange is doing. -/
inductive Doing where
  | resting
  | waiting
  | holding
  | gone
  | failed
  deriving DecidableEq, Repr

/-- A state of the exchange agrees with what is known of a detailed state: the accumulator,
what the client is doing, whether its question is open, and which answer is under way. -/
structure Exchange.Agrees (x : Exchange τ β) (total : β) (doing : Doing) (asked : Prop)
    (stamped : τ → Prop) : Prop where
  total_eq : x.total = total
  stage_at : match x.stage with
    | .resting => doing = .resting
    | .asked => doing = .waiting ∧ asked
    | .stamped value => doing = .waiting ∧ stamped value
    | .received _ => doing = .holding
    | .left => doing = .gone

namespace Exchange.Agrees

variable {x : Exchange τ β} {total : β} {doing : Doing} {asked : Prop} {stamped : τ → Prop}

theorem eq_resting (h : x.Agrees total doing asked stamped) (hdoing : doing = .resting) :
    x = ⟨.resting, total⟩ := by
  obtain ⟨stage, _⟩ := x
  obtain ⟨rfl, hstage⟩ := h
  cases stage with
  | resting => rfl
  | _ => simp [hdoing] at hstage

theorem eq_asked (h : x.Agrees total doing asked stamped) (hdoing : doing = .waiting)
    (hopen : ∀ value, ¬ stamped value) : x = ⟨.asked, total⟩ := by
  obtain ⟨stage, _⟩ := x
  obtain ⟨rfl, hstage⟩ := h
  cases stage with
  | asked => rfl
  | stamped value => exact absurd hstage.2 (hopen value)
  | _ => simp [hdoing] at hstage

theorem eq_stamped {value : τ} (h : x.Agrees total doing asked stamped)
    (hdoing : doing = .waiting) (hanswered : ¬ asked) (honly : ∀ v, stamped v → v = value) :
    x = ⟨.stamped value, total⟩ := by
  obtain ⟨stage, _⟩ := x
  obtain ⟨rfl, hstage⟩ := h
  cases stage with
  | asked => exact absurd hstage.2 hanswered
  | stamped v =>
    obtain rfl := honly v hstage.2
    rfl
  | _ => simp [hdoing] at hstage

theorem eq_received (h : x.Agrees total doing asked stamped) (hdoing : doing = .holding) :
    ∃ value, x = ⟨.received value, total⟩ := by
  obtain ⟨stage, _⟩ := x
  obtain ⟨rfl, hstage⟩ := h
  cases stage with
  | received value => exact ⟨value, rfl⟩
  | _ => simp [hdoing] at hstage

end Exchange.Agrees

end IpcBench.Lib
