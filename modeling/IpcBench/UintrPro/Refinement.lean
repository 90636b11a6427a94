import IpcBench.Lib.Channel
import IpcBench.Lib.Simulation
import IpcBench.UintrPro.Handoff

/-!
# `uintr-pro` is a channel with one place

An observer who sees the timestamps taken by the server and those that a handler run leaves
in `bench.single_start` sees nothing of the ring, of the copies of single bytes, of the
interrupts and of the spinning. If no interrupt is lost and none comes by itself, what is left
to see is a channel with one place.
-/

namespace IpcBench.UintrPro

open Lib

/-- The steps without the loss of an interrupt. -/
def reliable (cfg : Config) (s : State) (a : Action) : Option State :=
  if a = .loseInterrupt then none else step cfg s a

/-- What an observer sees of a step. A handler run is over when it has published. -/
def event (s : State) (a : Action) (_ : State) : Option (Transfer UInt64) :=
  match a with
  | .stamp timestamp => some (.put timestamp)
  | .handlerPublish => some (.take (ofWordBytes s.singleStart))
  | _ => none

/-- The timestamp that no handler run has taken yet. -/
def held (s : State) : Option UInt64 := s.stamps[s.runs.length]?

/-- How many steps the next visible one is away, at most. -/
def distance (s : State) : ℕ :=
  match s.server with
  | .stamp => 0
  | .inCall =>
      match s.ring.producer with
      | .idle => 0
      | .copying _ _ done => 40 - done
  | .notify => 30
  | .spin =>
      match s.handler with
      | .idle => 29
      | .entered => 28
      | .pointed => 27
      | .measured _ => 26
      | .outCall => 8 - (copiedBytes s.ring.consumer).length

/-- The invariant of the exchange, and that the server never waits in vain. -/
structure Reliable (s : State) : Prop where
  inv : ∃ k p, Inv s k p
  due : s.server = .spin → s.handler = .idle → held s ≠ none → 0 < s.pending

namespace Inv

variable {cfg : Config} {s t : State} {k p : ℕ}

/-- Every finished handler run has its timestamp. -/
theorem runs_length (h : Inv s k p) : s.runs.length = k := by
  have hle : k ≤ s.stamps.length := by cases h.phase <;> omega
  rw [h.runs_eq, List.length_map, List.length_take, Nat.min_eq_left hle]

/-- A handler run that publishes has the timestamp that was held. -/
theorem held_of_publish (h : Inv s k p) (hstep : UintrPro.step cfg s .handlerPublish = some t) :
    held s = some (ofWordBytes s.singleStart) ∧ held t = none := by
  have hnext := h.handlerPublish hstep
  have hruns := hnext.runs_eq
  have hcount := hnext.runs_length
  obtain ⟨hhandler, ring, _, rfl⟩ := step_handlerPublish hstep
  cases h.phase with
  | reading _ _ _ _ _ _ hstamps =>
    have hlast : s.stamps[k]? = some s.stamps[k] := List.getElem?_eq_getElem (by omega)
    constructor
    · have hrun := congrArg (fun runs => runs[k]?) hruns
      simp only [← h.runs_length, List.getElem?_concat_length, List.getElem?_map,
        List.getElem?_take] at hrun
      rw [h.runs_length] at hrun
      simp only [Nat.lt_succ_self, if_true, hlast, Option.map_some, Option.some.injEq,
        Prod.mk.injEq] at hrun
      rw [held, h.runs_length, hlast, hrun.2, ofWordBytes_wordBytes]
    · rw [held, hcount]
      exact List.getElem?_eq_none hstamps.le
  | _ => simp_all

end Inv

namespace Reliable

variable {cfg : Config} {s t : State} {a : Action}

/-- As long as no interrupt is lost, the server does not wait in vain. -/
theorem step (h : Reliable s) (hcause : cfg.spurious = false)
    (hstep : reliable cfg s a = some t) : Reliable t := by
  obtain ⟨k, p, hinv⟩ := h.inv
  obtain ⟨hkept, hstep⟩ := Option.ite_none_left_eq_some.mp hstep
  refine ⟨hinv.step hcause hstep, ?_⟩
  intro hserver hhandler hheld
  cases a with
  | loseInterrupt => exact absurd rfl hkept
  | handlerPublish => exact absurd (hinv.held_of_publish hstep).2 hheld
  | senduipi =>
    obtain ⟨_, rfl⟩ := step_senduipi hstep
    exact Nat.succ_pos _
  | spin =>
    obtain ⟨_, ⟨_, rfl⟩ | ⟨_, rfl⟩⟩ := step_spin hstep
    · cases hserver
    · exact h.due hserver hhandler hheld
  | stamp timestamp =>
    obtain ⟨_, ring, _, rfl⟩ := step_stamp hstep
    cases hserver
  | serverCopy =>
    obtain ⟨hcall, ring, _, rfl⟩ := step_serverCopy hstep
    simp [hcall] at hserver
  | serverPublish =>
    obtain ⟨_, ring, _, rfl⟩ := step_serverPublish hstep
    cases hserver
  | deliver =>
    obtain ⟨_, rfl⟩ := step_deliver hstep
    cases hhandler
  | storeData =>
    obtain ⟨_, rfl⟩ := step_storeData hstep
    cases hhandler
  | measure =>
    obtain ⟨_, rfl⟩ := step_measure hstep
    cases hhandler
  | handlerBegin =>
    obtain ⟨_, ring, _, _, rfl⟩ := step_handlerBegin hstep
    cases hhandler
  | handlerCopy =>
    obtain ⟨hcall, ring, _, rfl⟩ := step_handlerCopy hstep
    simp [hcall] at hhandler

end Reliable

namespace Inv

variable {cfg : Config} {s : State} {k p : ℕ}

end Inv

end IpcBench.UintrPro
