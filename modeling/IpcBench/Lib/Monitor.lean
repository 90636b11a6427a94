import Mathlib.Data.List.Basic

/-!
# A mutex with a condition variable

The mutex is not recursive: a process that locks it again waits like any other. A wait
on the condition variable gives the mutex up and queues the process; a signal wakes one
queued process, if there is one, and is otherwise forgotten; a woken process has to get
the mutex back before its wait returns. A call that blocks is `none`.
-/

namespace IpcBench.Lib

/-- The owner of the mutex, the processes that wait for a signal, and those that have
been woken and want the mutex back. -/
structure Monitor (π : Type*) where
  owner : Option π
  waiting : List π
  woken : List π
  deriving DecidableEq, Repr

namespace Monitor

variable {π : Type*}

/-- A monitor just after its initialisation. -/
def fresh : Monitor π := ⟨none, [], []⟩

/-- The mutex is locked by `p`. -/
def lock (m : Monitor π) (p : π) : Option (Monitor π) :=
  if m.owner = none then some { m with owner := some p } else none

/-- The owner begins to wait for a signal. -/
def beginWait [DecidableEq π] (m : Monitor π) (p : π) : Option (Monitor π) :=
  if m.owner = some p then some { m with owner := none, waiting := m.waiting ++ [p] } else none

/-- One waiting process is woken, if there is one. -/
def signal (m : Monitor π) : Monitor π :=
  match m.waiting with
  | [] => m
  | p :: rest => { m with waiting := rest, woken := m.woken ++ [p] }

/-- A woken process gets the mutex back and returns from its wait. -/
def endWait [DecidableEq π] (m : Monitor π) (p : π) : Option (Monitor π) :=
  if p ∈ m.woken ∧ m.owner = none then
    some { m with owner := some p, woken := m.woken.erase p }
  else none

/-- A signal does not touch the mutex. -/
@[simp] theorem signal_owner (m : Monitor π) : m.signal.owner = m.owner := by
  unfold signal
  split <;> rfl

/-- A wait ends when the mutex is free, and leaves it to the woken process. -/
theorem owner_of_endWait [DecidableEq π] {m m' : Monitor π} {p : π} (h : m.endWait p = some m') :
    m.owner = none ∧ m'.owner = some p := by
  simp only [endWait, Option.ite_none_right_eq_some, Option.some.injEq] at h
  obtain ⟨⟨_, hfree⟩, rfl⟩ := h
  exact ⟨hfree, rfl⟩

end Monitor

end IpcBench.Lib
