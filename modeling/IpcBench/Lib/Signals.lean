import Mathlib.Data.Bool.Basic

/-!
# Standard signals

How one standard signal stands at one process: whether it is blocked, what its
disposition is, and whether it is pending. A blocked signal is a single bit that
further signals of the same number do not add to. A signal that is not blocked takes
effect at once: a handler runs, or the default action terminates the process.
-/

namespace IpcBench.Lib

/-- What happens when a signal is not blocked: the default action, which terminates,
or a handler that returns. -/
inductive Disposition where
  | default
  | handler
  deriving DecidableEq, Repr

/-- One signal at one process. -/
structure SignalSlot where
  blocked : Bool
  disposition : Disposition
  pending : Bool
  deriving DecidableEq, Repr

namespace SignalSlot

/-- The slot of a fresh program. -/
def fresh : SignalSlot := ⟨false, .default, false⟩

/-- The signal is sent to the process; `none` when this terminates the process. -/
def generate (slot : SignalSlot) : Option SignalSlot :=
  if slot.blocked then some { slot with pending := true }
  else
    match slot.disposition with
    | .default => none
    | .handler => some slot

/-- The signal gets a handler. -/
def handle (slot : SignalSlot) : SignalSlot := { slot with disposition := .handler }

/-- The signal is added to the mask of the process. -/
def block (slot : SignalSlot) : SignalSlot := { slot with blocked := true }

/-- A wait for the blocked signal takes it; `none` while the wait blocks. -/
def accept (slot : SignalSlot) : Option SignalSlot :=
  if slot.pending then some { slot with pending := false } else none

/-- The program of the process is replaced: handlers are gone, the mask and what is
pending stay. -/
def exec (slot : SignalSlot) : SignalSlot := { slot with disposition := .default }

/-- A signal that is waited for: blocked, with or without one pending. -/
def waitedFor (pending : Bool) : SignalSlot := ⟨true, .default, pending⟩

/-- A signal that is caught by a handler. -/
def caught : SignalSlot := ⟨false, .handler, false⟩

end SignalSlot

end IpcBench.Lib
