import Mathlib.Data.List.Induction
import IpcBench.Lib.Runs

/-!
# A channel with one place

A value can be put into the channel when it is empty, and only the value that was put in can
be taken out. Nothing is lost, nothing is duplicated, and nothing overtakes: the sequences of
events are whole transfers with perhaps one value left in the channel.
-/

namespace IpcBench.Lib

variable {τ : Type*}

/-- What happens at a channel. -/
inductive Transfer (τ : Type*) where
  | put (value : τ)
  | take (value : τ)
  deriving DecidableEq, Repr

/-- One event at the channel, given by what it holds. -/
def Transfer.next [DecidableEq τ] : Option τ → Transfer τ → Option (Option τ)
  | none, .put value => some (some value)
  | some held, .take value => if value = held then some none else none
  | _, _ => none

variable [DecidableEq τ]

end IpcBench.Lib
