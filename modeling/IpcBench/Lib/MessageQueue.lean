import Mathlib.Data.List.Basic
import Mathlib.Data.Int.Basic

/-!
# A message queue with types

Messages of different types share one queue. A message is sent by appending it, and a
receiver takes the oldest message of the type it asks for, wherever it stands. The system
limits the length of a message and what the queue may hold. Who has sent a message is not
part of it; it is kept as a record.
-/

namespace IpcBench.Lib

variable {κ β ρ : Type*}

/-- A message in the queue, with its sender for the record. -/
structure QueueMessage (κ β ρ : Type*) where
  type : κ
  payload : List β
  sender : ρ
  deriving DecidableEq, Repr

/-- The longest message, and how many bytes or messages a queue holds. -/
structure QueueLimits where
  message : ℕ
  queue : ℕ
  deriving DecidableEq, Repr

/-- The bytes of all messages in a queue. -/
def queueBytes : List (QueueMessage κ β ρ) → ℕ
  | [] => 0
  | message :: rest => message.payload.length + queueBytes rest

/-- There is room for one more message. -/
def QueueLimits.Admit (limits : QueueLimits) (queue : List (QueueMessage κ β ρ))
    (message : QueueMessage κ β ρ) : Prop :=
  queueBytes queue + message.payload.length ≤ limits.queue ∧ queue.length + 1 ≤ limits.queue

instance decidableAdmit (limits : QueueLimits) (queue : List (QueueMessage κ β ρ))
    (message : QueueMessage κ β ρ) : Decidable (limits.Admit queue message) :=
  inferInstanceAs (Decidable (_ ∧ _))

/-- `msgsnd`: the return value and the queue after it; `none` while the call blocks. -/
def msgsnd (limits : QueueLimits) (noWait : Bool) (queue : List (QueueMessage κ β ρ))
    (message : QueueMessage κ β ρ) : Option (ℤ × List (QueueMessage κ β ρ)) :=
  if limits.message < message.payload.length then some (-1, queue)
  else if limits.Admit queue message then some (0, queue ++ [message])
  else if noWait then some (-1, queue)
  else none

/-- A message within the limits always finds room in an empty queue. -/
theorem msgsnd_nil {limits : QueueLimits} {message : QueueMessage κ β ρ} (noWait : Bool)
    (hmessage : message.payload.length ≤ limits.message)
    (hqueue : message.payload.length ≤ limits.queue) (hpos : 1 ≤ limits.queue) :
    msgsnd limits noWait [] message = some (0, [message]) := by
  have hadmit : limits.Admit [] message := ⟨by simpa [queueBytes] using hqueue, hpos⟩
  rw [msgsnd, if_neg (Nat.not_lt.mpr hmessage), if_pos hadmit, List.nil_append]

variable [DecidableEq κ]

/-- `msgrcv`: the return value, the message received, and the queue after it; `none` while
there is no message of the type. A message that is too long stays in the queue. -/
def msgrcv (size : ℕ) (type : κ) (queue : List (QueueMessage κ β ρ)) :
    Option (ℤ × Option (QueueMessage κ β ρ) × List (QueueMessage κ β ρ)) :=
  (queue.find? fun m => m.type = type).map fun message =>
    if size < message.payload.length then (-1, none, queue)
    else (message.payload.length, some message, queue.eraseP fun m => m.type = type)

/-- Nothing is received from an empty queue. -/
theorem msgrcv_nil (size : ℕ) (type : κ) :
    msgrcv size type ([] : List (QueueMessage κ β ρ)) = none := rfl

/-- A single message of another type is left alone. -/
theorem msgrcv_singleton_ne {message : QueueMessage κ β ρ} {type : κ} (size : ℕ)
    (h : message.type ≠ type) : msgrcv size type [message] = none := by
  simp [msgrcv, h]

/-- A single message of the type is received and leaves the queue empty. -/
theorem msgrcv_singleton {message : QueueMessage κ β ρ} {size : ℕ}
    (h : message.payload.length ≤ size) :
    msgrcv size message.type [message] =
      some ((message.payload.length : ℤ), some message, []) := by
  simp [msgrcv, Nat.not_lt.mpr h]

end IpcBench.Lib
