import Mathlib.Data.List.Basic

/-!
# A reliable stream in one direction

What is sent is first in transit and arrives later, in order and in pieces of any length.
The receiver takes what has arrived, and blocks while there is less than it asks for. The
stream has no frames; where one message ends and the next begins is for the two ends to
know. The number of items that have arrived in all is kept as a record.
-/

namespace IpcBench.Lib

variable {β : Type*}

/-- What has been sent and not yet been taken, and how much has ever arrived. -/
structure ByteStream (β : Type*) where
  inTransit : List β
  arrived : List β
  delivered : ℕ
  deriving DecidableEq, Repr

namespace ByteStream

/-- Nothing has been sent. -/
def empty : ByteStream β := ⟨[], [], 0⟩

/-- Everything that is sent and not yet taken, oldest first. -/
def content (s : ByteStream β) : List β := s.arrived ++ s.inTransit

/-- All of a message is handed to the stream. -/
def send (s : ByteStream β) (message : List β) : ByteStream β :=
  { s with inTransit := s.inTransit ++ message }

/-- The next `n` items arrive, at least one. -/
def arrive (s : ByteStream β) (n : ℕ) : Option (ByteStream β) :=
  if 0 < n ∧ n ≤ s.inTransit.length then
    some ⟨s.inTransit.drop n, s.arrived ++ s.inTransit.take n, s.delivered + n⟩
  else none

/-- Exactly `n` items are taken; `none` while fewer have arrived. -/
def take (s : ByteStream β) (n : ℕ) : Option (List β × ByteStream β) :=
  if n ≤ s.arrived.length then some (s.arrived.take n, { s with arrived := s.arrived.drop n })
  else none

variable {s t : ByteStream β} {message : List β} {n : ℕ}

/-- What is sent comes last. -/
@[simp] theorem content_send : (s.send message).content = s.content ++ message :=
  (List.append_assoc _ _ _).symm

@[simp] theorem arrived_send : (s.send message).arrived = s.arrived := rfl

/-- An arrival neither loses nor reorders anything. -/
theorem arrive_eq_some (h : s.arrive n = some t) :
    t.content = s.content ∧ 0 < n ∧ t.arrived.length = s.arrived.length + n ∧
      t.delivered = s.delivered + n := by
  simp only [arrive, Option.ite_none_right_eq_some, Option.some.injEq] at h
  obtain ⟨⟨hpos, hle⟩, rfl⟩ := h
  refine ⟨?_, hpos, ?_, rfl⟩
  · rw [content, List.append_assoc, List.take_append_drop]
    rfl
  · rw [List.length_append, List.length_take, Nat.min_eq_left hle]

/-- What is taken are the oldest items, and they have all arrived. -/
theorem take_eq_some {bytes : List β} (h : s.take n = some (bytes, t)) :
    bytes = s.content.take n ∧ t.content = s.content.drop n ∧ n ≤ s.arrived.length ∧
      t.delivered = s.delivered := by
  simp only [take, Option.ite_none_right_eq_some, Option.some.injEq, Prod.mk.injEq] at h
  obtain ⟨hle, rfl, rfl⟩ := h
  refine ⟨?_, ?_, hle, rfl⟩
  · rw [content, List.take_append_of_le_length hle]
  · rw [content, content, List.drop_append_of_le_length hle]

/-- No more can have arrived than is there. -/
theorem arrived_le_content (s : ByteStream β) : s.arrived.length ≤ s.content.length := by
  rw [content, List.length_append]
  exact Nat.le_add_right _ _

/-- When everything has arrived, nothing more arrives. -/
theorem arrive_of_all_arrived (h : s.content.length ≤ s.arrived.length) : s.arrive n = none := by
  rw [content, List.length_append] at h
  exact if_neg (by omega)

/-- From an empty stream nothing can be taken. -/
theorem take_of_content_nil (h : s.content = []) (hpos : 0 < n) : s.take n = none := by
  have hle := s.arrived_le_content
  rw [h, List.length_nil] at hle
  exact if_neg (by omega)

/-- A stream that holds one whole message is empty after it has been taken. -/
theorem take_message (h : s.content = message) {bytes : List β}
    (htake : s.take message.length = some (bytes, t)) :
    bytes = message ∧ t.content = [] ∧ s.arrived.length = message.length ∧
      t.delivered = s.delivered := by
  obtain ⟨hbytes, hcontent, hle, hdelivered⟩ := take_eq_some htake
  have hbound := s.arrived_le_content
  rw [h] at hbytes hcontent hbound
  exact ⟨hbytes.trans List.take_length, hcontent.trans List.drop_length,
    Nat.le_antisymm hbound hle, hdelivered⟩

/-- Everything in transit can arrive at once. -/
theorem arrive_rest (h : s.inTransit ≠ []) :
    ∃ t, s.arrive s.inTransit.length = some t ∧ t.inTransit = [] := by
  have hpos := List.length_pos_of_ne_nil h
  exact ⟨_, if_pos ⟨hpos, Nat.le_refl _⟩, List.drop_length⟩

/-- A message that is all there is and has arrived can be taken. -/
theorem take_arrived (h : s.content = message) (htransit : s.inTransit = []) :
    ∃ t, s.take message.length = some (message, t) ∧ t.inTransit = [] := by
  have harrived : s.arrived = message := by
    rw [← h, content, htransit, List.append_nil]
  refine ⟨{ s with arrived := s.arrived.drop message.length }, ?_, htransit⟩
  rw [take, if_pos (Nat.le_of_eq (congrArg List.length harrived.symm)), harrived, List.take_length]

end ByteStream

end IpcBench.Lib
