import Mathlib.Data.List.Basic

/-!
# The record of a request and reply exchange

One side asks, the other side answers with a reading of its clock, and the first side
takes a reading of its own when the answer arrives. The journal keeps what happened:
how often was asked, the readings that were given as answers with the number of
questions at that moment, the answers received, the pairs of readings from which a
sample was computed, and all readings in order. If asking, stamping, receiving and
sampling follow each other in turn, the answers match the questions.
-/

namespace IpcBench.Lib

variable {τ : Type*}

/-- What has happened in an exchange so far. -/
structure Journal (τ : Type*) where
  asked : ℕ
  stamps : List (τ × ℕ)
  received : List τ
  samples : List (τ × τ)
  readings : List τ
  deriving DecidableEq, Repr

namespace Journal

/-- The journal before the exchange. -/
def empty : Journal τ := ⟨0, [], [], [], []⟩

/-- A question is asked. -/
def ask (j : Journal τ) : Journal τ := { j with asked := j.asked + 1 }

/-- A reading is taken as the answer. -/
def stamp (j : Journal τ) (now : τ) : Journal τ :=
  { j with stamps := j.stamps ++ [(now, j.asked)], readings := j.readings ++ [now] }

/-- An answer arrives. -/
def receive (j : Journal τ) (value : τ) : Journal τ :=
  { j with received := j.received ++ [value] }

/-- A reading is taken and compared with an earlier one. -/
def sample (j : Journal τ) (start now : τ) : Journal τ :=
  { j with samples := j.samples ++ [(start, now)], readings := j.readings ++ [now] }

/-- One more sample, from a reading taken before. -/
theorem sublist_of_sample {samples : List (τ × τ)} {readings : List τ} {start : τ} (now : τ)
    (hold : ∀ sample ∈ samples, [sample.1, sample.2].Sublist readings)
    (hstart : start ∈ readings) :
    ∀ sample ∈ samples ++ [(start, now)], [sample.1, sample.2].Sublist (readings ++ [now]) := by
  intro sample hsample
  rcases List.mem_append.mp hsample with hearlier | hnew
  · exact (hold sample hearlier).trans (List.sublist_append_left _ _)
  · obtain rfl := List.mem_singleton.mp hnew
    exact (List.singleton_sublist.mpr hstart).append (List.Sublist.refl [now])

/-- The answers received are the readings given, in order; the `k`-th reading was taken
after exactly `k` questions; and every sample compares two readings in the order in
which they were taken. -/
structure Paired (j : Journal τ) : Prop where
  received_eq : j.received = (j.stamps.take j.received.length).map Prod.fst
  asked_eq : ∀ (k : ℕ) stamp, j.stamps[k]? = some stamp → stamp.2 = k + 1
  sampled : ∀ sample ∈ j.samples, [sample.1, sample.2].Sublist j.readings

/-- Whose turn it is, with the reading that is under way or has just arrived. -/
inductive Turn (τ : Type*) where
  | resting
  | asked
  | stamped (value : τ)
  | received (value : τ)

/-- The journal of an exchange in which it is the given turn. -/
structure At (j : Journal τ) (turn : Turn τ) : Prop extends Paired j where
  asked_count : j.asked = match turn with
    | .resting | .received _ => j.received.length
    | .asked | .stamped _ => j.received.length + 1
  stamps_count : j.stamps.length = match turn with
    | .stamped _ => j.received.length + 1
    | .resting | .asked | .received _ => j.received.length
  underway : match turn with
    | .resting | .asked => True
    | .stamped value => j.stamps[j.received.length]?.map Prod.fst = some value ∧
        value ∈ j.readings
    | .received value => value ∈ j.readings

/-- Nothing has happened yet. -/
theorem at_empty : (empty : Journal τ).At .resting :=
  ⟨⟨rfl, by simp [empty], by simp [empty]⟩, rfl, rfl, trivial⟩

namespace At

variable {j : Journal τ} {value now : τ}

/-- A question after a finished round. -/
theorem ask (h : j.At .resting) : j.ask.At .asked :=
  ⟨⟨h.received_eq, h.asked_eq, h.sampled⟩, congrArg (· + 1) h.asked_count, h.stamps_count, trivial⟩

/-- A reading as the answer to a question. -/
theorem stamp (h : j.At .asked) (now : τ) : (j.stamp now).At (.stamped now) := by
  have hcount : j.stamps.length = j.received.length := h.stamps_count
  refine ⟨⟨?_, ?_, ?_⟩, h.asked_count, ?_, ?_, ?_⟩
  · change j.received = ((j.stamps ++ [(now, j.asked)]).take j.received.length).map Prod.fst
    rw [List.take_append_of_le_length (Nat.le_of_eq hcount.symm)]
    exact h.received_eq
  · intro k stamp hk
    change (j.stamps ++ [(now, j.asked)])[k]? = some stamp at hk
    rcases Nat.lt_or_ge k j.stamps.length with hold | hnew
    · rw [List.getElem?_append_left hold] at hk
      exact h.asked_eq k stamp hk
    · have hlast : k = j.stamps.length := by
        have hlt := (List.getElem?_eq_some_iff.mp hk).1
        rw [List.length_append, List.length_singleton] at hlt
        omega
      rw [hlast, List.getElem?_concat_length, Option.some.injEq] at hk
      rw [← hk, hlast, hcount]
      exact h.asked_count
  · intro sample hsample
    exact (h.sampled sample hsample).trans (List.sublist_append_left _ _)
  · change (j.stamps ++ [(now, j.asked)]).length = j.received.length + 1
    rw [List.length_append, List.length_singleton, hcount]
  · change (j.stamps ++ [(now, j.asked)])[j.received.length]?.map Prod.fst = some now
    rw [← hcount, List.getElem?_concat_length, Option.map_some]
  · exact List.mem_append_right _ (List.mem_singleton_self now)

/-- The answer under way arrives. -/
theorem receive (h : j.At (.stamped value)) : (j.receive value).At (.received value) := by
  obtain ⟨hnext, hmem⟩ := h.underway
  have hlength : (j.received ++ [value]).length = j.received.length + 1 := by
    rw [List.length_append, List.length_singleton]
  refine ⟨⟨?_, h.asked_eq, h.sampled⟩, ?_, ?_, hmem⟩
  · change j.received ++ [value] = (j.stamps.take (j.received ++ [value]).length).map Prod.fst
    rw [hlength, List.take_add_one, List.map_append, ← h.received_eq]
    obtain ⟨stamp, hstamp, rfl⟩ := Option.map_eq_some_iff.mp hnext
    rw [hstamp, Option.toList_some, List.map_singleton]
  · change j.asked = (j.received ++ [value]).length
    rw [hlength]
    exact h.asked_count
  · change j.stamps.length = (j.received ++ [value]).length
    rw [hlength]
    exact h.stamps_count

/-- A sample from the answer that has arrived finishes the round. -/
theorem sample (h : j.At (.received value)) (now : τ) : (j.sample value now).At .resting := by
  have hsampled := sublist_of_sample now h.sampled h.underway
  exact ⟨⟨h.received_eq, h.asked_eq, hsampled⟩, h.asked_count, h.stamps_count, trivial⟩

/-- A question that has been answered is no longer open. -/
theorem not_stamped_of_asked (h : j.At .asked) : ¬ j.At (.stamped value) := by
  intro hstamped
  have hopen : j.stamps.length = j.received.length := h.stamps_count
  have hanswered : j.stamps.length = j.received.length + 1 := hstamped.stamps_count
  omega

/-- Only one reading is under way. -/
theorem stamped_inj {value' : τ} (h : j.At (.stamped value)) (h' : j.At (.stamped value')) :
    value = value' :=
  Option.some.inj (h.underway.1.symm.trans h'.underway.1)

end At

namespace Paired

variable {j : Journal τ}

/-- The `k`-th answer received is the `k`-th reading, taken after `k` questions. -/
theorem stamp_of_received (h : j.Paired) {k : ℕ} {value : τ}
    (hvalue : j.received[k]? = some value) : j.stamps[k]? = some (value, k + 1) := by
  rw [h.received_eq, List.getElem?_map, Option.map_eq_some_iff] at hvalue
  obtain ⟨stamp, hstamp, rfl⟩ := hvalue
  rw [List.getElem?_take, Option.ite_none_right_eq_some] at hstamp
  rw [hstamp.2, ← h.asked_eq k stamp hstamp.2]

end Paired

end Journal

section Underway

variable {stamps : List (τ × ℕ)} {received : ℕ} {value value' : τ}

/-- No reading is on its way. -/
def Unanswered (stamps : List (τ × ℕ)) (received : ℕ) : Prop := stamps.length = received

/-- The reading that is on its way. -/
def Underway (stamps : List (τ × ℕ)) (received : ℕ) (value : τ) : Prop :=
  stamps[received]?.map Prod.fst = some value

theorem Unanswered.not_underway (h : Unanswered stamps received) :
    ¬ Underway stamps received value := by
  rw [Unanswered] at h
  simp [Underway, ← h]

theorem Underway.inj (h : Underway stamps received value) (h' : Underway stamps received value') :
    value = value' :=
  Option.some.inj (h.symm.trans h')

/-- A reading is taken when none is on its way. -/
theorem Unanswered.stamp (h : Unanswered stamps received) (now : τ) (asked : ℕ) :
    Underway (stamps ++ [(now, asked)]) received now := by
  rw [Unanswered] at h
  simp [Underway, ← h]

end Underway

end IpcBench.Lib
