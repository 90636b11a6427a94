import IpcBench.Lib.Region
import IpcBench.Mmap.StartUp
import IpcBench.Mq.Pairing

/-!
# Accesses to the messages of `mq`, `shm` and `mmap`

The message objects of `mq` and the regions of `shm` and `mmap` are as large as the user
asks for, but what goes through them is a timestamp of eight bytes. With fewer bytes the
timestamp does not fit.
-/

namespace IpcBench.Bounds

open Lib MmapStartUp

/-- `limit_message_size` of `mq`, on both sides. -/
def limitMessageSize (size : Int32) : Int32 := if size > 2048 then 2048 else size

/-- The bytes of `message->buffer` that `create_message` allocates. -/
def messageBytes (size : Int32) : ℕ := (limitMessageSize size).toInt.toNat

/-- What `msgrcv` writes to the buffer of a message. -/
def written : Option (QueueMessage ℤ UInt8 Mq.Party) → List Region
  | some received => [⟨0, received.payload.length⟩]
  | none => []

/-- The parts of `message->buffer` that a step of `mq` reads or writes: the fills, what is
sent and received, and on the side of the client the copy out of the buffer. -/
def mqAccesses (size : ℕ) (s : Mq.State) : Mq.Action → List Region
  | .clientFill | .clientSend => [⟨0, size⟩]
  | .clientReceive =>
      match msgrcv 8 Mq.serverMessage s.queue with
      | some (code, received, _) => written received ++ if code < 8 then [] else [⟨0, 8⟩]
      | none => []
  | .serverReceive =>
      match msgrcv size Mq.clientMessage s.queue with
      | some (_, received, _) => written received
      | none => []
  | .serverFill | .serverSend => [⟨0, 8⟩]
  | .clientBenchmark _ | .clientLeave | .serverStamp _ => []

/-- In every run of `mq` every access stays within the buffer. -/
def MqBounded (size : Int32) : Prop :=
  ∀ limits atClient atServer bench actions s a t,
    run (Mq.step limits (messageBytes size)) (Mq.start atClient atServer bench) actions = some s →
    Mq.step limits (messageBytes size) s a = some t →
    ∀ access ∈ mqAccesses (messageBytes size) s a, access.Within ⟨0, messageBytes size⟩

/-- In every run of the guard-byte protocol every access has the property. -/
def EveryAccess (tokens : Guard.Tokens) (prop : Region → Prop) : Prop :=
  ∀ guard payload bench actions s a t offset, payload.length = 8 →
    run (Guard.step tokens) (Guard.start guard payload bench) actions = some s →
    Guard.step tokens s a = some t → accessed s a = some offset → prop ⟨offset, 1⟩

/-- The bytes of a segment or a mapping; `none` if the length is refused. -/
def sharedBytes (size : Int32) : Option ℕ :=
  if accepts size then some (sizeAndOne size).toNat else none

/-- In every run of `shm` every access stays within the segment. If `shmget` refuses the
size, both programs throw and access nothing. -/
def ShmBounded (size : Int32) : Prop :=
  ∀ bytes ∈ sharedBytes size, EveryAccess Guard.shm fun access => access.Within ⟨0, bytes⟩

/-- In every run of `mmap` every access stays within the mapping. If `mmap` refuses the
size, this goes unnoticed and the accesses are made all the same. -/
def MmapBounded (size : Int32) : Prop :=
  EveryAccess Guard.mmap fun access => ∃ bytes ∈ sharedBytes size, access.Within ⟨0, bytes⟩

theorem messageBytes_eq {size : Int32} (hsize : 1 ≤ size) :
    messageBytes size = min size.toInt.toNat 2048 := by
  have hlow : 1 ≤ size.toInt := Int32.le_iff_toInt_le.mp hsize
  have hlimit : size > 2048 ↔ 2048 < size.toInt := Int32.lt_iff_toInt_lt
  rw [messageBytes, limitMessageSize]
  by_cases hlarge : size > 2048
  · rw [if_pos hlarge]
    have hmore := hlimit.mp hlarge
    have hlimited : (2048 : Int32).toInt = 2048 := by decide
    omega
  · rw [if_neg hlarge]
    have hless := mt hlimit.mpr hlarge
    omega

theorem eight_le_iff (size : Int32) : 8 ≤ size ↔ 8 ≤ size.toInt := Int32.le_iff_toInt_le

/-- `msgrcv` writes no more than it was asked for. -/
theorem written_le {size : ℕ} {type : ℤ} {queue rest : List (QueueMessage ℤ UInt8 Mq.Party)}
    {code : ℤ} {received : Option (QueueMessage ℤ UInt8 Mq.Party)}
    (h : msgrcv size type queue = some (code, received, rest)) {access : Region}
    (haccess : access ∈ written received) : access.Within ⟨0, size⟩ := by
  simp only [msgrcv, Option.map_eq_some_iff] at h
  obtain ⟨message, _, hmessage⟩ := h
  split at hmessage
  · obtain ⟨_, rfl, _⟩ := hmessage
    cases haccess
  · next hfits =>
    obtain ⟨_, rfl, _⟩ := hmessage
    obtain rfl := List.mem_singleton.mp haccess
    exact Region.within_zero_iff.mpr (by simpa using hfits)

/-- A buffer of eight bytes is large enough for every access. -/
theorem mqAccesses_within {size : ℕ} (hsize : 8 ≤ size) {s : Mq.State} {a : Mq.Action}
    {access : Region} (haccess : access ∈ mqAccesses size s a) : access.Within ⟨0, size⟩ := by
  have height : (⟨0, 8⟩ : Region).Within ⟨0, size⟩ :=
    Region.within_zero_iff.mpr (by simpa using hsize)
  cases a with
  | clientFill | clientSend =>
    obtain rfl := List.mem_singleton.mp haccess
    exact Region.within_zero_iff.mpr (by simp)
  | clientReceive =>
    simp only [mqAccesses] at haccess
    split at haccess
    · next code received rest hreceive =>
      rcases List.mem_append.mp haccess with hwritten | hcopied
      · have hwithin := Region.within_zero_iff.mp (written_le hreceive hwritten)
        exact Region.within_zero_iff.mpr (hwithin.trans hsize)
      · split at hcopied
        · cases hcopied
        · obtain rfl := List.mem_singleton.mp hcopied
          exact height
    · cases haccess
  | serverReceive =>
    simp only [mqAccesses] at haccess
    split at haccess
    · next hreceive => exact written_le hreceive haccess
    · cases haccess
  | serverFill | serverSend =>
    obtain rfl := List.mem_singleton.mp haccess
    exact height
  | clientBenchmark _ | clientLeave | serverStamp _ => cases haccess

/-- The server comes to copy a timestamp into its message, whatever the size is. -/
theorem exists_serverFill {size : ℕ} (hsize : size ≤ Mq.maximumMessageSize) :
    ∃ s, run (Mq.step ⟨8192, 16384⟩ size) (Mq.start ⟨0, []⟩ ⟨0, []⟩ ⟨0, 0, 0, 0, 0, 0, 0⟩)
        [.clientFill, .clientSend, .serverReceive, .serverStamp 0] = some s ∧
      s.server = .fill 0 := by
  have hlimits : Mq.Admissible ⟨8192, 16384⟩ := ⟨by decide, by decide⟩
  have hsend : msgsnd ⟨8192, 16384⟩ false [] (Mq.request size) = some (0, [Mq.request size]) :=
    hlimits.msgsnd_eq false (by simpa [Mq.request] using hsize)
  have hreceive : msgrcv size Mq.clientMessage [Mq.request size] =
      some ((size : ℤ), some (Mq.request size), []) := by
    simp [msgrcv, Mq.request]
  have hfill : (Mq.Message.fill ⟨0, []⟩ Mq.clientMessage
      (List.replicate size '1'.toUInt8)).sent size .client = Mq.request size := by
    simp [Mq.Message.fill, Mq.Message.sent, Mq.request]
  simp [run, Mq.step, Mq.start, hfill, hsend, hreceive]

/-- `mq` needs eight bytes. -/
theorem mqBounded_iff {size : Int32} (hsize : 1 ≤ size) : MqBounded size ↔ 8 ≤ size := by
  have hbytes := messageBytes_eq hsize
  have hlow : 1 ≤ size.toInt := Int32.le_iff_toInt_le.mp hsize
  rw [eight_le_iff]
  constructor
  · intro h
    have hmaximum : messageBytes size ≤ Mq.maximumMessageSize :=
      hbytes.trans_le (Nat.min_le_right _ _)
    obtain ⟨s, hrun, hserver⟩ := exists_serverFill hmaximum
    have hfill : Mq.step ⟨8192, 16384⟩ (messageBytes size) s .serverFill = some
        { s with
          server := .send
          atServer := s.atServer.fill Mq.serverMessage (wordBytes 0) } := by
      simp [Mq.step, hserver]
    have hwithin := h _ _ _ _ _ _ _ _ hrun hfill ⟨0, 8⟩ (List.mem_singleton.mpr rfl)
    have hle := Region.within_zero_iff.mp hwithin
    simp only [hbytes] at hle
    omega
  · intro hlarge limits atClient atServer bench actions s a t _ _ access haccess
    exact mqAccesses_within (by omega) haccess

/-- The accesses of the guard-byte protocol are to the guard and the eight bytes behind it. -/
theorem everyAccess_of_le {tokens : Guard.Tokens} (htokens : tokens ∈ [Guard.shm, Guard.mmap])
    {prop : Region → Prop} (hprop : ∀ offset ≤ 8, prop ⟨offset, 1⟩) : EveryAccess tokens prop := by
  intro guard payload bench actions s a t offset hpayload hrun _ haccess
  have hinv := run_invariant (Guard.Inv tokens)
    (fun h hstep => h.step (Guard.matched_of_mem htokens) hstep)
    (Guard.inv_start tokens guard bench hpayload) hrun
  exact hprop offset (accessed_le hinv haccess)

/-- A question, and the answer up to its last byte. -/
def lastByte : List Guard.Action :=
  [.clientNotify, .serverWait, .serverStamp 0, .serverCopy, .serverCopy, .serverCopy,
    .serverCopy, .serverCopy, .serverCopy, .serverCopy]

/-- The last one of these bytes is accessed. -/
theorem EveryAccess.at_eight {tokens : Guard.Tokens} (htokens : tokens ∈ [Guard.shm, Guard.mmap])
    {prop : Region → Prop} (h : EveryAccess tokens prop) : prop ⟨8, 1⟩ := by
  simp only [List.mem_cons, List.not_mem_nil, or_false] at htokens
  rcases htokens with rfl | rfl
  · exact h 0 (List.replicate 8 0) ⟨0, 0, 0, 0, 0, 0, 0⟩ lastByte _ .serverCopy _ 8 rfl rfl rfl rfl
  · exact h 0 (List.replicate 8 0) ⟨0, 0, 0, 0, 0, 0, 0⟩ lastByte _ .serverCopy _ 8 rfl rfl rfl rfl

/-- So nine bytes are needed for them. -/
theorem everyAccess_within_iff {tokens : Guard.Tokens}
    (htokens : tokens ∈ [Guard.shm, Guard.mmap]) {bytes : ℕ} :
    (EveryAccess tokens fun access => access.Within ⟨0, bytes⟩) ↔ 9 ≤ bytes := by
  constructor
  · intro h
    exact Region.within_zero_iff.mp (h.at_eight htokens)
  · intro hbytes
    refine everyAccess_of_le htokens fun offset hoffset => Region.within_zero_iff.mpr ?_
    dsimp only
    omega

/-- What is shared is the guard and the message, unless the size is the largest one. -/
theorem sharedBytes_eq {size : Int32} (hsize : 1 ≤ size) :
    sharedBytes size =
      if size = Int32.maxValue then none else some (1 + size.toInt.toNat) := by
  have hlow : 1 ≤ size.toInt := Int32.le_iff_toInt_le.mp hsize
  by_cases hlargest : size = Int32.maxValue
  · have hrefused : ¬ accepts size = true := fun h => (accepts_iff hsize).mp h hlargest
    rw [sharedBytes, if_neg hrefused, if_pos hlargest]
  · have haccepted := (accepts_iff hsize).mpr hlargest
    have hhigh : size.toInt ≠ 2147483647 := fun heq => hlargest (Int32.toInt.inj heq)
    have hlt := size.toInt_lt
    rw [sharedBytes, if_pos haccepted, if_neg hlargest, sizeAndOne, toInt_add_one (by omega)]
    congr 1
    omega

/-- `shm` needs eight bytes. -/
theorem shmBounded_iff {size : Int32} (hsize : 1 ≤ size) : ShmBounded size ↔ 8 ≤ size := by
  have hlow : 1 ≤ size.toInt := Int32.le_iff_toInt_le.mp hsize
  rw [ShmBounded, sharedBytes_eq hsize]
  by_cases hlargest : size = Int32.maxValue
  · subst hlargest
    exact iff_of_true (by simp) (by decide)
  · simp only [if_neg hlargest, Option.mem_some_iff, forall_eq']
    rw [everyAccess_within_iff (by simp), eight_le_iff]
    omega

/-- `mmap` needs eight bytes, and a size to which one can be added. -/
theorem mmapBounded_iff {size : Int32} (hsize : 1 ≤ size) :
    MmapBounded size ↔ 8 ≤ size ∧ size ≠ Int32.maxValue := by
  have hlow : 1 ≤ size.toInt := Int32.le_iff_toInt_le.mp hsize
  rw [MmapBounded, sharedBytes_eq hsize]
  by_cases hlargest : size = Int32.maxValue
  · -- no access at all is within a mapping that was refused
    refine iff_of_false (fun h => ?_) (fun h => h.2 hlargest)
    obtain ⟨bytes, hbytes, _⟩ := h.at_eight (by simp)
    rw [if_pos hlargest] at hbytes
    cases hbytes
  · simp only [if_neg hlargest, Option.mem_some_iff, exists_eq_left']
    rw [everyAccess_within_iff (by simp), eight_le_iff, and_iff_left hlargest]
    omega

/-- The messages of `mq`, `shm` and `mmap`, for every size from one on and any number of
rounds: every access stays within the bytes that were requested if and only if these are
eight for the message, and in `mmap` the size is not the largest one. -/
theorem messages_bounded_iff (size : Int32) (hsize : 1 ≤ size) :
    (MqBounded size ↔ 8 ≤ size) ∧ (ShmBounded size ↔ 8 ≤ size) ∧
      (MmapBounded size ↔ 8 ≤ size ∧ size ≠ Int32.maxValue) :=
  ⟨mqBounded_iff hsize, shmBounded_iff hsize, mmapBounded_iff hsize⟩

/-- The default size is large enough. -/
theorem messages_bounded_iff_default :
    MqBounded 4096 ∧ ShmBounded 4096 ∧ MmapBounded 4096 := by
  obtain ⟨hmq, hshm, hmmap⟩ := messages_bounded_iff 4096 (by decide)
  exact ⟨hmq.mpr (by decide), hshm.mpr (by decide), hmmap.mpr ⟨by decide, by decide⟩⟩

/-- One byte, as in the first runs of the benchmark script, is not. -/
theorem one_byte_message_overrun :
    ¬ MqBounded 1 ∧ ¬ ShmBounded 1 ∧ ¬ MmapBounded 1 := by
  refine ⟨?_, ?_, ?_⟩
  · rw [mqBounded_iff (by decide)]
    decide
  · rw [shmBounded_iff (by decide)]
    decide
  · rw [mmapBounded_iff (by decide)]
    decide

end IpcBench.Bounds
