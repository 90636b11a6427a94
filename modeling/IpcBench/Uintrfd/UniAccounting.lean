import IpcBench.Lib.IntCounter
import IpcBench.Uintrfd.Uni

/-!
# The samples of `uintrfd-uni`

The flag `uintr_received` separates the rounds: the client clears it before it stores
the next start, and the handler sets it as its last access. Between the two the client
only spins, so the handler finds the start of the current round, and a client that has
seen the flag finds the sample recorded and counted.
-/

namespace IpcBench.UintrfdUni

open Lib

/-- How many starts have been stored, samples recorded and runs counted. -/
def Counts (s : State) (starts samples counted : ℕ) : Prop :=
  s.starts.length = starts ∧ s.samples.length = samples ∧ s.bench.count.toInt = samples ∧
    s.uintrCount.toNat = counted

/-- Where the client and the handler stand in the round after the `k` rounds the client
has finished. -/
inductive Phase (s : State) (k : ℕ) : Prop where
  | rest (hclient : s.client = clientHead s.loop) (hhandler : s.handler = .idle)
      (howed : s.owed = 0) (hcounts : Counts s k k k)
  | cleared (hclient : s.client = .stamp) (hhandler : s.handler = .idle) (howed : s.owed = 0)
      (hflag : s.received = 0) (hcounts : Counts s k k k)
  | stamped (hclient : s.client = .send) (hhandler : s.handler = .idle) (howed : s.owed = 0)
      (hflag : s.received = 0) (hlast : s.starts.getLast? = some s.bench.singleStart)
      (hcounts : Counts s (k + 1) k k)
  | sent (hclient : s.client = .spin) (hhandler : s.handler = .idle) (howed : s.owed = 1)
      (hflag : s.received = 0) (hlast : s.starts.getLast? = some s.bench.singleStart)
      (hcounts : Counts s (k + 1) k k)
  | sampling (hclient : s.client = .spin)
      (hhandler : s.handler = .clock ∨ ∃ now, s.handler = .sample now) (howed : s.owed = 0)
      (hflag : s.received = 0) (hlast : s.starts.getLast? = some s.bench.singleStart)
      (hcounts : Counts s (k + 1) k k)
  | sampled (hclient : s.client = .spin) (hhandler : s.handler = .count) (howed : s.owed = 0)
      (hflag : s.received = 0) (hcounts : Counts s (k + 1) (k + 1) k)
  | counted (hclient : s.client = .spin) (hhandler : s.handler = .flag) (howed : s.owed = 0)
      (hflag : s.received = 0) (hcounts : Counts s (k + 1) (k + 1) (k + 1))
  | answered (hclient : s.client = .spin) (hhandler : s.handler = .idle) (howed : s.owed = 0)
      (hflag : s.received ≠ 0) (hcounts : Counts s (k + 1) (k + 1) (k + 1))

/-- What holds between any two steps, `k` rounds after the start. -/
structure Inv (args : Arguments) (s : State) (k : ℕ) : Prop where
  loop_nonneg : 0 ≤ s.loop.toInt
  loop_eq : s.loop.toInt + k = args.count.toInt
  loop_pos : s.client ≠ .done → 0 < s.loop
  paired : s.samples.map Prod.fst = s.starts.take s.samples.length
  evaluated : s.main = .evaluate → args.count.toInt ≤ s.uintrCount.toNat
  phase : Phase s k

/-- At the head of its loop the client starts a round or is done. -/
theorem clientHead_cases (loop : Int32) :
    clientHead loop = .clear ∧ 0 < loop ∨ clientHead loop = .done ∧ ¬ 0 < loop := by
  unfold clientHead
  by_cases hmore : loop > 0
  · exact Or.inl ⟨if_pos hmore, hmore⟩
  · exact Or.inr ⟨if_neg hmore, hmore⟩

/-- A client at the head of its loop that is not done has a round to go. -/
theorem loop_pos_of_head {loop : Int32} (h : clientHead loop ≠ .done) : 0 < loop := by
  rcases clientHead_cases loop with ⟨_, hpos⟩ | ⟨hdone, _⟩
  · exact hpos
  · exact absurd hdone h

/-- A client inside a round is not at the head of its loop. -/
theorem clientHead_ne {loop : Int32} {pc : ClientPc} (hclear : pc ≠ .clear) (hdone : pc ≠ .done) :
    pc ≠ clientHead loop := by
  rcases clientHead_cases loop with ⟨hhead, _⟩ | ⟨hhead, _⟩
  · rwa [hhead]
  · rwa [hhead]

/-- The invariant holds in front of the loops. -/
theorem inv_start {args : Arguments} (bench : Benchmarks) (now : UInt64) (hcount : 1 ≤ args.count) :
    Inv args (start args bench now) 0 := by
  have hone : (1 : Int32).toInt ≤ args.count.toInt := Int32.le_iff_toInt_le.mp hcount
  have hpos : 0 ≤ args.count.toInt := Int.le_trans (by decide) hone
  exact ⟨hpos, Int.add_zero _, loop_pos_of_head, rfl, by simp [start], .rest rfl rfl rfl
    ⟨rfl, rfl, rfl, rfl⟩⟩

namespace Inv

variable {args : Arguments} {s t : State} {k : ℕ}

/-- A round is in progress only while the count is not reached. -/
theorem lt_count (h : Inv args s k) (hclient : s.client ≠ .done) : (k : ℤ) < args.count.toInt := by
  have hpos := toInt_pos (h.loop_pos hclient)
  have hloop := h.loop_eq
  omega

/-- The client starts a round. -/
theorem clientClear (h : Inv args s k) (hstep : step args s .clientClear = some t) :
    Inv args t k := by
  obtain ⟨hclient, rfl⟩ := step_clientClear hstep
  refine { h with loop_pos := fun _ => h.loop_pos (by simp [hclient]), phase := ?_ }
  cases h.phase with
  | rest _ hhandler howed hcounts =>
    exact .cleared rfl hhandler howed rfl hcounts
  | _ => simp_all

/-- The client stores the start of the round. -/
theorem clientStamp {now : UInt64} (h : Inv args s k)
    (hstep : step args s (.clientStamp now) = some t) : Inv args t k := by
  obtain ⟨hclient, rfl⟩ := step_clientStamp hstep
  have hpos := h.loop_pos (by simp [hclient])
  cases h.phase with
  | cleared _ hhandler howed hflag hcounts =>
    obtain ⟨hstarts, hsamples, hrest⟩ := hcounts
    refine { h with loop_pos := fun _ => hpos, paired := ?_, phase := ?_ }
    · rw [List.take_append_of_le_length (by rw [hsamples, hstarts])]
      exact h.paired
    · refine .stamped rfl hhandler howed hflag List.getLast?_concat ⟨?_, hsamples, hrest⟩
      rw [List.length_append, List.length_singleton, hstarts]
  | rest hhead => exact absurd (hclient.symm.trans hhead) (clientHead_ne (by simp) (by simp))
  | _ => simp_all

/-- The client sends the interrupt of the round. -/
theorem clientSend (h : Inv args s k) (hstep : step args s .clientSend = some t) :
    Inv args t k := by
  obtain ⟨hclient, rfl⟩ := step_clientSend hstep
  refine { h with loop_pos := fun _ => h.loop_pos (by simp [hclient]), phase := ?_ }
  cases h.phase with
  | stamped _ hhandler howed hflag hlast hcounts =>
    exact .sent rfl hhandler (by rw [howed]) hflag hlast hcounts
  | rest hhead => exact absurd (hclient.symm.trans hhead) (clientHead_ne (by simp) (by simp))
  | _ => simp_all

/-- The client goes on only when the handler has finished the round. -/
theorem clientSpin (h : Inv args s k) (hstep : step args s .clientSpin = some t) :
    Inv args t k ∨ Inv args t (k + 1) := by
  obtain ⟨hclient, ⟨hflag, rfl⟩ | ⟨_, rfl⟩⟩ := step_clientSpin hstep
  · right
    have hpos := h.loop_pos (by simp [hclient])
    have hdown := toInt_sub_one hpos
    have hloop := h.loop_eq
    have hlow := toInt_pos hpos
    cases h.phase with
    | answered _ hhandler howed _ hcounts =>
      refine ⟨?_, ?_, loop_pos_of_head, h.paired, h.evaluated, .rest rfl hhandler howed
        hcounts⟩
      · change 0 ≤ (s.loop - 1).toInt
        omega
      · change (s.loop - 1).toInt + ((k + 1 : ℕ) : ℤ) = args.count.toInt
        omega
    | rest hhead => exact absurd (hclient.symm.trans hhead) (clientHead_ne (by simp) (by simp))
    | _ => simp_all
  · exact Or.inl h

/-- The handler starts for the interrupt that was sent. -/
theorem handlerEnter (h : Inv args s k) (hstep : step args s .handlerEnter = some t) :
    Inv args t k := by
  obtain ⟨hhandler, howed, rfl⟩ := step_handlerEnter hstep
  refine { h with phase := ?_ }
  cases h.phase with
  | sent hclient _ hone hflag hlast hcounts =>
    exact .sampling hclient (Or.inl rfl) (by rw [hone]) hflag hlast hcounts
  | _ => simp_all

/-- The handler reads the clock. -/
theorem handlerNow {now : UInt64} (h : Inv args s k)
    (hstep : step args s (.handlerNow now) = some t) : Inv args t k := by
  obtain ⟨hhandler, rfl⟩ := step_handlerNow hstep
  refine { h with phase := ?_ }
  cases h.phase with
  | sampling hclient _ howed hflag hlast hcounts =>
    exact .sampling hclient (Or.inr ⟨now, rfl⟩) howed hflag hlast hcounts
  | _ => simp_all

/-- The handler records the sample, which starts at the value of the current round. -/
theorem handlerSample (h : Inv args s k) (hstep : step args s .handlerSample = some t) :
    Inv args t k := by
  obtain ⟨now, hhandler, rfl⟩ := step_handlerSample hstep
  cases h.phase with
  | sampling hclient _ howed hflag hlast hcounts =>
    have hlt := h.lt_count (by simp [hclient])
    have hhigh := args.count.toInt_lt
    obtain ⟨hstarts, hsamples, hbench, hcounted⟩ := hcounts
    refine { h with
      paired := ?_
      phase := .sampled hclient rfl howed hflag ⟨hstarts, ?_, ?_, hcounted⟩ }
    · rw [List.getLast?_eq_getElem?, hstarts, Nat.add_sub_cancel] at hlast
      rw [List.map_append, h.paired, List.length_append, List.length_singleton,
        List.take_add_one, hsamples, hlast]
      rfl
    · rw [List.length_append, List.length_singleton, hsamples]
    · change (benchmark s.bench now).count.toInt = _
      rw [benchmark_count, toInt_add_one (by omega), hbench]
      rfl
  | _ => simp_all

/-- The handler counts its run. -/
theorem handlerCount (h : Inv args s k) (hstep : step args s .handlerCount = some t) :
    Inv args t k := by
  obtain ⟨hhandler, rfl⟩ := step_handlerCount hstep
  cases h.phase with
  | sampled hclient _ howed hflag hcounts =>
    have hlt := h.lt_count (by simp [hclient])
    have hhigh := args.count.toInt_lt
    obtain ⟨hstarts, hsamples, hbench, hcounted⟩ := hcounts
    refine { h with
      evaluated := fun hmain => ?_
      phase := .counted hclient rfl howed hflag ⟨hstarts, hsamples, hbench, ?_⟩ }
    · have hold := h.evaluated hmain
      rw [hcounted] at hold
      omega
    · rw [UInt32.toNat_add, hcounted, UInt32.toNat_one, Nat.mod_eq_of_lt (by omega)]
  | _ => simp_all

/-- The handler sets the flag and returns. -/
theorem handlerFlag (h : Inv args s k) (hstep : step args s .handlerFlag = some t) :
    Inv args t k := by
  obtain ⟨hhandler, rfl⟩ := step_handlerFlag hstep
  refine { h with phase := ?_ }
  cases h.phase with
  | counted hclient _ howed _ hcounts =>
    exact .answered hclient rfl howed (by simp) hcounts
  | _ => simp_all

/-- The main thread leaves its loop when all runs are counted. -/
theorem mainSpin (h : Inv args s k) (hcount : 0 < args.count)
    (hstep : step args s .mainSpin = some t) : Inv args t k := by
  obtain ⟨_, _, ⟨_, rfl⟩ | ⟨hall, rfl⟩⟩ := step_mainSpin hstep
  · exact h
  · rw [lt_toUInt32_iff hcount, Int.not_lt] at hall
    refine { h with evaluated := fun _ => hall, phase := ?_ }
    cases h.phase with
    | rest hclient hhandler howed hcounts =>
      exact .rest hclient hhandler howed hcounts
    | cleared hclient hhandler howed hflag hcounts =>
      exact .cleared hclient hhandler howed hflag hcounts
    | stamped hclient hhandler howed hflag hlast hcounts =>
      exact .stamped hclient hhandler howed hflag hlast hcounts
    | sent hclient hhandler howed hflag hlast hcounts =>
      exact .sent hclient hhandler howed hflag hlast hcounts
    | answered hclient hhandler howed hflag hcounts =>
      exact .answered hclient hhandler howed hflag hcounts
    | sampling _ hrunning => simp_all
    | sampled _ hrunning | counted _ hrunning => simp_all

/-- Every step keeps the invariant, with one more round when the client goes on. -/
theorem step {a : Action} (h : ∃ k, Inv args s k) (hcount : 0 < args.count)
    (hstep : UintrfdUni.step args s a = some t) : ∃ k, Inv args t k := by
  obtain ⟨k, h⟩ := h
  cases a with
  | clientClear => exact ⟨k, h.clientClear hstep⟩
  | clientStamp now => exact ⟨k, h.clientStamp hstep⟩
  | clientSend => exact ⟨k, h.clientSend hstep⟩
  | clientSpin =>
    rcases h.clientSpin hstep with hsame | hnext
    · exact ⟨k, hsame⟩
    · exact ⟨k + 1, hnext⟩
  | handlerEnter => exact ⟨k, h.handlerEnter hstep⟩
  | handlerNow now => exact ⟨k, h.handlerNow hstep⟩
  | handlerSample => exact ⟨k, h.handlerSample hstep⟩
  | handlerCount => exact ⟨k, h.handlerCount hstep⟩
  | handlerFlag => exact ⟨k, h.handlerFlag hstep⟩
  | mainSpin => exact ⟨k, h.mainSpin hcount hstep⟩

/-- The `k`-th sample starts at the value stored in the `k`-th round. -/
theorem sample_start (h : Inv args s k) {i : ℕ} {sample : UInt64 × UInt64}
    (hsample : s.samples[i]? = some sample) : s.starts[i]? = some sample.1 := by
  have hmap : (s.samples.map Prod.fst)[i]? = some sample.1 := by
    rw [List.getElem?_map, hsample, Option.map_some]
  rw [h.paired, List.getElem?_take, Option.ite_none_right_eq_some] at hmap
  exact hmap.2

/-- Between two runs of the handler all samples are counted. -/
theorem count_eq (h : Inv args s k) (hhandler : s.handler = .idle) :
    s.bench.count.toInt = s.uintrCount.toNat := by
  cases h.phase with
  | rest _ _ _ hcounts | cleared _ _ _ _ hcounts | stamped _ _ _ _ _ hcounts
  | sent _ _ _ _ _ hcounts | answered _ _ _ _ hcounts =>
    obtain ⟨_, _, hbench, hcounted⟩ := hcounts
    rw [hbench, hcounted]
  | sampling _ hrunning => simp_all
  | sampled _ hrunning | counted _ hrunning => simp_all

/-- A client about to start a round finds all earlier rounds recorded. -/
theorem recorded (h : Inv args s k) (hclient : s.client = .clear) :
    s.handler = .idle ∧ s.owed = 0 ∧ s.samples.length = s.starts.length ∧
      s.bench.count.toInt = s.starts.length := by
  cases h.phase with
  | rest _ hhandler howed hcounts =>
    obtain ⟨hstarts, hsamples, hbench, _⟩ := hcounts
    rw [hstarts]
    exact ⟨hhandler, howed, hsamples, hbench⟩
  | _ => simp_all

/-- While the handler runs the client spins. -/
theorem client_spins (h : Inv args s k) (hhandler : s.handler ≠ .idle) : s.client = .spin := by
  cases h.phase with
  | sampling hclient | sampled hclient | counted hclient => exact hclient
  | _ => simp_all

/-- `evaluate` finds all samples. -/
theorem evaluate_count (h : Inv args s k) (hmain : s.main = .evaluate) :
    s.bench.count = args.count := by
  have hall := h.evaluated hmain
  have hnonneg := h.loop_nonneg
  have hloop := h.loop_eq
  rw [← Int32.toInt_inj]
  cases h.phase with
  | rest _ _ _ hcounts =>
    obtain ⟨_, _, hbench, hcounted⟩ := hcounts
    omega
  | cleared hclient _ _ _ hcounts | stamped hclient _ _ _ _ hcounts
  | sent hclient _ _ _ _ hcounts | sampling hclient _ _ _ _ hcounts
  | sampled hclient _ _ _ hcounts | counted hclient _ _ _ hcounts
  | answered hclient _ _ _ hcounts =>
    obtain ⟨_, _, hbench, hcounted⟩ := hcounts
    have hlt := h.lt_count (by simp [hclient])
    omega

end Inv

/-- The samples of `uintrfd-uni`, for every positive count and every interleaving of
the client, the handler and the main thread: the `k`-th run of the handler computes
its sample from the start stored in round `k`; between two runs `bench.count` is
`uintr_count`; while the handler runs the client spins; a client about to start a
round finds every earlier sample recorded and counted; and `evaluate` finds
`args->count` samples. -/
theorem samples_accounted (args : Arguments) (bench : Benchmarks) (now : UInt64)
    (actions : List Action) (s : State) (hcount : 1 ≤ args.count)
    (hrun : run (step args) (start args bench now) actions = some s) :
    (∀ (k : ℕ) sample, s.samples[k]? = some sample → s.starts[k]? = some sample.1) ∧
      (s.handler = .idle → s.bench.count.toInt = s.uintrCount.toNat) ∧
      (s.handler ≠ .idle → s.client = .spin) ∧
      (s.client = .clear → s.handler = .idle ∧ s.owed = 0 ∧
        s.samples.length = s.starts.length ∧ s.bench.count.toInt = s.starts.length) ∧
      (s.main = .evaluate → s.bench.count = args.count) := by
  have hpos := pos_of_one_le hcount
  obtain ⟨k, h⟩ := run_invariant (fun s => ∃ k, Inv args s k) (fun h hstep => Inv.step h hpos hstep)
    ⟨0, inv_start bench now hcount⟩ hrun
  exact ⟨fun i sample hsample => h.sample_start hsample, h.count_eq, h.client_spins, h.recorded,
    h.evaluate_count⟩

/-- A benchmark of one round: the main thread looks once too early and then evaluates
the one sample. -/
theorem samples_accounted_one_round :
    ∃ s, run (step ⟨1, 1⟩) (start ⟨1, 1⟩ ⟨0, 0, 0, 0, 0, 0, 7⟩ 2)
        [.clientClear, .clientStamp 10, .clientSend, .mainSpin, .handlerEnter, .clientSpin,
          .handlerNow 25, .handlerSample, .handlerCount, .handlerFlag, .mainSpin] = some s ∧
      s.main = .evaluate ∧ s.samples = [(10, 25)] ∧ s.bench.count = 1 := by
  have hrun : run (step ⟨1, 1⟩) (start ⟨1, 1⟩ ⟨0, 0, 0, 0, 0, 0, 7⟩ 2)
      [.clientClear, .clientStamp 10, .clientSend, .mainSpin, .handlerEnter, .clientSpin,
        .handlerNow 25, .handlerSample, .handlerCount, .handlerFlag, .mainSpin] =
    some ⟨1, 1, ⟨2, 10, 15, 15, 15, 0, 1⟩, .spin, 1, 0, .idle, .evaluate, [10], [(10, 25)]⟩ := by
    decide
  have hsafe := samples_accounted ⟨1, 1⟩ _ _ _ _ (by decide) hrun
  exact ⟨_, hrun, rfl, rfl, hsafe.2.2.2.2 rfl⟩

end IpcBench.UintrfdUni
