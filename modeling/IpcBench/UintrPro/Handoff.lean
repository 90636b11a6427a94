import IpcBench.UintrPro.HandoffInvariant

/-!
# Every handler run delivers exactly one timestamp

Consequences of the invariant: no call gets stuck, an undisturbed turn of the loop
runs through, and in every interleaving the `k`-th handler run leaves the `k`-th
timestamp in `bench.single_start`.
-/

namespace IpcBench.UintrPro

open Lib

namespace Inv

variable {cfg : Config} {s t : State} {k p : ℕ}

/-- The fifo is empty or holds one timestamp. -/
theorem kfifoLen_eq (h : Inv s k p) : kfifoLen s.ring.fifo = 0 ∨ kfifoLen s.ring.fifo = 8 := by
  have hlen := h.toNat_kfifoLen
  rw [← UInt32.toNat_inj, ← UInt32.toNat_inj, hlen]
  change 8 * p - 8 * k = 0 ∨ 8 * p - 8 * k = 8
  cases h.phase <;> omega

/-- A handler run copies eight bytes. -/
theorem copying_eight {len : UInt32} {copied : List UInt8} (h : Inv s k p)
    (hcons : s.ring.consumer = .copying len copied) : len = 8 ∧ copied.length ≤ 8 := by
  cases h.phase with
  | reading _ _ _ _ _ hcons' =>
    obtain ⟨rfl, rfl⟩ := Spsc.Consumer.copying.inj (hcons.symm.trans hcons')
    obtain ⟨_, hle, _⟩ := h.ring.consuming _ _ hcons
    rw [h.esize_eq] at hle
    exact ⟨rfl, hle⟩
  | _ => simp_all

/-- A call in progress is never stuck, on either side. -/
theorem call_enabled (h : Inv s k p) :
    (s.server = .inCall → (UintrPro.step cfg s .serverCopy).isSome = true ∨
      (UintrPro.step cfg s .serverPublish).isSome = true) ∧
    (s.handler = .outCall → (UintrPro.step cfg s .handlerCopy).isSome = true ∨
      (UintrPro.step cfg s .handlerPublish).isSome = true) := by
  constructor
  · intro hserver
    have hbusy : s.ring.producer ≠ .idle := by cases h.phase <;> simp_all
    simpa [UintrPro.step, hserver] using h.ring.producer_enabled hbusy
  · intro hhandler
    have hbusy : s.ring.consumer ≠ .idle := by cases h.phase <;> simp_all
    simpa [UintrPro.step, hhandler] using h.ring.consumer_enabled hbusy

/-- The server copies the rest of its timestamp without interruption. -/
theorem run_serverCopy (cfg : Config) {buf : List UInt8} {done n : ℕ} (h : Inv s k p)
    (hserver : s.server = .inCall) (hprod : s.ring.producer = .copying buf 8 done)
    (hn : done + n = 8) :
    ∃ t, run (UintrPro.step cfg) s (List.replicate n .serverCopy) = some t ∧ Inv t k p ∧
      t.server = .inCall ∧ t.ring.producer = .copying buf 8 8 ∧ t.stamps = s.stamps := by
  induction n generalizing s done with
  | zero =>
    obtain rfl : done = 8 := hn
    exact ⟨s, rfl, h, hserver, hprod, rfl⟩
  | succ n ih =>
    have hmore : done < (8 : UInt32).toNat * s.ring.fifo.esize.toNat := by
      rw [h.esize_eq]
      change done < 8
      omega
    obtain ⟨ring, hring⟩ := h.ring.inCopy_enabled hprod hmore
    have hstep : UintrPro.step cfg s .serverCopy = some { s with ring := ring } := by
      simp [UintrPro.step, hserver, hring]
    obtain ⟨_, _, _, _, hprod', _, _, _, hnext⟩ := Spsc.step_inCopy hring
    obtain ⟨rfl, rfl, rfl⟩ := Spsc.Producer.copying.inj (hprod.symm.trans hprod')
    have hprodNext : ring.producer = .copying buf 8 (done + 1) := by rw [hnext]
    obtain ⟨t, hrest, ht⟩ := ih (h.serverCopy hstep) hserver hprodNext (by omega)
    exact ⟨t, run_cons_eq_some.mpr ⟨_, hstep, hrest⟩, ht⟩

/-- The handler copies the rest of the timestamp without interruption. -/
theorem run_handlerCopy (cfg : Config) {copied : List UInt8} {n : ℕ} (h : Inv s k p)
    (hhandler : s.handler = .outCall) (hcons : s.ring.consumer = .copying 8 copied)
    (hn : copied.length + n = 8) :
    ∃ t bytes, run (UintrPro.step cfg) s (List.replicate n .handlerCopy) = some t ∧ Inv t k p ∧
      t.handler = .outCall ∧ t.ring.consumer = .copying 8 bytes ∧ bytes.length = 8 ∧
      t.stamps = s.stamps := by
  induction n generalizing s copied with
  | zero => exact ⟨s, copied, rfl, h, hhandler, hcons, hn, rfl⟩
  | succ n ih =>
    have hmore : copied.length < (8 : UInt32).toNat * s.ring.fifo.esize.toNat := by
      rw [h.esize_eq]
      change copied.length < 8
      omega
    obtain ⟨ring, hring⟩ := h.ring.outCopy_enabled hcons hmore
    have hstep : UintrPro.step cfg s .handlerCopy = some { s with
        ring := ring, singleStart := fillBuffer (copiedBytes ring.consumer) s.singleStart } := by
      simp [UintrPro.step, hhandler, hring]
    obtain ⟨_, _, b, hcons', _, _, hnext⟩ := Spsc.step_outCopy hring
    obtain ⟨rfl, rfl⟩ := Spsc.Consumer.copying.inj (hcons.symm.trans hcons')
    have hconsNext : ring.consumer = .copying 8 (copied ++ [b]) := by rw [hnext]
    obtain ⟨t, bytes, hrest, ht⟩ := ih (h.handlerCopy hstep) hhandler hconsNext (by simp; omega)
    exact ⟨t, bytes, run_cons_eq_some.mpr ⟨_, hstep, hrest⟩, ht⟩

end Inv

/-- The server takes `timestamp`, writes it and notifies, undisturbed. -/
def writeActions (timestamp : UInt64) : List Action :=
  .stamp timestamp :: (List.replicate 8 .serverCopy ++ [.serverPublish, .senduipi])

/-- One handler run, after which the server sees the fifo empty. -/
def handleActions : List Action :=
  .deliver :: .storeData :: .measure :: .handlerBegin ::
    (List.replicate 8 .handlerCopy ++ [.handlerPublish, .spin])

/-- At the top of its loop the server can always take the next timestamp and enter
`__kfifo_in` with all of it. -/
theorem stamp_enabled (cfg : Config) {s : State} {k p : ℕ} (h : Inv s k p)
    (hserver : s.server = .stamp) (timestamp : UInt64) :
    ∃ t, step cfg s (.stamp timestamp) = some t ∧ t.server = .inCall ∧
      t.stamps = s.stamps ++ [timestamp] ∧ t.ring.fifo = s.ring.fifo ∧
      t.ring.producer = .copying (wordBytes timestamp) 8 0 := by
  cases h.phase with
  | stamping _ _ _ hprod =>
    have hfit : (clampIn s.ring.fifo 8).toNat * s.ring.fifo.esize.toNat ≤
        (wordBytes timestamp).length := by
      rw [h.clampIn_eight, h.esize_eq, length_wordBytes]
      decide
    simp only [step, if_pos hserver, Spsc.step, hprod, if_pos hfit, Option.map_some]
    exact ⟨_, rfl, rfl, rfl, rfl, by rw [h.clampIn_eight]⟩
  | _ => simp_all

/-- The first half of a turn of the loop: the timestamp is in the fifo and one
interrupt is pending. -/
theorem run_writeActions (cfg : Config) {s : State} {k p : ℕ} (h : Inv s k p)
    (hserver : s.server = .stamp) (timestamp : UInt64) :
    ∃ t, run (step cfg) s (writeActions timestamp) = some t ∧ Inv t k (p + 1) ∧
      t.handler = .idle ∧ 0 < t.pending ∧ t.stamps = s.stamps ++ [timestamp] := by
  obtain ⟨u, hstep, huserver, hustamps, _, huprod⟩ := stamp_enabled cfg h hserver timestamp
  obtain ⟨v, hcopies, hv, hvserver, hvprod, hvstamps⟩ :=
    (h.stamp hstep).run_serverCopy cfg huserver huprod (Nat.zero_add 8)
  have hdone : v.ring.producer = .copying (wordBytes timestamp) 8
      ((8 : UInt32).toNat * v.ring.fifo.esize.toNat) := by
    rw [hv.esize_eq]
    exact hvprod
  obtain ⟨ring, hring⟩ := hv.ring.inPublish_enabled hdone
  have hpublish : step cfg v .serverPublish = some { v with ring := ring, server := .notify } := by
    simp [step, hvserver, hring]
  have hw := hv.serverPublish hpublish
  have hnotify : step cfg { v with ring := ring, server := .notify } .senduipi =
      some { v with ring := ring, server := .spin, pending := v.pending + 1 } := rfl
  have hidle : v.handler = .idle := by
    cases hv.phase <;> simp_all
  refine ⟨_, ?_, hw.senduipi hnotify, hidle, Nat.succ_pos _, hvstamps.trans hustamps⟩
  refine run_cons_eq_some.mpr ⟨u, hstep, run_append hcopies ?_⟩
  exact run_cons_eq_some.mpr ⟨_, hpublish, run_cons_eq_some.mpr ⟨_, hnotify, rfl⟩⟩

/-- A handler that has been entered gets to its copy, for all eight bytes. -/
theorem run_handlerEntry (cfg : Config) {s : State} {k p : ℕ} (h : Inv s k p)
    (hhandler : s.handler = .entered) :
    ∃ t, run (step cfg) s [.storeData, .measure, .handlerBegin] = some t ∧ Inv t k p ∧
      t.handler = .outCall ∧ t.ring.consumer = .copying 8 [] ∧ t.stamps = s.stamps := by
  have hstore : step cfg s .storeData = some { s with
      ring := setData s.ring (cfg.client + sizeofKfifo), handler := .pointed } := by
    simp [step, hhandler]
  have hpointed := h.storeData hstore
  generalize hu : ({ s with
    ring := setData s.ring (cfg.client + sizeofKfifo), handler := .pointed } : State) = u at *
  have hmeasure : step cfg u .measure =
      some { u with handler := .measured (kfifoLen u.ring.fifo) } := by
    simp [step, ← hu]
  have hmeasured := hpointed.measure hmeasure
  cases hmeasured.phase with
  | entering _ hlen _ _ hcons =>
    have hidle : u.ring.consumer = .idle := hcons
    have hbegin : step cfg { u with handler := .measured (kfifoLen u.ring.fifo) } .handlerBegin =
        some { u with
          ring := { u.ring with
            consumer := .copying (clampOut u.ring.fifo (kfifoLen u.ring.fifo)) [] }
          handler := .outCall } := by
      simp [step, Spsc.step, hidle]
    have hcopying := hmeasured.handlerBegin hbegin
    cases hcopying.phase with
    | reading _ _ _ copied _ hcons' =>
      obtain ⟨hclamp, rfl⟩ := Spsc.Consumer.copying.inj hcons'
      refine ⟨_, ?_, hcopying, rfl, hcons', by rw [← hu]⟩
      refine run_cons_eq_some.mpr ⟨_, hstore, run_cons_eq_some.mpr ⟨_, hmeasure, ?_⟩⟩
      exact run_cons_eq_some.mpr ⟨_, hbegin, rfl⟩
    | _ => simp_all
  | _ => simp_all

/-- A handler that has copied everything publishes, and the server goes on. -/
theorem run_handlerExit (cfg : Config) {s : State} {k p : ℕ} {bytes : List UInt8} (h : Inv s k p)
    (hhandler : s.handler = .outCall) (hcons : s.ring.consumer = .copying 8 bytes)
    (hbytes : bytes.length = 8) :
    ∃ t, run (step cfg) s [.handlerPublish, .spin] = some t ∧ Inv t (k + 1) (k + 1) ∧
      t.server = .stamp ∧ t.stamps = s.stamps := by
  have hdone : bytes.length = (8 : UInt32).toNat * s.ring.fifo.esize.toNat := by
    rw [h.esize_eq, hbytes]
    rfl
  obtain ⟨ring, hring⟩ := h.ring.outPublish_enabled hcons hdone
  have hpublish : step cfg s .handlerPublish = some { s with
      ring := ring
      handler := .idle
      runs := s.runs ++ [((copiedBytes s.ring.consumer).length, s.singleStart)] } := by
    simp [step, hhandler, hring]
  have hemptied := h.handlerPublish hpublish
  cases h.phase with
  | reading hserver =>
    have hempty : kfifoLen ring.fifo = 0 :=
      UInt32.toNat_inj.mp (hemptied.toNat_kfifoLen.trans (Nat.sub_self _))
    have hspin : step cfg { s with
        ring := ring
        handler := .idle
        runs := s.runs ++ [((copiedBytes s.ring.consumer).length, s.singleStart)] } .spin =
      some { s with
        ring := ring
        server := .stamp
        handler := .idle
        runs := s.runs ++ [((copiedBytes s.ring.consumer).length, s.singleStart)] } := by
      simp [step, hserver, hempty]
    refine ⟨_, ?_, hemptied.spin hspin, rfl, rfl⟩
    exact run_cons_eq_some.mpr ⟨_, hpublish, run_cons_eq_some.mpr ⟨_, hspin, rfl⟩⟩
  | _ => simp_all

/-- The second half: the handler empties the fifo and the loop starts again. -/
theorem run_handleActions (cfg : Config) {s : State} {k p : ℕ} (h : Inv s k p)
    (hhandler : s.handler = .idle) (hpending : 0 < s.pending) :
    ∃ t, run (step cfg) s handleActions = some t ∧ Inv t (k + 1) (k + 1) ∧
      t.server = .stamp ∧ t.stamps = s.stamps := by
  have hdeliver : step cfg s .deliver =
      some { s with pending := s.pending - 1, handler := .entered } := by
    simp [step, hhandler, hpending]
  obtain ⟨t, hentry, ht, hthandler, htcons, htstamps⟩ :=
    run_handlerEntry cfg (h.deliver hpending hdeliver) rfl
  obtain ⟨u, bytes, hcopies, hu, huhandler, hucons, hbytes, hustamps⟩ :=
    ht.run_handlerCopy cfg hthandler htcons (Nat.zero_add 8)
  obtain ⟨v, hexit, hv, hvserver, hvstamps⟩ :=
    run_handlerExit cfg hu huhandler hucons hbytes
  refine ⟨v, ?_, hv, hvserver, hvstamps.trans (hustamps.trans htstamps)⟩
  exact run_cons_eq_some.mpr ⟨_, hdeliver, run_append hentry (run_append hcopies hexit)⟩

/-- One undisturbed turn of the loop hands one timestamp over. -/
theorem run_round (cfg : Config) {s : State} {k p : ℕ} (h : Inv s k p)
    (hserver : s.server = .stamp) (timestamp : UInt64) :
    ∃ t, run (step cfg) s (writeActions timestamp ++ handleActions) = some t ∧
      Inv t (k + 1) (k + 1) ∧ t.server = .stamp ∧ t.stamps = s.stamps ++ [timestamp] := by
  obtain ⟨t, hwrite, ht, hhandler, hpending, hstamps⟩ := run_writeActions cfg h hserver timestamp
  obtain ⟨u, hhandle, hu, huserver, hustamps⟩ := run_handleActions cfg ht hhandler hpending
  exact ⟨u, run_append hwrite hhandle, hu, huserver, hustamps.trans hstamps⟩

/-- The hand-off of timestamps, for handler runs that are each caused by a
`_senduipi` of their own. After every run, in every interleaving: the fifo holds
nothing or one timestamp; a handler run copies eight bytes into the eight-byte
field and never more; the `k`-th finished handler run has left exactly the `k`-th
timestamp there; and a call in progress can always go on. -/
theorem handoff_exact (cfg : Config) (fifo₀ : Kfifo) (area singleStart : List UInt8)
    (actions : List Action) (s : State) (hcause : cfg.spurious = false)
    (harea : 4096 ≤ area.length) (hsingle : singleStart.length = 8)
    (hrun : run (step cfg) (start cfg fifo₀ area singleStart) actions = some s) :
    (kfifoLen s.ring.fifo = 0 ∨ kfifoLen s.ring.fifo = 8) ∧
      (∀ len copied, s.ring.consumer = .copying len copied → len = 8 ∧ copied.length ≤ 8) ∧
      s.singleStart.length = 8 ∧
      (∀ (k n : ℕ) (bytes : List UInt8), s.runs[k]? = some (n, bytes) →
        n = 8 ∧ ∃ timestamp, s.stamps[k]? = some timestamp ∧ bytes = wordBytes timestamp) ∧
      (s.server = .inCall →
        (step cfg s .serverCopy).isSome = true ∨ (step cfg s .serverPublish).isSome = true) ∧
      (s.handler = .outCall →
        (step cfg s .handlerCopy).isSome = true ∨ (step cfg s .handlerPublish).isSome = true) := by
  have hstart : ∃ k p, Inv (start cfg fifo₀ area singleStart) k p :=
    ⟨0, 0, inv_start cfg fifo₀ harea hsingle⟩
  obtain ⟨k, p, h⟩ := run_invariant (fun s => ∃ k p, Inv s k p)
    (fun ⟨_, _, h⟩ hstep => h.step hcause hstep) hstart hrun
  refine ⟨h.kfifoLen_eq, fun len copied => h.copying_eight, h.single_length, ?_, h.call_enabled⟩
  intro j n bytes hj
  rw [h.runs_eq, List.getElem?_map, Option.map_eq_some_iff] at hj
  obtain ⟨timestamp, htimestamp, heq⟩ := hj
  obtain ⟨rfl, rfl⟩ := Prod.mk.inj heq
  rw [List.getElem?_take, Option.ite_none_right_eq_some] at htimestamp
  exact ⟨rfl, timestamp, htimestamp.2, rfl⟩

/-- Two turns of the loop, with the interrupt of the second one pending when the
handler has already delivered the first timestamp. -/
theorem handoff_exact_second_write :
    ∃ s, run (step ⟨4096, 8192, false⟩)
        (start ⟨4096, 8192, false⟩ ⟨9, 9, 9, 9, 9⟩ (List.replicate 4096 0) (List.replicate 8 0))
        (writeActions 7 ++ handleActions ++ writeActions 8) = some s ∧
      s.stamps = [7, 8] ∧ s.runs = [(8, wordBytes 7)] ∧
      (kfifoLen s.ring.fifo = 0 ∨ kfifoLen s.ring.fifo = 8) := by
  have hstart := inv_start ⟨4096, 8192, false⟩ ⟨9, 9, 9, 9, 9⟩
    (List.length_replicate.ge : 4096 ≤ (List.replicate 4096 (0 : UInt8)).length)
    (List.length_replicate : (List.replicate 8 (0 : UInt8)).length = 8)
  obtain ⟨t, hround, ht, hserver, htstamps⟩ := run_round ⟨4096, 8192, false⟩ hstart rfl 7
  obtain ⟨s, hwrite, hs, _, _, hstamps⟩ := run_writeActions ⟨4096, 8192, false⟩ ht hserver 8
  have hrun := run_append hround hwrite
  rw [htstamps] at hstamps
  refine ⟨s, hrun, hstamps, ?_, ?_⟩
  · rw [hs.runs_eq, hstamps]
    rfl
  · exact (handoff_exact _ _ _ _ _ s rfl List.length_replicate.ge List.length_replicate hrun).1

end IpcBench.UintrPro
