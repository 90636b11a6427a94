import IpcBench.Common.KfifoSteps

/-!
# One producer and one consumer hand everything over

Consequences of the step invariant of `KfifoSteps`: neither side gets stuck inside
a call, the producer keeps out of the slots the consumer is copying, an
uninterrupted sequence of steps is one call of the sequential functions, and after
every run what was returned is a prefix of what was accepted.
-/

namespace IpcBench

open Lib

namespace Spsc

namespace Inv

variable {s t : State} {o i : ℕ}

/-- As long as bytes are left to copy, the producer can copy the next one: it
never leaves the data area. -/
theorem inCopy_enabled {buf : List UInt8} {len : UInt32} {done : ℕ} (h : Inv s o i)
    (hprod : s.producer = .copying buf len done)
    (hmore : done < len.toNat * s.fifo.esize.toNat) : ∃ t, Spsc.step s .inCopy = some t := by
  obtain ⟨hbuf, _, _⟩ := h.producing _ _ _ hprod
  obtain ⟨hplan, hcells⟩ := h.inPlan_spec hprod
  have hcell : (inPlan s len).cell done < s.area.length := by
    rw [hcells done hmore]
    exact (Nat.mod_lt _ h.sized.bytes_pos).trans_le h.area_ge
  have hbyte : done < buf.length := by omega
  simp [Spsc.step, hprod, hplan, hmore, hcell, hbyte]

/-- With all bytes copied, the producer can publish. -/
theorem inPublish_enabled {buf : List UInt8} {len : UInt32} (h : Inv s o i)
    (hprod : s.producer = .copying buf len (len.toNat * s.fifo.esize.toNat)) :
    ∃ t, Spsc.step s .inPublish = some t := by
  have hplan := (h.inPlan_spec hprod).1
  simp [Spsc.step, hprod, hplan]

/-- As long as bytes are left to copy, the consumer can copy the next one. -/
theorem outCopy_enabled {len : UInt32} {copied : List UInt8} (h : Inv s o i)
    (hcons : s.consumer = .copying len copied)
    (hmore : copied.length < len.toNat * s.fifo.esize.toNat) :
    ∃ t, Spsc.step s .outCopy = some t := by
  obtain ⟨hplan, hcells⟩ := h.outPlan_spec hcons
  have hcell : (outPlan s len).cell copied.length < s.area.length := by
    rw [hcells _ hmore]
    exact (Nat.mod_lt _ h.sized.bytes_pos).trans_le h.area_ge
  simp [Spsc.step, hcons, hplan, hmore, hcell]

/-- With all bytes copied, the consumer can publish. -/
theorem outPublish_enabled {len : UInt32} {copied : List UInt8} (h : Inv s o i)
    (hcons : s.consumer = .copying len copied)
    (hdone : copied.length = len.toNat * s.fifo.esize.toNat) :
    ∃ t, Spsc.step s .outPublish = some t := by
  have hplan := (h.outPlan_spec hcons).1
  simp [Spsc.step, hcons, hplan, hdone]

/-- A producer inside a call can always go on. -/
theorem producer_enabled (h : Inv s o i) (hbusy : s.producer ≠ .idle) :
    (Spsc.step s .inCopy).isSome = true ∨ (Spsc.step s .inPublish).isSome = true := by
  cases hprod : s.producer with
  | idle => exact absurd hprod hbusy
  | copying buf len done =>
    obtain ⟨_, hle, _⟩ := h.producing _ _ _ hprod
    rw [Option.isSome_iff_exists, Option.isSome_iff_exists]
    by_cases hmore : done < len.toNat * s.fifo.esize.toNat
    · exact Or.inl (h.inCopy_enabled hprod hmore)
    · obtain rfl : done = len.toNat * s.fifo.esize.toNat := by omega
      exact Or.inr (h.inPublish_enabled hprod)

/-- A consumer inside a call can always go on. -/
theorem consumer_enabled (h : Inv s o i) (hbusy : s.consumer ≠ .idle) :
    (Spsc.step s .outCopy).isSome = true ∨ (Spsc.step s .outPublish).isSome = true := by
  cases hcons : s.consumer with
  | idle => exact absurd hcons hbusy
  | copying len copied =>
    obtain ⟨_, hle, _⟩ := h.consuming _ _ hcons
    rw [Option.isSome_iff_exists, Option.isSome_iff_exists]
    by_cases hmore : copied.length < len.toNat * s.fifo.esize.toNat
    · exact Or.inl (h.outCopy_enabled hcons hmore)
    · exact Or.inr (h.outPublish_enabled hcons (by omega))

/-- The slot of byte `j` of a copy at counter `x`. -/
theorem slot_eq (h : Inv s o i) (x j : ℕ) :
    (x * s.fifo.esize.toNat + j) % s.fifo.bytes / s.fifo.esize.toNat =
      (x + j / s.fifo.esize.toNat) % s.fifo.cap := by
  rw [Kfifo.bytes, Nat.mod_mul_left_div_self, Nat.add_comm,
    Nat.add_mul_div_right _ _ h.sized.esize_pos, Nat.add_comm]

/-- The producer's next write is in no slot that the consumer still has to copy:
their stream positions are less than one turn of the ring apart. -/
theorem nextWrite_slot_ne (h : Inv s o i) {w r : ℕ} (hw : nextWrite s = some w)
    (hr : r ∈ toCopy s) : w / s.fifo.esize.toNat ≠ r / s.fifo.esize.toNat := by
  cases hprod : s.producer with
  | idle => simp [nextWrite, hprod] at hw
  | copying buf len done =>
    cases hcons : s.consumer with
    | idle => simp [toCopy, hcons] at hr
    | copying len' copied =>
      obtain ⟨_, _, hroom⟩ := h.producing _ _ _ hprod
      obtain ⟨hwin, _, _⟩ := h.consuming _ _ hcons
      obtain ⟨hplan, hcells⟩ := h.inPlan_spec hprod
      obtain ⟨hplan', hcells'⟩ := h.outPlan_spec hcons
      simp only [nextWrite, hprod, hplan, Option.ite_none_right_eq_some, Option.some.injEq] at hw
      obtain ⟨hdone, rfl⟩ := hw
      simp only [toCopy, hcons, hplan', List.mem_map, List.mem_range'_1] at hr
      obtain ⟨j, ⟨_, hj⟩, rfl⟩ := hr
      have hj' : j < len'.toNat * s.fifo.esize.toNat := by omega
      have hdoneSlot : done / s.fifo.esize.toNat < len.toNat :=
        Nat.div_lt_of_lt_mul (by rwa [Nat.mul_comm])
      have hjSlot : j / s.fifo.esize.toNat < len'.toNat :=
        Nat.div_lt_of_lt_mul (by rwa [Nat.mul_comm])
      rw [hcells _ hdone, hcells' _ hj', h.slot_eq, h.slot_eq]
      generalize done / s.fifo.esize.toNat = p at *
      generalize j / s.fifo.esize.toNat = r at *
      exact (mod_ne_mod_of_lt (by omega) (by omega)).symm

end Inv

/-- The rest of the producer's copy, run without interruption: the remaining
bytes are in their cells and every other cell is as before. -/
theorem run_inCopy {s : State} {o i k : ℕ} {buf : List UInt8} {len : UInt32} {done : ℕ}
    (h : Inv s o i) (hprod : s.producer = .copying buf len done)
    (hk : done + k = len.toNat * s.fifo.esize.toNat) :
    ∃ area, run step s (List.replicate k .inCopy) =
        some { s with area := area,
                      producer := .copying buf len (len.toNat * s.fifo.esize.toNat) } ∧
      (∀ j, done ≤ j → j < len.toNat * s.fifo.esize.toNat →
        area[(i * s.fifo.esize.toNat + j) % s.fifo.bytes]? = buf[j]?) ∧
      (∀ c, (∀ j, done ≤ j → j < len.toNat * s.fifo.esize.toNat →
        c ≠ (i * s.fifo.esize.toNat + j) % s.fifo.bytes) → area[c]? = s.area[c]?) := by
  induction k generalizing s done with
  | zero =>
    refine ⟨s.area, ?_, fun j hlo hhi => absurd hhi (by omega), fun _ _ => rfl⟩
    obtain rfl : done = len.toNat * s.fifo.esize.toNat := by omega
    simp [← hprod]
  | succ k ih =>
    obtain ⟨hbuf, _, hroom⟩ := h.producing _ _ _ hprod
    obtain ⟨hplan, hcells⟩ := h.inPlan_spec hprod
    have hturn : len.toNat * s.fifo.esize.toNat ≤ s.fifo.bytes := by
      have hle := h.counts.le
      exact Nat.mul_le_mul_right _ (by omega)
    have hcell := hcells done (by omega)
    have hinside : (i * s.fifo.esize.toNat + done) % s.fifo.bytes < s.area.length :=
      (Nat.mod_lt _ h.sized.bytes_pos).trans_le h.area_ge
    have hbyte : done < buf.length := by omega
    have hmore : done < (inPlan s len).len.toNat := by omega
    have hstep : step s .inCopy = some
        { s with area := s.area.set ((i * s.fifo.esize.toNat + done) % s.fifo.bytes) buf[done],
                 producer := .copying buf len (done + 1) } := by
      simp [step, hprod, hmore, hcell, hinside, List.getElem?_eq_getElem hbyte]
    obtain ⟨area, hrest, hnew, hold⟩ :=
      ih (h.inCopy hstep) rfl (show done + 1 + k = len.toNat * s.fifo.esize.toNat by omega)
    refine ⟨area, ?_, ?_, ?_⟩
    · rw [List.replicate_succ]
      exact run_cons_eq_some.mpr ⟨_, hstep, hrest⟩
    · intro j hlo hhi
      by_cases hj : j = done
      · subst hj
        rw [hold]
        · simp [hinside, hbyte]
        · intro j' hlo' hhi'
          have hhi'' : j' < len.toNat * s.fifo.esize.toNat := hhi'
          exact mod_ne_mod_of_lt (by change _ < i * s.fifo.esize.toNat + j'; omega)
            (by change i * s.fifo.esize.toNat + j' < _ + s.fifo.bytes; omega)
      · exact hnew j (by omega) hhi
    · intro c hc
      rw [hold c (fun j hlo hhi => hc j (by omega) hhi)]
      exact List.getElem?_set_ne (hc done le_rfl (by omega)).symm

/-- An uninterrupted call of the producer is `__kfifo_in`: the byte steps add up
to the two `memcpy` calls. -/
theorem run_kfifoIn {s : State} {o i : ℕ} (h : Inv s o i) (hidle : s.producer = .idle)
    {buf : List UInt8} {len : UInt32}
    (hfit : (clampIn s.fifo len).toNat * s.fifo.esize.toNat ≤ buf.length) :
    ∃ n fifo area, kfifoIn s.fifo s.area buf len = some (n, fifo, area) ∧
      run step s (.inBegin buf len ::
          (List.replicate (n.toNat * s.fifo.esize.toNat) .inCopy ++ [.inPublish])) =
        some { s with fifo := fifo, area := area,
                      accepted := s.accepted ++ buf.take (n.toNat * s.fifo.esize.toNat) } := by
  have hbegin : step s (.inBegin buf len) =
      some { s with producer := .copying buf (clampIn s.fifo len) 0 } := by
    simp [step, hidle, hfit]
  have hinv := h.inBegin hbegin
  obtain ⟨hbuf, _, hroom⟩ := hinv.producing _ _ _ rfl
  obtain ⟨area, hcopies, hnew, hold⟩ := run_inCopy (k := _) hinv rfl (Nat.zero_add _)
  have hclamp : (clampIn s.fifo len).toNat ≤ s.fifo.cap := by
    rw [h.counts.toNat_clampIn h.sized len]
    omega
  obtain ⟨area', hcopy, _, hnew', hold'⟩ := kfifoCopyIn_spec h.sized hclamp i h.area_ge hbuf
  obtain rfl : area = area' := by
    apply List.ext_getElem?
    intro c
    by_cases hcell : ∃ j, j < (clampIn s.fifo len).toNat * s.fifo.esize.toNat ∧
        c = (i * s.fifo.esize.toNat + j) % s.fifo.bytes
    · obtain ⟨j, hj, rfl⟩ := hcell
      exact (hnew j (Nat.zero_le _) hj).trans (hnew' j hj).symm
    · have hother : ∀ j, j < (clampIn s.fifo len).toNat * s.fifo.esize.toNat →
          c ≠ (i * s.fifo.esize.toNat + j) % s.fifo.bytes := fun j hj heq => hcell ⟨j, hj, heq⟩
      exact (hold c fun j _ hj => hother j hj).trans (hold' c hother).symm
  refine ⟨clampIn s.fifo len, { s.fifo with inIndex := s.fifo.inIndex + clampIn s.fifo len }, area,
    ?_, ?_⟩
  · simp only [kfifoIn, h.counts.in_eq, hcopy, Option.bind_eq_bind, Option.bind_some,
      Option.pure_def]
  · refine run_cons_eq_some.mpr ⟨_, hbegin, run_append hcopies ?_⟩
    have hplan := (hinv.inPlan_spec rfl).1
    simp only [inPlan] at hplan
    simp [run, step, inPlan, hplan, hidle]

/-- The rest of the consumer's copy, run without interruption, changes nothing
but the copied bytes. -/
theorem run_outCopy {s : State} {o i k : ℕ} {len : UInt32} {copied : List UInt8}
    (h : Inv s o i) (hcons : s.consumer = .copying len copied)
    (hk : copied.length + k = len.toNat * s.fifo.esize.toNat) :
    ∃ bytes, run step s (List.replicate k .outCopy) =
        some { s with consumer := .copying len bytes } ∧
      bytes.length = len.toNat * s.fifo.esize.toNat ∧
      Inv { s with consumer := .copying len bytes } o i := by
  induction k generalizing s copied with
  | zero =>
    have hsame : ({ s with consumer := .copying len copied } : State) = s := by rw [← hcons]
    exact ⟨copied, by simp [hsame], by omega, by rwa [hsame]⟩
  | succ k ih =>
    obtain ⟨hplan, hcells⟩ := h.outPlan_spec hcons
    have hmore : copied.length < (outPlan s len).len.toNat := by omega
    have hinside : (outPlan s len).cell copied.length < s.area.length := by
      rw [hcells _ (by omega)]
      exact (Nat.mod_lt _ h.sized.bytes_pos).trans_le h.area_ge
    have hstep : step s .outCopy = some { s with
        consumer := .copying len (copied ++ [s.area[(outPlan s len).cell copied.length]]) } := by
      simp [step, hcons, hmore, List.getElem?_eq_getElem hinside]
    have hcount : (copied ++ [s.area[(outPlan s len).cell copied.length]]).length + k =
        len.toNat * s.fifo.esize.toNat := by
      rw [List.length_append, List.length_singleton]
      omega
    obtain ⟨bytes, hrest, hlength, hinv⟩ := ih (h.outCopy hstep) rfl hcount
    exact ⟨bytes, run_cons_eq_some.mpr ⟨_, hstep, hrest⟩, hlength, hinv⟩

/-- An uninterrupted call of the consumer is `__kfifo_out`. -/
theorem run_kfifoOut {s : State} {o i : ℕ} (h : Inv s o i) (hidle : s.consumer = .idle)
    {buf : List UInt8} {len : UInt32}
    (hfit : (clampOut s.fifo len).toNat * s.fifo.esize.toNat ≤ buf.length) :
    ∃ n fifo bytes, kfifoOut s.fifo s.area buf len = some (n, fifo, fillBuffer bytes buf) ∧
      bytes.length = n.toNat * s.fifo.esize.toNat ∧
      run step s (.outBegin len ::
          (List.replicate (n.toNat * s.fifo.esize.toNat) .outCopy ++ [.outPublish])) =
        some { s with fifo := fifo, returned := s.returned ++ bytes } := by
  have hbegin : step s (.outBegin len) =
      some { s with consumer := .copying (clampOut s.fifo len) [] } := by
    simp [step, hidle]
  obtain ⟨bytes, hcopies, hlength, hinv⟩ :=
    run_outCopy (k := _) (h.outBegin hbegin) rfl (Nat.zero_add _)
  obtain ⟨hwin, _, hbytes⟩ := hinv.consuming _ _ rfl
  have hclamp := h.counts.toNat_clampOut h.sized len
  have hroom := h.counts.room
  have hcap : (clampOut s.fifo len).toNat ≤ s.fifo.cap := by omega
  obtain ⟨dst, hcopy, hdst⟩ := kfifoCopyOut_spec h.sized hcap o h.area_ge hfit
  obtain rfl : dst = fillBuffer bytes buf := by
    have haccepted := h.accepted_length
    have hmul : (o + (clampOut s.fifo len).toNat) * s.fifo.esize.toNat ≤
        i * s.fifo.esize.toNat := Nat.mul_le_mul_right _ hwin
    rw [Nat.add_mul] at hmul
    apply List.ext_getElem?
    intro j
    rw [hdst j, fillBuffer]
    change bytes.length = (clampOut s.fifo len).toNat * s.fifo.esize.toNat at hlength
    by_cases hj : j < (clampOut s.fifo len).toNat * s.fifo.esize.toNat
    · rw [if_pos hj, List.getElem?_append_left (by omega), h.stores _ (by omega) (by omega),
        List.getElem?_append_left (by omega), hbytes, List.getElem?_take_of_lt (by omega),
        List.getElem?_drop]
    · rw [if_neg hj, List.getElem?_append_right (by omega), List.getElem?_drop]
      congr 1
      omega
  refine ⟨clampOut s.fifo len,
    { s.fifo with outIndex := s.fifo.outIndex + clampOut s.fifo len }, bytes, ?_, hlength, ?_⟩
  · simp only [kfifoOut, kfifoOutPeek, h.counts.out_eq, hcopy, Option.bind_eq_bind,
      Option.bind_some, Option.pure_def]
  · refine run_cons_eq_some.mpr ⟨_, hbegin, run_append hcopies ?_⟩
    have hplan := (hinv.outPlan_spec rfl).1
    simp only [outPlan] at hplan
    simp [run, step, outPlan, hplan, hlength, hidle]

/-- No step of either side changes the geometry of the fifo or its data pointer. -/
theorem step_geometry {s t : State} {a : Action} (h : step s a = some t) :
    t.fifo.mask = s.fifo.mask ∧ t.fifo.esize = s.fifo.esize ∧ t.fifo.data = s.fifo.data := by
  cases a with
  | inBegin buf len => obtain ⟨_, _, rfl⟩ := step_inBegin h; exact ⟨rfl, rfl, rfl⟩
  | inCopy => obtain ⟨_, _, _, _, _, _, _, _, rfl⟩ := step_inCopy h; exact ⟨rfl, rfl, rfl⟩
  | inPublish => obtain ⟨_, _, _, _, _, rfl⟩ := step_inPublish h; exact ⟨rfl, rfl, rfl⟩
  | outBegin len => obtain ⟨_, rfl⟩ := step_outBegin h; exact ⟨rfl, rfl, rfl⟩
  | outCopy => obtain ⟨_, _, _, _, _, _, rfl⟩ := step_outCopy h; exact ⟨rfl, rfl, rfl⟩
  | outPublish => obtain ⟨_, _, _, _, rfl⟩ := step_outPublish h; exact ⟨rfl, rfl, rfl⟩

/-- The invariant holds after every run from a fresh fifo, with the geometry
that `__kfifo_init` gave it. -/
theorem inv_of_run {fifo₀ : Kfifo} {buffer : UInt64} {size : UInt32} {esize : UInt64}
    (hok : (kfifoInit fifo₀ buffer size esize).1 = 0)
    (hbytes : (kfifoInit fifo₀ buffer size esize).2.bytes < 2 ^ 32) {area : List UInt8}
    (harea : (kfifoInit fifo₀ buffer size esize).2.bytes ≤ area.length)
    {actions : List Action} {s : State}
    (hrun : run step (start (kfifoInit fifo₀ buffer size esize).2 area) actions = some s) :
    (∃ o i, Inv s o i) ∧ s.fifo.esize.toNat = esize.toNat ∧
      s.fifo.bytes = (kfifoInit fifo₀ buffer size esize).2.bytes := by
  have hinv : (∃ o i, Inv s o i) ∧
      s.fifo.mask = (kfifoInit fifo₀ buffer size esize).2.mask ∧
      s.fifo.esize = (kfifoInit fifo₀ buffer size esize).2.esize := by
    refine run_invariant (fun s => (∃ o i, Inv s o i) ∧ s.fifo.mask = _ ∧ s.fifo.esize = _)
      ?_ ⟨⟨0, 0, inv_start hok hbytes harea⟩, rfl, rfl⟩ hrun
    rintro s a t ⟨⟨o, i, h⟩, hmask, hesize⟩ hstep
    obtain ⟨hmask', hesize', _⟩ := step_geometry hstep
    exact ⟨h.step hstep, hmask'.trans hmask, hesize'.trans hesize⟩
  obtain ⟨hex, hmask, hesize⟩ := hinv
  obtain ⟨_, _, _, _, hsize⟩ := kfifoInit_spec hok
  refine ⟨hex, by rw [hesize, hsize], ?_⟩
  rw [Kfifo.bytes, Kfifo.cap, hmask, hesize, Kfifo.bytes, Kfifo.cap]

/-- One lock-free producer and one lock-free consumer. After every run of their
steps, in any order, what the consumer has returned is a prefix of what the
producer has accepted, both in whole elements; the rest is intact in the data
area and as long as `kfifo_len` says. The producer never writes into a slot that
a call of the consumer still has to copy, and neither side ever gets stuck inside
a call. -/
theorem spsc_safe (fifo₀ : Kfifo) (buffer : UInt64) (size : UInt32) (esize : UInt64)
    (area : List UInt8) (actions : List Action) (s : State)
    (hok : (kfifoInit fifo₀ buffer size esize).1 = 0)
    (hbytes : (kfifoInit fifo₀ buffer size esize).2.bytes < 2 ^ 32)
    (harea : (kfifoInit fifo₀ buffer size esize).2.bytes ≤ area.length)
    (hrun : run step (start (kfifoInit fifo₀ buffer size esize).2 area) actions = some s) :
    s.returned <+: s.accepted ∧
      esize.toNat ∣ s.returned.length ∧ esize.toNat ∣ s.accepted.length ∧
      s.accepted.length = s.returned.length + (kfifoLen s.fifo).toNat * esize.toNat ∧
      (∀ t, s.returned.length ≤ t → t < s.accepted.length →
        s.area[t % (kfifoInit fifo₀ buffer size esize).2.bytes]? = s.accepted[t]?) ∧
      (∀ w r, nextWrite s = some w → r ∈ toCopy s → w / esize.toNat ≠ r / esize.toNat) ∧
      (s.producer ≠ .idle →
        (step s .inCopy).isSome = true ∨ (step s .inPublish).isSome = true) ∧
      (s.consumer ≠ .idle →
        (step s .outCopy).isSome = true ∨ (step s .outPublish).isSome = true) := by
  obtain ⟨⟨o, i, h⟩, hesize, hbytesEq⟩ := inv_of_run hok hbytes harea hrun
  have hle := h.counts.le
  have haccepted := h.accepted_length
  have hlen : (kfifoLen s.fifo).toNat = i - o := h.counts.toNat_len h.sized
  have hreturned : s.returned.length = o * s.fifo.esize.toNat := by
    rw [h.returned_eq, List.length_take, haccepted]
    exact Nat.min_eq_left (Nat.mul_le_mul_right _ hle)
  rw [← hesize, ← hbytesEq, hlen, haccepted, hreturned]
  refine ⟨?_, Dvd.intro_left _ rfl, Dvd.intro_left _ rfl, ?_, ?_, ?_, h.producer_enabled,
    h.consumer_enabled⟩
  · rw [h.returned_eq]
    exact List.take_prefix _ _
  · rw [← Nat.add_mul]
    congr 1
    omega
  · intro t hlo hhi
    rw [h.stores t hlo (by omega), List.getElem?_append_left (by omega)]
  · intro w r hw hr
    exact h.nextWrite_slot_ne hw hr

/-- Two elements of two bytes: the consumer copies the first while the producer,
having seen the fifo full, waits inside its second call. -/
theorem spsc_safe_two_elements :
    ∃ s, run step (start (kfifoInit ⟨9, 9, 9, 9, 9⟩ 0 4 2).2 [0, 0, 0, 0])
        [.inBegin [1, 2, 3, 4] 2, .inCopy, .inCopy, .inCopy, .inCopy, .inPublish,
          .outBegin 1, .outCopy, .inBegin [5, 6] 1, .outCopy, .inPublish, .outPublish] = some s ∧
      s.returned = [1, 2] ∧ s.accepted = [1, 2, 3, 4] ∧ s.returned <+: s.accepted := by
  refine ⟨_, rfl, rfl, rfl, ?_⟩
  exact (spsc_safe ⟨9, 9, 9, 9, 9⟩ 0 4 2 [0, 0, 0, 0]
    [.inBegin [1, 2, 3, 4] 2, .inCopy, .inCopy, .inCopy, .inCopy, .inPublish,
      .outBegin 1, .outCopy, .inBegin [5, 6] 1, .outCopy, .inPublish, .outPublish] _
    (by decide) (by decide) (by decide) rfl).1

end Spsc

end IpcBench
