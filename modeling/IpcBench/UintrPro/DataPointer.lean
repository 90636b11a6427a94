import IpcBench.UintrPro.Handoff

/-!
# The shared data pointer

`struct __kfifo` lies in the shared segment together with its `data` pointer. The
server stores the pointer once, for its own mapping; every handler run stores it
for the mapping of the client, and the server never stores it again. So from the
second turn of its loop on, the server copies to an address of the client.
-/

namespace IpcBench.UintrPro

open Lib

/-- Every copy in progress goes through a pointer into the mapping of the process
that executes it. -/
def OwnMapping (cfg : Config) (s : State) : Prop :=
  (s.server = .inCall → s.ring.fifo.data = cfg.server + sizeofKfifo) ∧
    (s.handler = .outCall → s.ring.fifo.data = cfg.client + sizeofKfifo)

/-- A handler run has stored the pointer. -/
def Stored (s : State) : Prop :=
  s.handler ≠ .idle ∧ s.handler ≠ .entered ∨ s.runs ≠ []

instance (s : State) : Decidable (Stored s) :=
  inferInstanceAs (Decidable (_ ∨ _))

/-- Until the first handler run has stored the pointer it is the one of the
server, from then on it is the one of the client. -/
def LastStore (cfg : Config) (s : State) : Prop :=
  s.ring.fifo.data = (if Stored s then cfg.client else cfg.server) + sizeofKfifo

theorem not_stored_start (cfg : Config) (fifo₀ : Kfifo) (area singleStart : List UInt8) :
    ¬ Stored (start cfg fifo₀ area singleStart) := by
  simp [Stored, start]

theorem lastStore_start (cfg : Config) (fifo₀ : Kfifo) (area singleStart : List UInt8) :
    LastStore cfg (start cfg fifo₀ area singleStart) := by
  rw [LastStore, if_neg (not_stored_start cfg fifo₀ area singleStart)]
  exact (initFifo_spec cfg fifo₀).1

/-- The first store of a handler run is the only step that writes the pointer, and the
only one after which a handler run has stored it where none had before. -/
theorem step_stored {cfg : Config} {s t : State} {a : Action} (hother : a ≠ .storeData)
    (hstep : step cfg s a = some t) :
    t.ring.fifo.data = s.ring.fifo.data ∧ (Stored t ↔ Stored s) := by
  cases a with
  | stamp timestamp =>
    obtain ⟨_, ring, hring, rfl⟩ := step_stamp hstep
    exact ⟨(Spsc.step_geometry hring).2.2, Iff.rfl⟩
  | serverCopy =>
    obtain ⟨_, ring, hring, rfl⟩ := step_serverCopy hstep
    exact ⟨(Spsc.step_geometry hring).2.2, Iff.rfl⟩
  | serverPublish =>
    obtain ⟨_, ring, hring, rfl⟩ := step_serverPublish hstep
    exact ⟨(Spsc.step_geometry hring).2.2, Iff.rfl⟩
  | senduipi =>
    obtain ⟨_, rfl⟩ := step_senduipi hstep
    exact ⟨rfl, Iff.rfl⟩
  | spin =>
    obtain ⟨_, ⟨_, rfl⟩ | ⟨_, rfl⟩⟩ := step_spin hstep
    · exact ⟨rfl, Iff.rfl⟩
    · exact ⟨rfl, Iff.rfl⟩
  | loseInterrupt =>
    obtain ⟨_, rfl⟩ := step_loseInterrupt hstep
    exact ⟨rfl, Iff.rfl⟩
  | deliver =>
    obtain ⟨⟨hidle, _⟩, rfl⟩ := step_deliver hstep
    exact ⟨rfl, by simp [Stored, hidle]⟩
  | storeData => exact absurd rfl hother
  | measure =>
    obtain ⟨hhandler, rfl⟩ := step_measure hstep
    exact ⟨rfl, by simp [Stored, hhandler]⟩
  | handlerBegin =>
    obtain ⟨len, ring, hhandler, hring, rfl⟩ := step_handlerBegin hstep
    exact ⟨(Spsc.step_geometry hring).2.2, by simp [Stored, hhandler]⟩
  | handlerCopy =>
    obtain ⟨hhandler, ring, hring, rfl⟩ := step_handlerCopy hstep
    exact ⟨(Spsc.step_geometry hring).2.2, Iff.rfl⟩
  | handlerPublish =>
    obtain ⟨hhandler, ring, hring, rfl⟩ := step_handlerPublish hstep
    exact ⟨(Spsc.step_geometry hring).2.2, by simp [Stored, hhandler]⟩

theorem stored_of_storeData {cfg : Config} {s t : State}
    (hstep : step cfg s .storeData = some t) : Stored t := by
  obtain ⟨_, rfl⟩ := step_storeData hstep
  simp [Stored]

/-- Every step keeps `LastStore`. -/
theorem LastStore.step {cfg : Config} {s t : State} {a : Action} (h : LastStore cfg s)
    (hstep : UintrPro.step cfg s a = some t) : LastStore cfg t := by
  by_cases hstore : a = .storeData
  · subst hstore
    have hstored := stored_of_storeData hstep
    obtain ⟨_, rfl⟩ := step_storeData hstep
    rw [LastStore, if_pos hstored]
    rfl
  · obtain ⟨hdata, hstored⟩ := step_stored hstore hstep
    rw [LastStore, hdata, h]
    simp only [hstored]

/-- After a store of the handler the pointer is the one of the client. -/
theorem LastStore.data_eq_client {cfg : Config} {s : State} (h : LastStore cfg s)
    (hstored : Stored s) : s.ring.fifo.data = cfg.client + sizeofKfifo := by
  rw [h, if_pos hstored]

/-- In a state of a run the copies in progress keep to their mappings exactly when the
server is not inside `__kfifo_in` after a store of the handler, unless the two mappings
have one address. -/
theorem LastStore.ownMapping_iff_server {cfg : Config} {s : State} (h : LastStore cfg s) :
    OwnMapping cfg s ↔ (s.server = .inCall → cfg.server = cfg.client ∨ ¬ Stored s) := by
  have hhandler : s.handler = .outCall → s.ring.fifo.data = cfg.client + sizeofKfifo := by
    intro hout
    exact h.data_eq_client (Or.inl (by simp [hout]))
  rw [OwnMapping, and_iff_left hhandler]
  refine imp_congr_right fun _ => ?_
  rw [h, UInt64.add_left_inj]
  by_cases hstored : Stored s
  · simp [hstored, eq_comm]
  · simp [hstored]

/-- One undisturbed turn of the loop and the next timestamp bring the server into
`__kfifo_in` with the pointer that the handler has stored. -/
theorem run_second_write (cfg : Config) (fifo₀ : Kfifo) {area singleStart : List UInt8}
    (harea : 4096 ≤ area.length) (hsingle : singleStart.length = 8) (first second : UInt64) :
    ∃ s, run (step cfg) (start cfg fifo₀ area singleStart)
        (writeActions first ++ handleActions ++ [.stamp second]) = some s ∧
      s.server = .inCall ∧ s.ring.fifo.data = cfg.client + sizeofKfifo := by
  obtain ⟨t, hround, ht, hserver, hstamps⟩ :=
    run_round cfg (inv_start cfg fifo₀ harea hsingle) rfl first
  have hdata : t.ring.fifo.data = cfg.client + sizeofKfifo := by
    have hlast := run_invariant (LastStore cfg) LastStore.step
      (lastStore_start cfg fifo₀ area singleStart) hround
    have hruns : t.runs ≠ [] := by
      rw [ht.runs_eq, hstamps]
      simp [start]
    exact hlast.data_eq_client (Or.inr hruns)
  obtain ⟨s, hstep, hinCall, _, hfifo, _⟩ := stamp_enabled cfg ht hserver second
  refine ⟨s, run_append hround (run_cons_eq_some.mpr ⟨s, hstep, rfl⟩), hinCall, ?_⟩
  rw [hfifo, hdata]

/-- Every copy of every run stays in the mapping of its own process exactly when
`shmat` has attached the segment at the same address in both. -/
theorem ownMapping_iff (cfg : Config) (fifo₀ : Kfifo) (area singleStart : List UInt8)
    (harea : 4096 ≤ area.length) (hsingle : singleStart.length = 8) :
    (∀ actions s, run (step cfg) (start cfg fifo₀ area singleStart) actions = some s →
      OwnMapping cfg s) ↔ cfg.server = cfg.client := by
  constructor
  · intro hown
    obtain ⟨s, hrun, hserver, hdata⟩ := run_second_write cfg fifo₀ harea hsingle 0 0
    have hsame := (hown _ s hrun).1 hserver
    rw [hdata] at hsame
    exact (UInt64.add_left_inj _).mp hsame.symm
  · intro hsame actions s hrun
    have hlast := run_invariant (LastStore cfg) LastStore.step
      (lastStore_start cfg fifo₀ area singleStart) hrun
    exact hlast.ownMapping_iff_server.mpr fun _ => Or.inl hsame

/-- With the segment at one address the second write stays in the server's mapping. -/
theorem ownMapping_iff_one_address :
    ∃ s, run (step ⟨0x7f0000000000, 0x7f0000000000, true⟩)
        (start ⟨0x7f0000000000, 0x7f0000000000, true⟩ ⟨0, 0, 0, 0, 0⟩ (List.replicate 4096 0)
          (List.replicate 8 0)) (writeActions 7 ++ handleActions ++ [.stamp 8]) = some s ∧
      s.server = .inCall ∧ OwnMapping ⟨0x7f0000000000, 0x7f0000000000, true⟩ s := by
  obtain ⟨s, hrun, hserver, _⟩ := run_second_write ⟨0x7f0000000000, 0x7f0000000000, true⟩
    ⟨0, 0, 0, 0, 0⟩ List.length_replicate.ge List.length_replicate 7 8
  exact ⟨s, hrun, hserver,
    (ownMapping_iff _ _ _ _ List.length_replicate.ge List.length_replicate).mpr rfl _ s hrun⟩

/-- The second timestamp is written through the pointer of the client. -/
theorem second_write_foreign :
    ∃ s, run (step ⟨0x7f0000000000, 0x7f1000000000, false⟩)
        (start ⟨0x7f0000000000, 0x7f1000000000, false⟩ ⟨0, 0, 0, 0, 0⟩ (List.replicate 4096 0)
          (List.replicate 8 0)) (writeActions 7 ++ handleActions ++ [.stamp 8]) = some s ∧
      s.server = .inCall ∧ s.ring.fifo.data = 0x7f1000000018 ∧
      ¬ OwnMapping ⟨0x7f0000000000, 0x7f1000000000, false⟩ s := by
  obtain ⟨s, hrun, hserver, hdata⟩ := run_second_write ⟨0x7f0000000000, 0x7f1000000000, false⟩
    ⟨0, 0, 0, 0, 0⟩ List.length_replicate.ge List.length_replicate 7 8
  refine ⟨s, hrun, hserver, hdata, ?_⟩
  intro hown
  have hsame := hown.1 hserver
  rw [hdata] at hsame
  exact absurd hsame (by decide)

/-- The steps that keep every copy in the mapping of its own process where the addresses
differ: the server enters `__kfifo_in` only before the first store of a handler run, and no
handler run stores the pointer while the server is inside. -/
def KeepsOwn (cfg : Config) (s : State) : Action → Prop
  | .stamp _ => cfg.server = cfg.client ∨ ¬ Stored s
  | .storeData => cfg.server = cfg.client ∨ s.server ≠ .inCall
  | _ => True

/-- Only a new timestamp brings the server into `__kfifo_in`. -/
theorem step_inCall {cfg : Config} {s t : State} {a : Action}
    (hstep : step cfg s a = some t) (hserver : t.server = .inCall) :
    s.server = .inCall ∨ ∃ timestamp, a = .stamp timestamp := by
  cases a with
  | stamp timestamp => exact Or.inr ⟨timestamp, rfl⟩
  | serverCopy => exact Or.inl (step_serverCopy hstep).1
  | serverPublish => exact Or.inl (step_serverPublish hstep).1
  | senduipi =>
    obtain ⟨_, rfl⟩ := step_senduipi hstep
    cases hserver
  | spin =>
    obtain ⟨_, ⟨_, rfl⟩ | ⟨_, rfl⟩⟩ := step_spin hstep
    · cases hserver
    · exact Or.inl hserver
  | loseInterrupt =>
    obtain ⟨_, rfl⟩ := step_loseInterrupt hstep
    exact Or.inl hserver
  | deliver =>
    obtain ⟨_, rfl⟩ := step_deliver hstep
    exact Or.inl hserver
  | storeData =>
    obtain ⟨_, rfl⟩ := step_storeData hstep
    exact Or.inl hserver
  | measure =>
    obtain ⟨_, rfl⟩ := step_measure hstep
    exact Or.inl hserver
  | handlerBegin =>
    obtain ⟨_, _, _, _, rfl⟩ := step_handlerBegin hstep
    exact Or.inl hserver
  | handlerCopy =>
    obtain ⟨_, _, _, rfl⟩ := step_handlerCopy hstep
    exact Or.inl hserver
  | handlerPublish =>
    obtain ⟨_, _, _, rfl⟩ := step_handlerPublish hstep
    exact Or.inl hserver

/-- A step from a state whose copies keep to their mappings leads to such a state exactly
when it meets the condition. -/
theorem LastStore.step_ownMapping_iff {cfg : Config} {s t : State} {a : Action}
    (h : LastStore cfg s) (hown : OwnMapping cfg s)
    (hstep : UintrPro.step cfg s a = some t) : OwnMapping cfg t ↔ KeepsOwn cfg s a := by
  rw [(h.step hstep).ownMapping_iff_server]
  rw [h.ownMapping_iff_server] at hown
  by_cases hstore : a = .storeData
  · subst hstore
    have hstored := stored_of_storeData hstep
    obtain ⟨_, rfl⟩ := step_storeData hstep
    simp only [hstored, not_true, or_false]
    exact imp_iff_or_not
  · obtain ⟨_, hstored⟩ := step_stored hstore hstep
    rw [hstored]
    cases a with
    | stamp timestamp =>
      obtain ⟨_, ring, _, rfl⟩ := step_stamp hstep
      exact ⟨fun h => h rfl, fun h _ => h⟩
    | storeData => exact absurd rfl hstore
    | _ =>
      refine iff_of_true (fun hserver => ?_) trivial
      rcases step_inCall hstep hserver with hbefore | ⟨timestamp, hstamp⟩
      · exact hown hbefore
      · cases hstamp

/-- Run by run: every copy of a run stays in the mapping of its own process exactly when
every step of the run meets the condition. -/
theorem ownMapping_throughout_iff (cfg : Config) (fifo₀ : Kfifo) (area singleStart : List UInt8)
    {actions : List Action} {s : State}
    (hrun : run (step cfg) (start cfg fifo₀ area singleStart) actions = some s) :
    Throughout (step cfg) (OwnMapping cfg) (start cfg fifo₀ area singleStart) actions ↔
      Meets (step cfg) (KeepsOwn cfg) (start cfg fifo₀ area singleStart) actions := by
  apply throughout_iff_meets (fun s => LastStore cfg s ∧ OwnMapping cfg s) And.right _ _ _ hrun
  · intro s a t h hmet hstep
    exact ⟨h.1.step hstep, (h.1.step_ownMapping_iff h.2 hstep).mpr hmet⟩
  · intro s a t h hunmet hstep hown
    exact hunmet ((h.1.step_ownMapping_iff h.2 hstep).mp hown)
  · have hlast := lastStore_start cfg fifo₀ area singleStart
    exact ⟨hlast, hlast.ownMapping_iff_server.mpr fun _ =>
      Or.inr (not_stored_start cfg fifo₀ area singleStart)⟩

/-- At any two addresses the server can write its first timestamp, and no handler run comes
in its way. -/
theorem run_first_write (cfg : Config) (fifo₀ : Kfifo) {area singleStart : List UInt8}
    (harea : 4096 ≤ area.length) (hsingle : singleStart.length = 8) (first : UInt64) :
    (∃ s, run (step cfg) (start cfg fifo₀ area singleStart) (writeActions first) = some s) ∧
      Meets (step cfg) (KeepsOwn cfg) (start cfg fifo₀ area singleStart) (writeActions first) := by
  obtain ⟨s, hrun, _⟩ := run_writeActions cfg (inv_start cfg fifo₀ harea hsingle) rfl first
  refine ⟨⟨s, hrun⟩, Or.inr (not_stored_start cfg fifo₀ area singleStart), fun t _ => ?_⟩
  apply meets_of_forall
  intro a ha s
  rcases List.mem_append.mp ha with hcopy | hrest
  · rw [List.eq_of_mem_replicate hcopy]
    trivial
  · rcases List.mem_pair.mp hrest with rfl | rfl <;> trivial

/-- The first write stays in the mapping of the server. -/
theorem ownMapping_throughout_iff_first_write :
    ∃ s, run (step ⟨0x7f0000000000, 0x7f1000000000, false⟩)
        (start ⟨0x7f0000000000, 0x7f1000000000, false⟩ ⟨0, 0, 0, 0, 0⟩ (List.replicate 4096 0)
          (List.replicate 8 0)) (writeActions 7) = some s ∧
      Throughout (step ⟨0x7f0000000000, 0x7f1000000000, false⟩)
        (OwnMapping ⟨0x7f0000000000, 0x7f1000000000, false⟩)
        (start ⟨0x7f0000000000, 0x7f1000000000, false⟩ ⟨0, 0, 0, 0, 0⟩ (List.replicate 4096 0)
          (List.replicate 8 0)) (writeActions 7) := by
  obtain ⟨⟨s, hrun⟩, hmet⟩ := run_first_write ⟨0x7f0000000000, 0x7f1000000000, false⟩
    ⟨0, 0, 0, 0, 0⟩ List.length_replicate.ge List.length_replicate 7
  exact ⟨s, hrun, (ownMapping_throughout_iff _ _ _ _ hrun).mpr hmet⟩

end IpcBench.UintrPro
