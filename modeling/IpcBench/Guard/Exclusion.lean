import IpcBench.Lib.Journal
import IpcBench.Guard.Protocol

/-!
# The guard byte keeps the two sides apart

Whatever the region contained, the guard separates the copies of the two sides:
the server is outside its wait loop only while the guard holds the client's token,
and the client copies only while it holds the server's.
-/

namespace IpcBench.Guard

open Lib

/-- Each side stores what the other waits for, and the two tokens differ. -/
structure Tokens.Matched (tokens : Tokens) : Prop where
  ask : tokens.clientNotify = tokens.serverWait
  answer : tokens.serverNotify = tokens.clientWait
  ne : tokens.serverWait ≠ tokens.clientWait

theorem matched_of_mem {tokens : Tokens} (h : tokens ∈ [shm, mmap]) : tokens.Matched := by
  simp only [List.mem_cons, List.not_mem_nil, or_false] at h
  rcases h with rfl | rfl
  · exact ⟨rfl, rfl, by decide⟩
  · exact ⟨rfl, rfl, by decide⟩

/-- The payload is the last timestamp, all eight bytes of it. -/
def Complete (s : State) : Prop :=
  ∃ stamp, s.stamps.getLast? = some stamp ∧ s.payload = wordBytes stamp.1

/-- What holds between any two steps, from any initial content of the region. -/
structure Inv (tokens : Tokens) (s : State) : Prop where
  payload_length : s.payload.length = 8
  serving : s.server ≠ .wait → s.guard = tokens.serverWait
  writing : ∀ timestamp done, s.server = .copy timestamp done →
    done < 8 ∧ s.payload.take done = (wordBytes timestamp).take done ∧
      ∃ n, s.stamps.getLast? = some (timestamp, n)
  written : s.server = .notify → Complete s
  answered : s.client = .wait → s.guard = tokens.clientWait → Complete s
  copying : ∀ copied, s.client = .copy copied →
    s.guard = tokens.clientWait ∧ Complete s ∧ copied.length < 8 ∧
      copied = s.payload.take copied.length
  untorn : ∀ value ∈ s.received, ∃ stamp ∈ s.stamps, value = wordBytes stamp.1
  recorded : s.client = .bench → ∃ stamp ∈ s.stamps, s.bench.singleStart = stamp.1
  clocked : ∀ stamp ∈ s.stamps, stamp.1 ∈ s.readings
  sampled : ∀ sample ∈ s.samples, [sample.1, sample.2].Sublist s.readings

/-- The invariant holds before the two loops, whatever the region contains. -/
theorem inv_start (tokens : Tokens) (guard : UInt8) {payload : List UInt8} (bench : Benchmarks)
    (hpayload : payload.length = 8) : Inv tokens (start guard payload bench) := by
  constructor <;> simp [start, hpayload]

namespace Inv

variable {tokens : Tokens} {s t : State}

/-- The two sides are never inside their copies at the same time. -/
theorem server_waits (h : Inv tokens s) (hmatched : tokens.Matched) {copied : List UInt8}
    (hclient : s.client = .copy copied) : s.server = .wait := by
  by_contra hbusy
  exact hmatched.ne ((h.serving hbusy).symm.trans (h.copying copied hclient).1)

/-- The client asks. -/
theorem clientNotify (h : Inv tokens s) (hmatched : tokens.Matched)
    (hstep : step tokens s .clientNotify = some t) : Inv tokens t := by
  obtain ⟨_, rfl⟩ := step_clientNotify hstep
  exact { h with
    serving := fun _ => hmatched.ask
    answered := fun _ hguard => absurd (hmatched.ask.symm.trans hguard) hmatched.ne
    copying := by simp
    recorded := by simp }

/-- The client looks at the guard. -/
theorem clientWait (h : Inv tokens s) (hstep : step tokens s .clientWait = some t) :
    Inv tokens t := by
  obtain ⟨hclient, ⟨hguard, rfl⟩ | ⟨_, rfl⟩⟩ := step_clientWait hstep
  · have hcomplete := h.answered hclient hguard
    refine { h with answered := by simp, copying := ?_, recorded := by simp }
    intro copied hcopy
    obtain rfl := ClientPc.copy.inj hcopy
    exact ⟨hguard, hcomplete, by simp, rfl⟩
  · exact h

/-- The next byte of the client's copy extends the part of the payload it has. -/
theorem copied_append (h : Inv tokens s) {copied : List UInt8} {b : UInt8}
    (hclient : s.client = .copy copied) (hb : s.payload[copied.length]? = some b) :
    copied ++ [b] = s.payload.take (copied.length + 1) := by
  obtain ⟨_, _, _, hcopied⟩ := h.copying copied hclient
  rw [List.take_add_one, hb, Option.toList_some, ← hcopied]

/-- With the eighth byte the client has the last timestamp. -/
theorem copied_full (h : Inv tokens s) {copied : List UInt8} {b : UInt8}
    (hclient : s.client = .copy copied) (hb : s.payload[copied.length]? = some b)
    (hfull : ¬ (copied ++ [b]).length < 8) :
    ∃ stamp, s.stamps.getLast? = some stamp ∧ copied ++ [b] = wordBytes stamp.1 := by
  obtain ⟨_, ⟨stamp, hlast, hpayload⟩, _, _⟩ := h.copying copied hclient
  have hlength := h.payload_length
  rw [List.length_append, List.length_singleton] at hfull
  refine ⟨stamp, hlast, ?_⟩
  rw [h.copied_append hclient hb, List.take_of_length_le (by omega), hpayload]

/-- One more byte for the client: the payload does not change under its copy. -/
theorem clientCopy (h : Inv tokens s) (hstep : step tokens s .clientCopy = some t) :
    Inv tokens t := by
  obtain ⟨copied, b, hclient, hb, rfl⟩ := step_clientCopy hstep
  unfold copyIn
  by_cases hmore : (copied ++ [b]).length < 8
  · rw [if_pos hmore]
    obtain ⟨hguard, hcomplete, _, _⟩ := h.copying copied hclient
    refine { h with answered := by simp, copying := ?_, recorded := by simp }
    intro copied' hcopy
    obtain rfl := ClientPc.copy.inj hcopy
    refine ⟨hguard, hcomplete, hmore, ?_⟩
    rw [List.length_append, List.length_singleton, ← h.copied_append hclient hb]
  · rw [if_neg hmore]
    obtain ⟨stamp, hlast, hvalue⟩ := h.copied_full hclient hb hmore
    have hmem := List.mem_of_getLast? hlast
    refine { h with answered := by simp, copying := by simp, untorn := ?_, recorded := ?_ }
    · intro value hvalueMem
      rcases List.mem_append.mp hvalueMem with hold | hnew
      · exact h.untorn value hold
      · rw [List.mem_singleton] at hnew
        exact ⟨stamp, hmem, hnew.trans hvalue⟩
    · exact fun _ => ⟨stamp, hmem, by rw [hvalue, ofWordBytes_wordBytes]⟩

/-- The client subtracts: its reading of the clock comes after that of the server. -/
theorem clientBenchmark {now : UInt64} (h : Inv tokens s)
    (hstep : step tokens s (.clientBenchmark now) = some t) : Inv tokens t := by
  obtain ⟨hclient, rfl⟩ := step_clientBenchmark hstep
  obtain ⟨stamp, hstamp, hsingle⟩ := h.recorded hclient
  have hearlier : s.bench.singleStart ∈ s.readings := by
    rw [hsingle]
    exact h.clocked stamp hstamp
  exact { h with
    answered := by simp
    copying := by simp
    recorded := by simp
    clocked := fun stamp hmem => List.mem_append_left _ (h.clocked stamp hmem)
    sampled := Journal.sublist_of_sample now h.sampled hearlier }

/-- The client leaves its loop. -/
theorem clientLeave (h : Inv tokens s) (hstep : step tokens s .clientLeave = some t) :
    Inv tokens t := by
  obtain ⟨_, rfl⟩ := step_clientLeave hstep
  exact { h with answered := by simp, copying := by simp, recorded := by simp }

/-- The server looks at the guard. -/
theorem serverWait (h : Inv tokens s) (hstep : step tokens s .serverWait = some t) :
    Inv tokens t := by
  obtain ⟨_, ⟨hguard, rfl⟩ | ⟨_, rfl⟩⟩ := step_serverWait hstep
  · exact { h with serving := fun _ => hguard, writing := by simp, written := by simp }
  · exact h

/-- The server takes a timestamp. -/
theorem serverStamp {now : UInt64} (h : Inv tokens s) (hmatched : tokens.Matched)
    (hstep : step tokens s (.serverStamp now) = some t) : Inv tokens t := by
  obtain ⟨hserver, rfl⟩ := step_serverStamp hstep
  have hguard := h.serving (by simp [hserver])
  refine { h with
    serving := fun _ => hguard
    writing := ?_
    written := by simp
    answered := fun _ hanswer => absurd (hguard.symm.trans hanswer) hmatched.ne
    copying := fun copied hcopy =>
      absurd (hguard.symm.trans (h.copying copied hcopy).1) hmatched.ne
    untorn := ?_
    recorded := ?_
    clocked := ?_
    sampled := fun sample hsample =>
      (h.sampled sample hsample).trans (List.sublist_append_left _ _) }
  · intro timestamp done hcopy
    obtain ⟨rfl, rfl⟩ := ServerPc.copy.inj hcopy
    exact ⟨by decide, rfl, s.asked, List.getLast?_concat⟩
  · intro value hvalue
    obtain ⟨stamp, hmem, heq⟩ := h.untorn value hvalue
    exact ⟨stamp, List.mem_append_left _ hmem, heq⟩
  · intro hclient
    obtain ⟨stamp, hmem, heq⟩ := h.recorded hclient
    exact ⟨stamp, List.mem_append_left _ hmem, heq⟩
  · intro stamp hmem
    rcases List.mem_append.mp hmem with hold | hnew
    · exact List.mem_append_left _ (h.clocked stamp hold)
    · obtain rfl := List.mem_singleton.mp hnew
      exact List.mem_append_right _ (List.mem_singleton_self now)

/-- One more byte from the server, while the client is kept out. -/
theorem serverCopy (h : Inv tokens s) (hmatched : tokens.Matched)
    (hstep : step tokens s .serverCopy = some t) : Inv tokens t := by
  obtain ⟨timestamp, done, b, hserver, hb, rfl⟩ := step_serverCopy hstep
  have hguard := h.serving (by simp [hserver])
  obtain ⟨hdone, htake, n, hlast⟩ := h.writing timestamp done hserver
  have hlength := h.payload_length
  have hnext : (s.payload.set done b).take (done + 1) = (wordBytes timestamp).take (done + 1) := by
    rw [List.take_add_one, List.take_add_one, hb, List.getElem?_set_self (by omega),
      List.take_set_of_le (Nat.le_refl done), htake]
  have hset : (s.payload.set done b).length = 8 := by rw [List.length_set, hlength]
  refine { h with
    payload_length := hset
    serving := fun _ => hguard
    writing := ?_
    written := ?_
    answered := fun _ hanswer => absurd (hguard.symm.trans hanswer) hmatched.ne
    copying := fun copied hcopy =>
      absurd (hguard.symm.trans (h.copying copied hcopy).1) hmatched.ne }
  · intro timestamp' done' hcopy
    simp only [copyOut] at hcopy
    split at hcopy
    · next hmore =>
      obtain ⟨rfl, rfl⟩ := ServerPc.copy.inj hcopy
      exact ⟨hmore, hnext, n, hlast⟩
    · simp at hcopy
  · intro hnotify
    simp only [copyOut] at hnotify
    split at hnotify
    · simp at hnotify
    · next hall =>
      obtain rfl : done = 7 := by omega
      rw [List.take_of_length_le (Nat.le_of_eq hset),
        List.take_of_length_le (Nat.le_of_eq (length_wordBytes timestamp))] at hnext
      exact ⟨(timestamp, n), hlast, hnext⟩

/-- The server answers. -/
theorem serverNotify (h : Inv tokens s) (hmatched : tokens.Matched)
    (hstep : step tokens s .serverNotify = some t) : Inv tokens t := by
  obtain ⟨hserver, rfl⟩ := step_serverNotify hstep
  have hguard := h.serving (by simp [hserver])
  have hcomplete := h.written hserver
  exact { h with
    serving := by simp
    writing := by simp
    written := by simp
    answered := fun _ _ => hcomplete
    copying := fun copied hcopy =>
      absurd (hguard.symm.trans (h.copying copied hcopy).1) hmatched.ne }

/-- Every step of either side keeps the invariant. -/
theorem step {a : Action} (h : Inv tokens s) (hmatched : tokens.Matched)
    (hstep : Guard.step tokens s a = some t) : Inv tokens t := by
  cases a with
  | clientNotify => exact h.clientNotify hmatched hstep
  | clientWait => exact h.clientWait hstep
  | clientCopy => exact h.clientCopy hstep
  | clientBenchmark now => exact h.clientBenchmark hstep
  | clientLeave => exact h.clientLeave hstep
  | serverWait => exact h.serverWait hstep
  | serverStamp now => exact h.serverStamp hmatched hstep
  | serverCopy => exact h.serverCopy hmatched hstep
  | serverNotify => exact h.serverNotify hmatched hstep

end Inv

end IpcBench.Guard
