import IpcBench.Lib.IntCounter
import IpcBench.Lib.MappedFile
import IpcBench.Guard.Exclusion

/-!
# The start-up of `mmap`

Server and client both open `/tmp/mmap` and create it if it is not there, and both map it.
Only the server makes the file long enough, by writing one byte behind the message in
`make_space`, and nothing makes the client wait for that. After its start-up each process
goes through its part of the guard-byte protocol; an access to a page that is not within
the file, or to a mapping that `mmap` has refused, terminates it. The size is an `int`, so
`bytes + 1` and `1 + args.size` wrap for the largest size.
-/

namespace IpcBench.MmapStartUp

open Lib

/-- Where the server stands: `get_file_descriptor` with `make_space`, the mapping, and
`communicate` with the mapping that `mmap` has given or refused. -/
inductive ServerPc where
  | start
  | seek
  | write (position : ℕ)
  | map
  | communicate (mapped : Bool)
  | faulted
  deriving DecidableEq, Repr

/-- Where the client stands. -/
inductive ClientPc where
  | start
  | map
  | loop (mapped : Bool)
  | faulted
  deriving DecidableEq, Repr

/-- The length of the file, the two processes, and the guard-byte protocol they run. -/
structure State where
  file : Option ℕ
  server : ServerPc
  client : ClientPc
  shared : Guard.State
  deriving DecidableEq, Repr

/-- The calls of the start-up, and the steps of the two loops. -/
inductive Action where
  | serverOpen
  | serverSeek
  | serverWrite
  | serverMap
  | clientOpen
  | clientMap
  | run (a : Guard.Action)
  deriving DecidableEq, Repr

/-- The file is not there; it would start as zeros. -/
def start (bench : Benchmarks) : State :=
  ⟨none, .start, .start, Guard.start 0 (List.replicate 8 0) bench⟩

/-- The argument of `lseek` in `make_space`, and the length that is mapped. -/
def sizeAndOne (size : Int32) : ℤ := (size + 1).toInt

/-- Whether `mmap` accepts the length. The test behind the call, `file_memory < 0`, is
never true of a pointer, so a refused mapping goes unnoticed. -/
def accepts (size : Int32) : Bool := decide (0 < sizeAndOne size)

/-- The steps that belong to the client. -/
def byClient : Guard.Action → Bool
  | .clientNotify | .clientWait | .clientCopy | .clientBenchmark _ | .clientLeave => true
  | .serverWait | .serverStamp _ | .serverCopy | .serverNotify => false

/-- The offset that a step of the loops accesses, the guard or a byte behind it. -/
def accessed (shared : Guard.State) : Guard.Action → Option ℕ
  | .clientNotify | .clientWait | .serverWait | .serverNotify => some 0
  | .clientCopy =>
      match shared.client with
      | .copy copied => some (1 + copied.length)
      | _ => none
  | .serverCopy =>
      match shared.server with
      | .copy _ done => some (1 + done)
      | _ => none
  | .clientBenchmark _ | .clientLeave | .serverStamp _ => none

/-- The mapping of the process that a step belongs to, `none` before its loop. -/
def mapping (s : State) (a : Guard.Action) : Option Bool :=
  if byClient a then
    match s.client with
    | .loop mapped => some mapped
    | _ => none
  else
    match s.server with
    | .communicate mapped => some mapped
    | _ => none

/-- A step accesses a page outside the file or outside the mapping. -/
def faults (s : State) (mapped : Bool) (a : Guard.Action) : Bool :=
  match accessed s.shared a with
  | some offset => !(mapped && pageWithin s.file offset)
  | none => false

/-- One step of either process. -/
def step (size : Int32) (s : State) : Action → Option State
  | .serverOpen =>
      if s.server = .start then some { s with file := openCreate s.file, server := .seek }
      else none
  | .serverSeek =>
      if s.server = .seek then some { s with server := .write (seekSet 0 (sizeAndOne size)) }
      else none
  | .serverWrite =>
      match s.server with
      | .write position => some { s with file := writeByte s.file position, server := .map }
      | _ => none
  | .serverMap =>
      if s.server = .map then some { s with server := .communicate (accepts size) } else none
  | .clientOpen =>
      if s.client = .start then some { s with file := openCreate s.file, client := .map }
      else none
  | .clientMap =>
      if s.client = .map then some { s with client := .loop (accepts size) } else none
  | .run a =>
      (mapping s a).bind fun mapped =>
        (Guard.step Guard.mmap s.shared a).map fun shared =>
          if faults s mapped a then
            if byClient a then { s with client := .faulted } else { s with server := .faulted }
          else { s with shared := shared }

/-- Every access so far was to a page that lies at least partly within the file. -/
def NoFault (s : State) : Prop := s.server ≠ .faulted ∧ s.client ≠ .faulted

/-- The server has made space in the file. -/
def ServerPc.madeSpace : ServerPc → Bool
  | .start | .seek | .write _ => false
  | .map | .communicate _ | .faulted => true

/-- An access is made only if the size is not the largest one, and by the client only
after the server has made space. -/
def AfterMakeSpace (size : Int32) (s : State) : Action → Prop
  | .run a => (accessed s.shared a).isSome = true →
      size ≠ Int32.maxValue ∧ (byClient a = true → s.server.madeSpace = true)
  | _ => True

instance decidableAfterMakeSpace (size : Int32) (s : State) :
    ∀ a, Decidable (AfterMakeSpace size s a)
  | .run a => inferInstanceAs (Decidable ((accessed s.shared a).isSome = true →
      size ≠ Int32.maxValue ∧ (byClient a = true → s.server.madeSpace = true)))
  | .serverOpen | .serverSeek | .serverWrite | .serverMap | .clientOpen | .clientMap =>
      .isTrue trivial

/-- The mapping is refused exactly for the largest size, where one more wraps. -/
theorem accepts_iff {size : Int32} (h : 1 ≤ size) :
    accepts size = true ↔ size ≠ Int32.maxValue := by
  have hlow : 1 ≤ size.toInt := Int32.le_iff_toInt_le.mp h
  rw [accepts, decide_eq_true_eq, sizeAndOne]
  constructor
  · rintro hpos rfl
    exact absurd hpos (by decide)
  · intro hne
    have hhigh : size.toInt ≠ 2 ^ 31 - 1 := fun heq => hne (Int32.toInt.inj heq)
    have hlt := size.toInt_lt
    rw [toInt_add_one (by omega)]
    omega

/-- The loops access nothing but the guard and the eight bytes behind it. -/
theorem accessed_le {tokens : Guard.Tokens} {shared : Guard.State}
    (h : Guard.Inv tokens shared) {a : Guard.Action} {offset : ℕ}
    (haccess : accessed shared a = some offset) : offset ≤ 8 := by
  cases a with
  | clientNotify | clientWait | serverWait | serverNotify =>
    cases haccess
    exact Nat.zero_le 8
  | clientCopy =>
    simp only [accessed] at haccess
    split at haccess
    · next copied hclient =>
      obtain ⟨_, _, hlength, _⟩ := h.copying copied hclient
      cases haccess
      omega
    · cases haccess
  | serverCopy =>
    simp only [accessed] at haccess
    split at haccess
    · next timestamp done hserver =>
      obtain ⟨hdone, _⟩ := h.writing timestamp done hserver
      cases haccess
      omega
    · cases haccess
  | clientBenchmark _ | clientLeave | serverStamp _ => cases haccess

/-- While no access has gone wrong: both mappings are what `mmap` gives for the size, and
the file is empty until the server has made space. -/
structure Inv (size : Int32) (s : State) : Prop where
  alive : NoFault s
  server_mapped : ∀ mapped, s.server = .communicate mapped → mapped = accepts size
  client_mapped : ∀ mapped, s.client = .loop mapped → mapped = accepts size
  opened : s.server ≠ .start → s.file.isSome = true
  length : 0 < s.file.getD 0 ↔ s.server.madeSpace = true
  shared : Guard.Inv Guard.mmap s.shared

theorem inv_start (size : Int32) (bench : Benchmarks) : Inv size (start bench) where
  alive := ⟨by simp [start], by simp [start]⟩
  server_mapped := by simp [start]
  client_mapped := by simp [start]
  opened := fun h => absurd rfl h
  length := by simp [start, ServerPc.madeSpace]
  shared := Guard.inv_start Guard.mmap 0 bench rfl

namespace Inv

variable {size : Int32} {s t : State}

/-- The guard and the eight bytes behind it are all on the first page. -/
theorem accessed_lt (h : Inv size s) {a : Guard.Action} {offset : ℕ}
    (haccess : accessed s.shared a = some offset) : offset < pageSize :=
  Nat.lt_of_le_of_lt (accessed_le h.shared haccess) (by decide)

/-- A process that runs its loop has the mapping that the size gives, and the server has
made space before. -/
theorem mapping_eq (h : Inv size s) {a : Guard.Action} {mapped : Bool}
    (hmapping : mapping s a = some mapped) :
    mapped = accepts size ∧ (byClient a = false → s.server.madeSpace = true) := by
  unfold mapping at hmapping
  split at hmapping
  · next hclient =>
    split at hmapping
    · next hloop =>
      cases hmapping
      exact ⟨h.client_mapped _ hloop, by simp [hclient]⟩
    · cases hmapping
  · split at hmapping
    · next hcommunicate =>
      cases hmapping
      exact ⟨h.server_mapped _ hcommunicate, by simp [hcommunicate, ServerPc.madeSpace]⟩
    · cases hmapping

/-- A step of the loops faults exactly if it does not meet the condition. -/
theorem faults_iff (h : Inv size s) (hsize : 1 ≤ size) {a : Guard.Action} {mapped : Bool}
    (hmapping : mapping s a = some mapped) :
    faults s mapped a = true ↔ ¬ AfterMakeSpace size s (.run a) := by
  obtain ⟨rfl, hserver⟩ := h.mapping_eq hmapping
  cases haccess : accessed s.shared a with
  | none => simp [faults, AfterMakeSpace, haccess]
  | some offset =>
    have hwithin : pageWithin s.file offset = true ↔ s.server.madeSpace = true := by
      rw [pageWithin_first (h.accessed_lt haccess), decide_eq_true_eq, h.length]
    have hspace : (byClient a = true → s.server.madeSpace = true) ↔
        s.server.madeSpace = true := by
      cases hclient : byClient a with
      | false => simp [hserver hclient]
      | true => simp
    have hmet : AfterMakeSpace size s (.run a) ↔
        accepts size = true ∧ pageWithin s.file offset = true := by
      simp [AfterMakeSpace, haccess, hspace, hwithin, accepts_iff hsize]
    rw [hmet, ← Bool.and_eq_true, Bool.not_eq_true, faults, haccess]
    exact Bool.not_eq_true' _ ▸ Iff.rfl

/-- The server goes on and neither writes to the file nor accesses its mapping. -/
theorem of_server (h : Inv size s) {pc : ServerPc} (hold : s.server ≠ .start)
    (hfine : pc ≠ .faulted) (hspace : pc.madeSpace = s.server.madeSpace)
    (hmapped : ∀ mapped, pc = .communicate mapped → mapped = accepts size) :
    Inv size { s with server := pc } :=
  { h with
    alive := ⟨hfine, h.alive.2⟩
    server_mapped := hmapped
    opened := fun _ => h.opened hold
    length := by rw [hspace, h.length] }

/-- The server opens the file, or creates it empty. -/
theorem serverOpen (h : Inv size s) (hstep : MmapStartUp.step size s .serverOpen = some t) :
    Inv size t := by
  simp only [MmapStartUp.step, Option.ite_none_right_eq_some, Option.some.injEq] at hstep
  obtain ⟨hpc, rfl⟩ := hstep
  have hlength := h.length
  rw [hpc] at hlength
  exact { h with
    alive := ⟨by simp, h.alive.2⟩
    server_mapped := by simp
    opened := fun _ => rfl
    length := hlength }

/-- The server makes space. -/
theorem serverWrite (h : Inv size s) (hstep : MmapStartUp.step size s .serverWrite = some t) :
    Inv size t := by
  cases hpc : s.server with
  | write position =>
    simp only [MmapStartUp.step, hpc, Option.some.injEq] at hstep
    subst hstep
    have hopened := h.opened (by simp [hpc])
    exact { h with
      alive := ⟨by simp, h.alive.2⟩
      server_mapped := by simp
      opened := fun _ => by simpa [writeByte] using hopened
      length := iff_of_true (getD_writeByte_pos position hopened) rfl }
  | _ => simp [MmapStartUp.step, hpc] at hstep

/-- The client opens the file, or creates it empty. -/
theorem clientOpen (h : Inv size s) (hstep : MmapStartUp.step size s .clientOpen = some t) :
    Inv size t := by
  simp only [MmapStartUp.step, Option.ite_none_right_eq_some, Option.some.injEq] at hstep
  obtain ⟨_, rfl⟩ := hstep
  exact { h with
    alive := ⟨h.alive.1, by simp⟩
    client_mapped := by simp
    opened := fun _ => rfl
    length := h.length }

/-- A step of the loops that meets the condition does not fault. -/
theorem loop {a : Guard.Action} (h : Inv size s) (hsize : 1 ≤ size)
    (hmet : AfterMakeSpace size s (.run a))
    (hstep : MmapStartUp.step size s (.run a) = some t) : Inv size t := by
  simp only [MmapStartUp.step, Option.bind_eq_some_iff, Option.map_eq_some_iff] at hstep
  obtain ⟨mapped, hmapping, shared, hshared, rfl⟩ := hstep
  have hfine : ¬ faults s mapped a = true := fun hfault =>
    (h.faults_iff hsize hmapping).mp hfault hmet
  rw [if_neg hfine]
  exact { h with shared := h.shared.step (Guard.matched_of_mem (by simp)) hshared }

/-- Every step that meets the condition keeps the invariant. -/
theorem step {a : Action} (h : Inv size s) (hsize : 1 ≤ size) (hmet : AfterMakeSpace size s a)
    (hstep : MmapStartUp.step size s a = some t) : Inv size t := by
  cases a with
  | serverOpen => exact h.serverOpen hstep
  | serverSeek =>
    simp only [MmapStartUp.step, Option.ite_none_right_eq_some, Option.some.injEq] at hstep
    obtain ⟨hpc, rfl⟩ := hstep
    exact h.of_server (by simp [hpc]) (by simp) (by simp [hpc, ServerPc.madeSpace]) (by simp)
  | serverWrite => exact h.serverWrite hstep
  | serverMap =>
    simp only [MmapStartUp.step, Option.ite_none_right_eq_some, Option.some.injEq] at hstep
    obtain ⟨hpc, rfl⟩ := hstep
    exact h.of_server (by simp [hpc]) (by simp) (by simp [hpc, ServerPc.madeSpace])
      (fun mapped heq => (ServerPc.communicate.inj heq).symm)
  | clientOpen => exact h.clientOpen hstep
  | clientMap =>
    simp only [MmapStartUp.step, Option.ite_none_right_eq_some, Option.some.injEq] at hstep
    obtain ⟨_, rfl⟩ := hstep
    exact { h with
      alive := ⟨h.alive.1, by simp⟩
      client_mapped := fun mapped heq => (ClientPc.loop.inj heq).symm }
  | run a => exact h.loop hsize hmet hstep

/-- Every other step is a fault. -/
theorem not_noFault {a : Action} (h : Inv size s) (hsize : 1 ≤ size)
    (hmet : ¬ AfterMakeSpace size s a) (hstep : MmapStartUp.step size s a = some t) :
    ¬ NoFault t := by
  cases a with
  | run a =>
    simp only [MmapStartUp.step, Option.bind_eq_some_iff, Option.map_eq_some_iff] at hstep
    obtain ⟨mapped, hmapping, shared, _, rfl⟩ := hstep
    rw [if_pos ((h.faults_iff hsize hmapping).mpr hmet)]
    split
    · exact fun hfine => hfine.2 rfl
    · exact fun hfine => hfine.1 rfl
  | _ => exact absurd trivial hmet

end Inv

/-- The start-up of `mmap` with the file absent, for every size from one on and every
interleaving: every access of either process is to a page that lies at least partly within
the file if and only if accesses are made only with a size to which one can be added, and
by the client only after the server has made space. -/
theorem noFault_iff_afterMakeSpace (size : Int32) (bench : Benchmarks) (actions : List Action)
    (s : State) (hsize : 1 ≤ size) (hrun : run (step size) (start bench) actions = some s) :
    Throughout (step size) NoFault (start bench) actions ↔
      Meets (step size) (AfterMakeSpace size) (start bench) actions :=
  throughout_iff_meets (Inv size) (fun h => h.alive) (fun h hmet hstep => h.step hsize hmet hstep)
    (fun h hmet hstep => h.not_noFault hsize hmet hstep) (inv_start size bench) hrun

/-- The server makes space before the client stores its token. -/
def spaceFirst : List Action :=
  [.clientOpen, .serverOpen, .serverSeek, .serverWrite, .clientMap, .run .clientNotify,
    .serverMap, .run .serverWait, .run (.serverStamp 5), .run .serverCopy]

/-- With one byte no access of this schedule goes wrong. -/
theorem noFault_iff_afterMakeSpace_space_first :
    Throughout (step 1) NoFault (start ⟨0, 0, 0, 0, 0, 0, 0⟩) spaceFirst :=
  (noFault_iff_afterMakeSpace 1 ⟨0, 0, 0, 0, 0, 0, 0⟩ spaceFirst _ (by decide) rfl).mpr (by decide)

/-- The client opens and maps the empty file it has created, and its first store to the
guard is to a page that is not within the file. -/
theorem client_faults_in_empty_file :
    ∃ s, run (step 1) (start ⟨0, 0, 0, 0, 0, 0, 0⟩) [.clientOpen, .clientMap, .run .clientNotify] =
        some s ∧
      s.file = some 0 ∧ s.client = .faulted ∧ ¬ NoFault s :=
  ⟨_, rfl, rfl, rfl, fun hfine => hfine.2 rfl⟩

end IpcBench.MmapStartUp
