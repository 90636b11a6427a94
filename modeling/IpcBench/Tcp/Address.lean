import Mathlib.Data.Int.Basic
import Mathlib.Data.List.Basic

/-!
# The choice of an address in `tcp`

`get_address` goes through the list of `getaddrinfo`, in the server until a socket can be
bound and in the client until one can be connected. Both loops compare the result of that
call with 1, although it is -1 after a failure, and both leave the loop after it in any
case: the first entry that has a socket is the last one that is tried.
-/

namespace IpcBench.Tcp

/-- What a system call without a result of its own reports. -/
inductive CallResult where
  | succeeds
  | fails
  deriving DecidableEq, Repr

/-- The number that the call returns. -/
def CallResult.code : CallResult → ℤ
  | .succeeds => 0
  | .fails => -1

/-- An entry of the address list, as the calls that are made for it see it: the descriptor
that `socket` gives, if it gives one, and the results of `setsockopt` and of `bind` or
`connect` on this descriptor. -/
structure AddrInfo where
  socket : Option ℕ
  reclaim : CallResult
  attach : CallResult
  deriving DecidableEq, Repr

/-- The number that `socket` returns. -/
def AddrInfo.descriptor (entry : AddrInfo) : ℤ :=
  match entry.socket with
  | some descriptor => descriptor
  | none => -1

/-- What a loop leaves behind: the list from the entry its iterator points to, empty for
`NULL`, the descriptor that was stored last, and the ones that were closed. -/
structure Search where
  iterator : List AddrInfo
  descriptor : ℤ
  closed : List ℤ
  deriving DecidableEq, Repr

/-- The loop of both functions. Between `socket` and the second call the server reclaims
the socket, which may throw. -/
def addressLoop (reclaimed : AddrInfo → Except String Unit) (closed : List ℤ) :
    List AddrInfo → ℤ → Except String Search
  | [], descriptor => .ok ⟨[], descriptor, closed⟩
  | entry :: rest, _ =>
      if entry.descriptor = -1 then addressLoop reclaimed closed rest entry.descriptor
      else do
        reclaimed entry
        .ok ⟨entry :: rest, entry.descriptor,
          if entry.attach.code = 1 then closed ++ [entry.descriptor] else closed⟩

/-- `handle_blocking` of the server. -/
def handleBlocking (entry : AddrInfo) : Except String Unit :=
  if entry.reclaim.code = -1 then .error "Error reclaiming socket" else .ok ()

/-- `get_address` of the server: the address and, through its argument, the descriptor. -/
def serverGetAddress (serverInfo : List AddrInfo) (descriptor : ℤ) : Except String Search :=
  addressLoop handleBlocking [] serverInfo descriptor

/-- `get_address` of the client, whose descriptor is not initialised: the descriptor, and
the ones that were closed. -/
def clientGetAddress (serverInfo : List AddrInfo) (descriptor : ℤ) :
    Except String (ℤ × List ℤ) := do
  let search ← addressLoop (fun _ => .ok ()) [] serverInfo descriptor
  if search.iterator = [] then .error "Error finding valid address!"
  else .ok (search.descriptor, search.closed)

/-- `create_socket` of the server, up to the descriptor it returns. The result of `listen`
is compared with 1 as well. -/
def createSocket (serverInfo : List AddrInfo) (descriptor : ℤ) (listen : CallResult) :
    Except String ℤ := do
  let search ← serverGetAddress serverInfo descriptor
  if search.iterator = [] then .error "Error finding valid address"
  else if listen.code = 1 then .error "Error listening on given socket!"
  else .ok search.descriptor

/-- Both calls succeed for the entry. -/
def AddrInfo.usable (entry : AddrInfo) : Bool :=
  entry.socket.isSome && decide (entry.attach = .succeeds)

/-- The list from the first entry for which both calls succeed. -/
def fromUsable (entries : List AddrInfo) : List AddrInfo :=
  entries.dropWhile fun entry => !entry.usable

/-- The sockets of the entries before that one, which all have to be closed. -/
def unusableSockets (entries : List AddrInfo) : List ℤ :=
  ((entries.takeWhile fun entry => !entry.usable).filterMap AddrInfo.socket).map Nat.cast

/-- What `get_address` of the server is for: it yields the first usable entry, or `NULL` if
there is none, with the socket of the entry and every other socket closed. -/
def ServerSelects (entries : List AddrInfo) : Except String Search → Prop
  | .ok search =>
      search.iterator = fromUsable entries ∧
        (∀ entry ∈ search.iterator.head?, search.descriptor = entry.descriptor) ∧
        search.closed = unusableSockets entries
  | .error _ => False

/-- What `get_address` of the client is for: it yields the socket of the first usable entry
with every other socket closed, and throws if there is no such entry. -/
def ClientSelects (entries : List AddrInfo) : Except String (ℤ × List ℤ) → Prop
  | .ok (descriptor, closed) =>
      (∃ entry ∈ (fromUsable entries).head?, descriptor = entry.descriptor) ∧
        closed = unusableSockets entries
  | .error _ => fromUsable entries = []

theorem AddrInfo.descriptor_eq_neg_one_iff (entry : AddrInfo) :
    entry.descriptor = -1 ↔ entry.socket = none := by
  unfold descriptor
  cases entry.socket with
  | none => simp
  | some descriptor => simp

theorem AddrInfo.not_usable_of_socket_none {entry : AddrInfo} (h : entry.socket = none) :
    entry.usable = false := by
  simp [usable, h]

/-- The result of `bind` or `connect` is never 1. -/
theorem CallResult.code_ne_one (result : CallResult) : result.code ≠ 1 := by
  cases result <;> decide

theorem handleBlocking_eq_ok {entry : AddrInfo} (h : entry.reclaim = .succeeds) :
    handleBlocking entry = .ok () := by
  simp [handleBlocking, h, CallResult.code]

theorem handleBlocking_eq_error {entry : AddrInfo} (h : entry.reclaim = .fails) :
    handleBlocking entry = .error "Error reclaiming socket" := by
  simp [handleBlocking, h, CallResult.code]

/-- Either no entry has a socket, or the list splits at the first one that has. -/
theorem sockets_cases (entries : List AddrInfo) :
    (∀ entry ∈ entries, entry.socket = none) ∨
      ∃ before entry rest, entries = before ++ entry :: rest ∧
        (∀ entry ∈ before, entry.socket = none) ∧ entry.socket ≠ none := by
  induction entries with
  | nil => exact Or.inl (by simp)
  | cons first entries ih =>
    by_cases hfirst : first.socket = none
    · rcases ih with hnone | ⟨before, entry, rest, rfl, hbefore, hentry⟩
      · exact Or.inl (List.forall_mem_cons.mpr ⟨hfirst, hnone⟩)
      · exact Or.inr ⟨first :: before, entry, rest, rfl,
          List.forall_mem_cons.mpr ⟨hfirst, hbefore⟩, hentry⟩
    · exact Or.inr ⟨[], first, entries, rfl, by simp, hfirst⟩

/-- Without a socket the loop runs to the end of the list. -/
theorem addressLoop_none (reclaimed : AddrInfo → Except String Unit) (closed : List ℤ)
    {entries : List AddrInfo} (hnone : ∀ entry ∈ entries, entry.socket = none) (descriptor : ℤ) :
    ∃ last, addressLoop reclaimed closed entries descriptor = .ok ⟨[], last, closed⟩ := by
  induction entries generalizing descriptor with
  | nil => exact ⟨descriptor, rfl⟩
  | cons entry entries ih =>
    obtain ⟨hentry, hrest⟩ := List.forall_mem_cons.mp hnone
    have hskip := entry.descriptor_eq_neg_one_iff.mpr hentry
    rw [addressLoop, if_pos hskip]
    exact ih hrest _

/-- The loop stops at the first entry that has a socket and closes nothing, whatever `bind`
or `connect` returns. -/
theorem addressLoop_first (reclaimed : AddrInfo → Except String Unit) (closed : List ℤ)
    {before : List AddrInfo} (hbefore : ∀ entry ∈ before, entry.socket = none)
    {entry : AddrInfo} (hentry : entry.socket ≠ none) (rest : List AddrInfo) (descriptor : ℤ) :
    addressLoop reclaimed closed (before ++ entry :: rest) descriptor =
      (reclaimed entry).map fun _ => ⟨entry :: rest, entry.descriptor, closed⟩ := by
  induction before generalizing descriptor with
  | nil =>
    rw [List.nil_append, addressLoop, if_neg (mt entry.descriptor_eq_neg_one_iff.mp hentry),
      if_neg entry.attach.code_ne_one]
    cases reclaimed entry <;> rfl
  | cons first before ih =>
    obtain ⟨hfirst, hbefore⟩ := List.forall_mem_cons.mp hbefore
    have hskip := first.descriptor_eq_neg_one_iff.mpr hfirst
    rw [List.cons_append, addressLoop, if_pos hskip]
    exact ih hbefore _

/-- Entries without a socket are not usable. -/
theorem fromUsable_append {before : List AddrInfo}
    (hbefore : ∀ entry ∈ before, entry.socket = none) (rest : List AddrInfo) :
    fromUsable (before ++ rest) = fromUsable rest := by
  refine List.dropWhile_append_of_pos fun entry hmem => ?_
  simp [AddrInfo.not_usable_of_socket_none (hbefore entry hmem)]

/-- Entries without a socket leave nothing to close. -/
theorem unusableSockets_append {before : List AddrInfo}
    (hbefore : ∀ entry ∈ before, entry.socket = none) (rest : List AddrInfo) :
    unusableSockets (before ++ rest) = unusableSockets rest := by
  have hskip : ∀ entry ∈ before, (!entry.usable) = true := fun entry hmem => by
    simp [AddrInfo.not_usable_of_socket_none (hbefore entry hmem)]
  have hnone : before.filterMap AddrInfo.socket = [] :=
    List.filterMap_eq_nil_iff.mpr hbefore
  rw [unusableSockets, List.takeWhile_append_of_pos hskip, List.filterMap_append, hnone]
  rfl

theorem fromUsable_eq_nil {entries : List AddrInfo}
    (hnone : ∀ entry ∈ entries, entry.socket = none) : fromUsable entries = [] := by
  rw [← List.append_nil entries, fromUsable_append hnone]
  rfl

theorem unusableSockets_eq_nil {entries : List AddrInfo}
    (hnone : ∀ entry ∈ entries, entry.socket = none) : unusableSockets entries = [] := by
  rw [← List.append_nil entries, unusableSockets_append hnone]
  rfl

theorem AddrInfo.usable_iff {entry : AddrInfo} (h : entry.socket ≠ none) :
    entry.usable = true ↔ entry.attach = .succeeds := by
  simp [usable, Option.isSome_iff_ne_none, h]

section

variable {before : List AddrInfo} (hbefore : ∀ entry ∈ before, entry.socket = none)
  {entry : AddrInfo} (hentry : entry.socket ≠ none) (rest : List AddrInfo)

include hbefore hentry

/-- The loop has stopped where it is meant to if and only if `bind` or `connect` has
succeeded. -/
theorem cons_eq_fromUsable_iff :
    entry :: rest = fromUsable (before ++ entry :: rest) ↔ entry.attach = .succeeds := by
  rw [fromUsable_append hbefore, ← AddrInfo.usable_iff hentry]
  cases husable : entry.usable with
  | true => simp [fromUsable, husable]
  | false =>
    -- an entry that has to be skipped makes the list shorter
    have hskip : fromUsable (entry :: rest) = fromUsable rest := by simp [fromUsable, husable]
    have hshort : (fromUsable rest).length ≤ rest.length :=
      (List.dropWhile_suffix _).length_le
    refine ⟨fun heq => ?_, nofun⟩
    rw [← hskip, ← heq, List.length_cons] at hshort
    omega

/-- Nothing has to be closed if and only if `bind` or `connect` has succeeded. -/
theorem nil_eq_unusableSockets_iff :
    [] = unusableSockets (before ++ entry :: rest) ↔ entry.attach = .succeeds := by
  rw [unusableSockets_append hbefore, ← AddrInfo.usable_iff hentry]
  obtain ⟨descriptor, hdescriptor⟩ := Option.ne_none_iff_exists'.mp hentry
  cases husable : entry.usable with
  | true => simp [unusableSockets, husable]
  | false => simp [unusableSockets, husable, hdescriptor]

end

/-- The first entry that has a socket. -/
def firstSocket (entries : List AddrInfo) : Option AddrInfo :=
  entries.find? fun entry => entry.socket.isSome

theorem firstSocket_eq_none {entries : List AddrInfo}
    (hnone : ∀ entry ∈ entries, entry.socket = none) : firstSocket entries = none :=
  List.find?_eq_none.mpr fun entry hmem => by simp [hnone entry hmem]

theorem firstSocket_append_cons {before : List AddrInfo}
    (hbefore : ∀ entry ∈ before, entry.socket = none) {entry : AddrInfo}
    (hentry : entry.socket ≠ none) (rest : List AddrInfo) :
    firstSocket (before ++ entry :: rest) = some entry := by
  have hnone : before.find? (fun entry => entry.socket.isSome) = none :=
    firstSocket_eq_none hbefore
  rw [firstSocket, List.find?_append, hnone, Option.none_or,
    List.find?_cons, Option.isSome_iff_ne_none.mpr hentry]

/-- `get_address` of the server yields the first usable entry if and only if the first entry
that has a socket is one, and this socket can be reclaimed. -/
theorem serverSelects_iff (entries : List AddrInfo) (descriptor : ℤ) :
    ServerSelects entries (serverGetAddress entries descriptor) ↔
      ∀ entry ∈ firstSocket entries, entry.reclaim = .succeeds ∧ entry.attach = .succeeds := by
  rcases sockets_cases entries with hnone | ⟨before, entry, rest, rfl, hbefore, hentry⟩
  · obtain ⟨last, hloop⟩ := addressLoop_none handleBlocking [] hnone descriptor
    rw [serverGetAddress, hloop, firstSocket_eq_none hnone]
    simp [ServerSelects, fromUsable_eq_nil hnone, unusableSockets_eq_nil hnone]
  · rw [serverGetAddress, addressLoop_first handleBlocking [] hbefore hentry,
      firstSocket_append_cons hbefore hentry]
    cases hreclaim : entry.reclaim with
    | fails => simp [handleBlocking_eq_error hreclaim, hreclaim, Except.map, ServerSelects]
    | succeeds =>
      simp [handleBlocking_eq_ok hreclaim, hreclaim, Except.map, ServerSelects,
        cons_eq_fromUsable_iff hbefore hentry, nil_eq_unusableSockets_iff hbefore hentry]

/-- `create_socket` goes on with the first socket that can be reclaimed, whether or not it
is bound and whatever `listen` returns. -/
theorem createSocket_eq_ok_iff (entries : List AddrInfo) (descriptor : ℤ) (listen : CallResult)
    (result : ℤ) :
    createSocket entries descriptor listen = .ok result ↔
      ∃ entry ∈ firstSocket entries, entry.reclaim = .succeeds ∧ entry.descriptor = result := by
  rcases sockets_cases entries with hnone | ⟨before, entry, rest, rfl, hbefore, hentry⟩
  · obtain ⟨last, hloop⟩ := addressLoop_none handleBlocking [] hnone descriptor
    rw [createSocket, serverGetAddress, hloop, firstSocket_eq_none hnone]
    simp [Bind.bind, Except.bind]
  · rw [createSocket, serverGetAddress, addressLoop_first handleBlocking [] hbefore hentry,
      firstSocket_append_cons hbefore hentry]
    cases hreclaim : entry.reclaim with
    | fails => simp [handleBlocking_eq_error hreclaim, hreclaim, Except.map, Bind.bind, Except.bind]
    | succeeds =>
      simp [handleBlocking_eq_ok hreclaim, hreclaim, Except.map, Bind.bind, Except.bind,
        listen.code_ne_one]

/-- `get_address` of the client yields the first usable socket if and only if the first
socket is one. -/
theorem clientSelects_iff (entries : List AddrInfo) (descriptor : ℤ) :
    ClientSelects entries (clientGetAddress entries descriptor) ↔
      ∀ entry ∈ firstSocket entries, entry.attach = .succeeds := by
  rcases sockets_cases entries with hnone | ⟨before, entry, rest, rfl, hbefore, hentry⟩
  · obtain ⟨last, hloop⟩ := addressLoop_none (fun _ => .ok ()) [] hnone descriptor
    rw [clientGetAddress, hloop, firstSocket_eq_none hnone]
    simp [Bind.bind, Except.bind, ClientSelects, fromUsable_eq_nil hnone]
  · rw [clientGetAddress, addressLoop_first (fun _ => .ok ()) [] hbefore hentry,
      firstSocket_append_cons hbefore hentry]
    have hfound := cons_eq_fromUsable_iff hbefore hentry rest
    simp only [Bind.bind, Except.bind, Except.map, ClientSelects, reduceCtorEq, if_false,
      nil_eq_unusableSockets_iff hbefore hentry, Option.mem_some_iff, forall_eq']
    refine ⟨And.right, fun hattach => ⟨⟨entry, ?_, rfl⟩, hattach⟩⟩
    rw [← hfound.mpr hattach]
    rfl

/-- The choice of an address, for every list and all results of the calls that are made for
its entries: server and client do what they are for if and only if the first entry that has
a socket can be used. The other entries are never tried. -/
theorem getAddress_selects_first_iff (entries : List AddrInfo) (descriptor : ℤ) :
    (ServerSelects entries (serverGetAddress entries descriptor) ↔
        ∀ entry ∈ firstSocket entries, entry.reclaim = .succeeds ∧ entry.attach = .succeeds) ∧
      (ClientSelects entries (clientGetAddress entries descriptor) ↔
        ∀ entry ∈ firstSocket entries, entry.attach = .succeeds) :=
  ⟨serverSelects_iff entries descriptor, clientSelects_iff entries descriptor⟩

/-- Two addresses, where the first one cannot be bound or connected: both functions return
the first socket and leave it open. -/
theorem second_address_never_tried :
    serverGetAddress [⟨some 3, .succeeds, .fails⟩, ⟨some 4, .succeeds, .succeeds⟩] 0 =
        .ok ⟨[⟨some 3, .succeeds, .fails⟩, ⟨some 4, .succeeds, .succeeds⟩], 3, []⟩ ∧
      ¬ ServerSelects [⟨some 3, .succeeds, .fails⟩, ⟨some 4, .succeeds, .succeeds⟩]
        (serverGetAddress [⟨some 3, .succeeds, .fails⟩, ⟨some 4, .succeeds, .succeeds⟩] 0) ∧
      clientGetAddress [⟨some 3, .succeeds, .fails⟩, ⟨some 4, .succeeds, .succeeds⟩] 0 =
        .ok (3, []) ∧
      ¬ ClientSelects [⟨some 3, .succeeds, .fails⟩, ⟨some 4, .succeeds, .succeeds⟩]
        (clientGetAddress [⟨some 3, .succeeds, .fails⟩, ⟨some 4, .succeeds, .succeeds⟩] 0) := by
  refine ⟨rfl, ?_, rfl, ?_⟩
  · rw [serverSelects_iff]
    decide
  · rw [clientSelects_iff]
    decide

end IpcBench.Tcp
