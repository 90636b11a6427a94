import IpcBench.Lib.LittleEndian
import IpcBench.Common.Sockets

/-!
# The loops of the socket servers

The servers of `tcp` and `domain` run the same loop: receive a message, take a timestamp,
send its eight bytes. They differ in one test. `tcp` looks for a `send` that returns -1,
`domain` for one that returns less than the size of the messages, which is not the number
of bytes it sends.
-/

namespace IpcBench.Domain

open Lib

/-- What `send` does: it sends all its bytes or none; a call that succeeds is taken to be
complete. -/
inductive SendResult where
  | all
  | failed
  deriving DecidableEq, Repr

/-- The number that `send` returns for a buffer. -/
def SendResult.code (bytes : List UInt8) : SendResult → ℤ
  | .all => bytes.length
  | .failed => -1

/-- What a round of the loop is given besides the results of `recv`. -/
structure Round where
  now : UInt64
  sent : SendResult
  deriving DecidableEq, Repr

/-- What a server does: calls of `receive`, with the result and the buffer after it, and of
`send`, with the bytes. -/
inductive Event where
  | receive (code : ℤ) (buffer : List UInt8)
  | send (bytes : List UInt8)
  deriving DecidableEq, Repr

/-- A run of a loop: what it has done, and the text if it has thrown. -/
structure Trace where
  events : List Event
  thrown : Option String
  deriving DecidableEq, Repr

/-- A run that begins with some more events. -/
def Trace.prepend (events : List Event) (trace : Trace) : Trace :=
  { trace with events := events ++ trace.events }

/-- What is different in the two loops: the test of the number that `send` returns, and the
texts of the errors. -/
structure Checks where
  sendFailed : ℤ → ℕ → Bool
  receiveText : String
  sendText : String

/-- `communicate` of a server, for as many results of `recv` and rounds as there are. -/
def communicate (checks : Checks) (size : ℕ) (busyWaiting : Bool) (errno : ℤ)
    (buffer : List UInt8) (results : List RecvResult) (rounds : List Round) : Trace :=
  match receive size busyWaiting errno buffer results with
  | none => ⟨[], none⟩
  | some r =>
      if r.code = -1 then ⟨[.receive r.code r.buffer], some checks.receiveText⟩
      else
        match rounds with
        | [] => ⟨[.receive r.code r.buffer], none⟩
        | round :: rounds =>
            let timestamp := wordBytes round.now
            if checks.sendFailed (round.sent.code timestamp) size then
              ⟨[.receive r.code r.buffer, .send timestamp], some checks.sendText⟩
            else
              (communicate checks size busyWaiting r.errno r.buffer r.rest rounds).prepend
                [.receive r.code r.buffer, .send timestamp]

/-- The checks of `tcp`. -/
def tcpChecks : Checks where
  sendFailed sent _ := decide (sent = -1)
  receiveText := "Error receving from server"
  sendText := "Error sending from server"

/-- The checks of `domain`. -/
def domainChecks : Checks where
  sendFailed sent size := decide (sent < size)
  receiveText := "Error receiving on server-side"
  sendText := "Error sending on server-side"

/-- The two servers have done the same, and have thrown at the same point or not at all. -/
def Trace.Agrees (first second : Trace) : Prop :=
  first.events = second.events ∧ first.thrown.isSome = second.thrown.isSome

/-- A server has thrown only because a `receive` or a `send` has failed. -/
def Trace.Justified (rounds : List Round) (trace : Trace) : Prop :=
  (∀ code buffer, .receive code buffer ∈ trace.events → code = 0) →
    (∀ round ∈ rounds, round.sent = .all) → trace.thrown = none

/-- The two loops do the same on these inputs, and throw only for a failed call. -/
def AgreeOn (size : ℕ) (busyWaiting : Bool) (errno : ℤ) (buffer : List UInt8)
    (results : List RecvResult) (rounds : List Round) : Prop :=
  (communicate tcpChecks size busyWaiting errno buffer results rounds).Agrees
      (communicate domainChecks size busyWaiting errno buffer results rounds) ∧
    (communicate tcpChecks size busyWaiting errno buffer results rounds).Justified rounds ∧
    (communicate domainChecks size busyWaiting errno buffer results rounds).Justified rounds

/-- The servers are copies of each other for messages of this size. -/
def ServersAgree (size : ℕ) : Prop :=
  ∀ (busyWaiting : Bool) (errno : ℤ) (buffer : List UInt8) (results : List RecvResult)
    (rounds : List Round), AgreeOn size busyWaiting errno buffer results rounds

/-- `tcp` recognises exactly the calls of `send` that have failed. -/
theorem tcpChecks_sendFailed (sent : SendResult) (now : UInt64) (size : ℕ) :
    tcpChecks.sendFailed (sent.code (wordBytes now)) size = decide (sent = .failed) := by
  cases sent with
  | all => simp [tcpChecks, SendResult.code, wordBytes]
  | failed => rfl

/-- At every size `domain` recognises a `send` that has failed. -/
theorem domainChecks_sendFailed_failed (now : UInt64) (size : ℕ) :
    domainChecks.sendFailed (SendResult.failed.code (wordBytes now)) size = true := by
  have hless : (-1 : ℤ) < size := by omega
  simpa [domainChecks, SendResult.code] using hless

/-- It recognises exactly these if the messages have at most eight bytes. -/
theorem domainChecks_sendFailed {size : ℕ} (hsize : size ≤ 8) (sent : SendResult)
    (now : UInt64) :
    domainChecks.sendFailed (sent.code (wordBytes now)) size = decide (sent = .failed) := by
  cases sent with
  | all =>
    have hcode : (size : ℤ) ≤ 8 := by omega
    simpa [domainChecks, SendResult.code, wordBytes] using hcode
  | failed => simp [domainChecks_sendFailed_failed]

/-- For longer messages `domain` takes every `send` for a failed one. -/
theorem domainChecks_sendFailed_long {size : ℕ} (hsize : 8 < size) (now : UInt64) :
    domainChecks.sendFailed (SendResult.all.code (wordBytes now)) size = true := by
  have hcode : (8 : ℤ) < size := by omega
  simpa [domainChecks, SendResult.code, wordBytes] using hcode

section

variable {size : ℕ} {busyWaiting : Bool}

/-- Two loops agree if their tests of `send` do. -/
theorem communicate_agrees {first second : Checks}
    (hsame : ∀ (sent : SendResult) (now : UInt64),
      first.sendFailed (sent.code (wordBytes now)) size =
        second.sendFailed (sent.code (wordBytes now)) size)
    (errno : ℤ) (buffer : List UInt8) (results : List RecvResult) (rounds : List Round) :
    (communicate first size busyWaiting errno buffer results rounds).Agrees
      (communicate second size busyWaiting errno buffer results rounds) := by
  fun_induction communicate first size busyWaiting errno buffer results rounds with
  | case1 rounds errno buffer results hreceive =>
    -- still waiting for a message
    rw [communicate, hreceive]
    exact ⟨rfl, rfl⟩
  | case2 rounds errno buffer results r hreceive hfailed =>
    rw [communicate, hreceive]
    simp [hfailed, Trace.Agrees]
  | case3 errno buffer results r hreceive hreceived =>
    rw [communicate, hreceive]
    simp [hreceived, Trace.Agrees]
  | case4 errno buffer results r hreceive hreceived round rounds timestamp hsent =>
    rw [hsame] at hsent
    rw [communicate, hreceive]
    simp [hreceived, hsent, timestamp, Trace.Agrees]
  | case5 errno buffer results r hreceive hreceived round rounds timestamp hsent ih =>
    obtain ⟨hevents, hthrown⟩ := ih
    rw [hsame] at hsent
    have hsecond : communicate second size busyWaiting errno buffer results (round :: rounds) =
        (communicate second size busyWaiting r.errno r.buffer r.rest rounds).prepend
          [.receive r.code r.buffer, .send timestamp] := by
      rw [communicate, hreceive]
      simp [hreceived, hsent, timestamp]
    rw [hsecond]
    refine ⟨?_, hthrown⟩
    rw [Trace.prepend, Trace.prepend, hevents]

/-- A loop throws for a reason if its test lets every complete `send` pass. -/
theorem communicate_justified {checks : Checks}
    (hall : ∀ now : UInt64,
      checks.sendFailed (SendResult.all.code (wordBytes now)) size = false)
    (errno : ℤ) (buffer : List UInt8) (results : List RecvResult) (rounds : List Round) :
    (communicate checks size busyWaiting errno buffer results rounds).Justified rounds := by
  fun_induction communicate checks size busyWaiting errno buffer results rounds with
  | case1 rounds errno buffer results hreceive => exact fun _ _ => rfl
  | case2 rounds errno buffer results r hreceive hfailed => simp [hfailed, Trace.Justified]
  | case3 errno buffer results r hreceive hreceived => exact fun _ _ => rfl
  | case4 errno buffer results r hreceive hreceived round rounds timestamp hsent =>
    intro _ hsends
    have hsend := hsends round List.mem_cons_self
    rw [hsend, hall] at hsent
    cases hsent
  | case5 errno buffer results r hreceive hreceived round rounds timestamp hsent ih =>
    intro hcodes hsends
    exact ih (fun code buffer hmem => hcodes code buffer (List.mem_append_right _ hmem))
      (List.forall_mem_cons.mp hsends).2

end

/-- With messages of at most eight bytes the two loops do the same. -/
theorem agreeOn_of_le {size : ℕ} (hsize : size ≤ 8) (busyWaiting : Bool) (errno : ℤ)
    (buffer : List UInt8) (results : List RecvResult) (rounds : List Round) :
    AgreeOn size busyWaiting errno buffer results rounds := by
  refine ⟨communicate_agrees (fun sent now => ?_) errno buffer results rounds,
    communicate_justified (fun now => ?_) errno buffer results rounds,
    communicate_justified (fun now => ?_) errno buffer results rounds⟩
  · rw [tcpChecks_sendFailed, domainChecks_sendFailed hsize]
  · exact tcpChecks_sendFailed .all now size
  · exact domainChecks_sendFailed hsize .all now

/-- A loop that has done nothing has not thrown. -/
theorem thrown_eq_none_of_events {checks : Checks} {size : ℕ} {busyWaiting : Bool} {errno : ℤ}
    {buffer : List UInt8} {results : List RecvResult} {rounds : List Round} :
    (communicate checks size busyWaiting errno buffer results rounds).events = [] →
      (communicate checks size busyWaiting errno buffer results rounds).thrown = none := by
  fun_cases communicate checks size busyWaiting errno buffer results rounds with
  | case1 => exact fun _ => rfl
  | case5 => simp [Trace.prepend]
  | _ => simp

/-- After a complete `send` of a longer message `domain` has thrown, and `tcp` goes on. -/
theorem not_agreeOn_long {size : ℕ} (hsize : 8 < size) {busyWaiting : Bool} {errno : ℤ}
    {buffer : List UInt8} {results : List RecvResult} {r : ReceiveResult} {round : Round}
    {rest : List Round} (hreceive : receive size busyWaiting errno buffer results = some r)
    (hcode : r.code ≠ -1) (hsent : round.sent = .all) :
    ¬ AgreeOn size busyWaiting errno buffer results (round :: rest) := by
  intro hagree
  obtain ⟨hevents, hthrown⟩ := hagree.1
  have htcp := tcpChecks_sendFailed .all round.now size
  have hdomain := domainChecks_sendFailed_long hsize round.now
  have hdomainRun : communicate domainChecks size busyWaiting errno buffer results
      (round :: rest) = ⟨[.receive r.code r.buffer, .send (wordBytes round.now)],
        some domainChecks.sendText⟩ := by
    rw [communicate, hreceive]
    simp [hcode, hsent, hdomain]
  have htcpRun : communicate tcpChecks size busyWaiting errno buffer results (round :: rest) =
      (communicate tcpChecks size busyWaiting r.errno r.buffer r.rest rest).prepend
        [.receive r.code r.buffer, .send (wordBytes round.now)] := by
    rw [communicate, hreceive]
    simp [hcode, hsent, htcp]
  rw [hdomainRun, htcpRun] at hevents hthrown
  -- `tcp` has done no more than `domain`, so it has not thrown
  have hnil :
      (communicate tcpChecks size busyWaiting r.errno r.buffer r.rest rest).events = [] := by
    simpa [Trace.prepend] using hevents
  have hnot := thrown_eq_none_of_events hnil
  simp [Trace.prepend, hnot] at hthrown

/-- The servers of `domain` and `tcp`, for every size, blocking or busy, and all results of
`recv`, `send` and the clock: the two loops do the same, and throw only for a failed call,
if and only if the messages have at most eight bytes. -/
theorem serversAgree_iff (size : ℕ) : ServersAgree size ↔ size ≤ 8 := by
  constructor
  · intro h
    by_contra hlong
    have hreceive : receive size false 0 [] [.data (List.replicate size 0)] =
        some ⟨0, 0, List.replicate size 0, []⟩ := by
      simp [receive, recv]
    exact not_agreeOn_long (Nat.lt_of_not_le hlong) hreceive (by simp) rfl
      (h false 0 [] [.data (List.replicate size 0)] [⟨0, .all⟩])
  · exact agreeOn_of_le

/-- Messages of nine bytes: the first `send` of `domain` sends all its bytes, and the server
throws. -/
theorem domain_throws_after_complete_send :
    communicate domainChecks 9 false 0 [] [.data (List.replicate 9 0)] [⟨0, .all⟩] =
        ⟨[.receive 0 (List.replicate 9 0), .send (List.replicate 8 0)],
          some "Error sending on server-side"⟩ ∧
      communicate tcpChecks 9 false 0 [] [.data (List.replicate 9 0)] [⟨0, .all⟩] =
        ⟨[.receive 0 (List.replicate 9 0), .send (List.replicate 8 0)], none⟩ ∧
      ¬ ServersAgree 9 := by
  refine ⟨by decide, by decide, fun h => ?_⟩
  have hagrees := (h false 0 [] [.data (List.replicate 9 0)] [⟨0, .all⟩]).1.2
  exact absurd hagrees (by decide)

/-- No `send` is complete before the loops end: the first message does not arrive, or its
`receive` fails, or there is no round for it, or the first `send` fails. -/
def NoCompleteSend (size : ℕ) (busyWaiting : Bool) (errno : ℤ) (buffer : List UInt8)
    (results : List RecvResult) (rounds : List Round) : Prop :=
  ∀ r round rest, receive size busyWaiting errno buffer results = some r → r.code ≠ -1 →
    rounds = round :: rest → round.sent = .failed

/-- Until a `send` is complete the tests of the two loops agree at every size. -/
theorem agreeOn_of_noCompleteSend {size : ℕ} {busyWaiting : Bool} {errno : ℤ}
    {buffer : List UInt8} {results : List RecvResult} {rounds : List Round}
    (hnone : NoCompleteSend size busyWaiting errno buffer results rounds) :
    AgreeOn size busyWaiting errno buffer results rounds := by
  unfold AgreeOn communicate
  cases hreceive : receive size busyWaiting errno buffer results with
  | none => simp [Trace.Agrees, Trace.Justified]
  | some r =>
    by_cases hcode : r.code = -1
    · simp [hcode, Trace.Agrees, Trace.Justified]
    · cases rounds with
      | nil => simp [hcode, Trace.Agrees, Trace.Justified]
      | cons round rest =>
        have hsent := hnone r round rest hreceive hcode rfl
        simp [hcode, hsent, tcpChecks_sendFailed, domainChecks_sendFailed_failed, Trace.Agrees,
          Trace.Justified]

/-- The servers of `domain` and `tcp` input by input: the two loops do the same, and throw
only for a failed call, if and only if the messages have at most eight bytes or the loops
end before a `send` is complete. -/
theorem agreeOn_iff (size : ℕ) (busyWaiting : Bool) (errno : ℤ) (buffer : List UInt8)
    (results : List RecvResult) (rounds : List Round) :
    AgreeOn size busyWaiting errno buffer results rounds ↔
      size ≤ 8 ∨ NoCompleteSend size busyWaiting errno buffer results rounds := by
  constructor
  · intro hagree
    by_contra hboth
    rw [not_or, not_le] at hboth
    obtain ⟨hsize, hcomplete⟩ := hboth
    apply hcomplete
    intro r round rest hreceive hcode hrounds
    subst hrounds
    cases hsent : round.sent with
    | failed => rfl
    | all => exact absurd hagree (not_agreeOn_long hsize hreceive hcode hsent)
  · rintro (hsize | hnone)
    · exact agreeOn_of_le hsize busyWaiting errno buffer results rounds
    · exact agreeOn_of_noCompleteSend hnone

end IpcBench.Domain
