import Mathlib.Data.List.Basic
import Mathlib.Data.Int.Basic

/-!
# A requesting and a replying socket

A library with the request and reply pattern is a parameter: four calls on whatever it keeps
for two sockets that are connected to each other. What its documentation promises is stated on
what an application can know of the connection. Messages are carried whole. The requesting
side alternates between sending and receiving, the replying side between receiving and
sending; a call out of turn fails with `-1`, and a receive blocks while there is no message. A
receive returns the length of the message and copies as much of it as fits into the buffer.
-/

namespace IpcBench.Lib

variable {β κ : Type*}

/-- The calls of a library, with `κ` for what it keeps. A receive is `none` while it blocks. -/
structure ReqRepCalls (β κ : Type*) where
  sendRequest : κ → List β → ℤ × κ
  recvRequest : κ → ℕ → Option (ℤ × List β × κ)
  sendReply : κ → List β → ℤ × κ
  recvReply : κ → ℕ → Option (ℤ × List β × κ)

/-- The messages on their way, and on which side a call has begun that the other call of the
pair must follow. -/
structure ReqRep (β : Type*) where
  request : Option (List β)
  reply : Option (List β)
  awaiting : Bool
  serving : Bool
  deriving DecidableEq, Repr

namespace ReqRep

/-- Connected, and nothing sent. -/
def empty : ReqRep β := ⟨none, none, false, false⟩

/-- The requesting side sends: the return value and the connection after it. -/
def sendRequest (c : ReqRep β) (message : List β) : ℤ × ReqRep β :=
  if c.awaiting then (-1, c)
  else (message.length, { c with request := some message, awaiting := true })

/-- The replying side receives `size` bytes at most: the return value, what is copied, and
the connection after it; `none` while the call blocks. -/
def recvRequest (c : ReqRep β) (size : ℕ) : Option (ℤ × List β × ReqRep β) :=
  if c.serving then some (-1, [], c)
  else c.request.map fun message =>
    (message.length, message.take size, { c with request := none, serving := true })

/-- The replying side sends. -/
def sendReply (c : ReqRep β) (message : List β) : ℤ × ReqRep β :=
  if c.serving then (message.length, { c with reply := some message, serving := false })
  else (-1, c)

/-- The requesting side receives `size` bytes at most. -/
def recvReply (c : ReqRep β) (size : ℕ) : Option (ℤ × List β × ReqRep β) :=
  if c.awaiting then c.reply.map fun message =>
    (message.length, message.take size, { c with reply := none, awaiting := false })
  else some (-1, [], c)

/-- The promised calls themselves are such a library. -/
def calls : ReqRepCalls β (ReqRep β) := ⟨sendRequest, recvRequest, sendReply, recvReply⟩

end ReqRep

/-- A library keeps what is promised: for what is `known` of the connection, each of its calls
returns what is promised and leaves the connection as promised. -/
structure ReqRepCalls.Documented (calls : ReqRepCalls β κ) (known : κ → ReqRep β) : Prop where
  sendRequest : ∀ c message,
    (calls.sendRequest c message).map id known = (known c).sendRequest message
  recvRequest : ∀ c size,
    (calls.recvRequest c size).map (Prod.map id (Prod.map id known)) = (known c).recvRequest size
  sendReply : ∀ c message, (calls.sendReply c message).map id known = (known c).sendReply message
  recvReply : ∀ c size,
    (calls.recvReply c size).map (Prod.map id (Prod.map id known)) = (known c).recvReply size

/-- The promised calls keep their promise. -/
theorem ReqRep.documented_calls : (ReqRep.calls : ReqRepCalls β _).Documented id :=
  ⟨fun _ _ => rfl, by simp [calls], fun _ _ => rfl, by simp [calls]⟩

end IpcBench.Lib
