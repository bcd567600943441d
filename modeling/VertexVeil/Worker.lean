import Mathlib.Data.List.ReduceOption
import VertexVeil.Lib.Fifo
import VertexVeil.Lib.Transition
import VertexVeil.VertexTransport

/-!
# A node's transport and its worker

The runtime's thread calls the transport; the worker's thread talks to the engine. A channel each way joins them, and messages
that were flushed wait in the transport. The calls that wait are taken apart where the worker can come between: `flush` receives
message by message, and `next_ordered` waits for one or gives up. What the worker sent and what the calls returned is kept
beside the state.
-/

namespace VertexVeil

open Fifo

/-- The transport, with the two channels it holds an end of. -/
structure VertexTransport where
  outbound : Channel (List UInt8)
  inbound : Channel CoordinationMessage
  pending : List CoordinationMessage
  closed : Bool

namespace VertexTransport

/-- A transport as `start` returns it. -/
def start : VertexTransport := { outbound := .new, inbound := .new, pending := [], closed := false }

def markClosed (t : VertexTransport) : VertexTransport := { t with closed := true }

/-- Receive one message into `pending`, in a way that waits or one that does not. -/
def recvIntoPending (t : VertexTransport)
    (recv : Channel CoordinationMessage → Received CoordinationMessage × Channel CoordinationMessage) :
    Except TransportError Bool × VertexTransport :=
  if t.closed then (.error .closed, t)
  else
    match recv t.inbound with
    | (.message msg, inbound) => (.ok true, { t with inbound, pending := t.pending ++ [msg] })
    | (.empty, inbound) => (.ok false, { t with inbound })
    | (.disconnected, inbound) => (.error .closed, { t with inbound }.markClosed)

/-- Hand a message to the worker. -/
def broadcast (J : Serde) (t : VertexTransport) (msg : CoordinationMessage) : Except TransportError Unit × VertexTransport :=
  if t.closed then (.error .closed, t)
  else
    match t.outbound.send (J.toVec msg) with
    | some outbound => (.ok (), { t with outbound })
    | none => (.error .closed, t.markClosed)

/-- Take the oldest pending message. -/
def popFront (t : VertexTransport) : Option CoordinationMessage × VertexTransport :=
  (t.pending.head?, { t with pending := t.pending.tail })

/-- `next_ordered`, with how its wait ends. -/
def nextOrdered (t : VertexTransport)
    (recv : Channel CoordinationMessage → Received CoordinationMessage × Channel CoordinationMessage) :
    Option CoordinationMessage × VertexTransport :=
  match t.popFront with
  | (some msg, t) => (some msg, t)
  | (none, t) =>
    match t.recvIntoPending recv with
    | (.ok _, t) => t.popFront
    | (.error _, t) => (none, t)

end VertexTransport

/-- What the runtime's thread is doing with the transport. -/
inductive Call where
  | idle
  | waiting
  | flushing
  | dropped
  deriving DecidableEq

/-- The two threads: the transport and the call it is in, and whether the worker's loop runs. With them the transactions the
worker has handled, the messages it sent and what the calls of `next_ordered` returned. -/
structure Threads where
  transport : VertexTransport
  call : Call
  running : Bool
  handled : List Transaction
  sent : List CoordinationMessage
  returned : List (Option CoordinationMessage)

namespace Threads

def start : Threads :=
  { transport := .start, call := .idle, running := true, handled := [], sent := [], returned := [] }

/-- A call of `next_ordered` returns. -/
def finish (s : Threads) (result : Option CoordinationMessage × VertexTransport) : Threads :=
  { s with call := .idle, transport := result.2, returned := s.returned ++ [result.1] }

/-- An iteration of the loop of `flush`. -/
def flushOne (s : Threads) : Threads :=
  match s.transport.recvIntoPending Channel.tryRecv with
  | (.ok true, t) => { s with transport := t }
  | (_, t) => { s with transport := t, call := .idle }

/-- The worker handles a transaction of an event: it sends the message on, if it makes one of it, and ends when the transport is
gone. -/
def transaction (J : Serde) (s : Threads) (tx : Transaction) : Threads :=
  match J.receive tx with
  | none => { s with handled := s.handled ++ [tx] }
  | some msg =>
    match s.transport.inbound.send msg with
    | some inbound =>
      { s with handled := s.handled ++ [tx], sent := s.sent ++ [msg], transport := { s.transport with inbound } }
    | none => { s with running := false }

end Threads

/-- A step of one of the threads. -/
inductive ThreadStep where
  | broadcast (msg : CoordinationMessage)
  | nextOrdered
  | wake
  | timeout
  | flush
  | flushOne
  | drop
  | command (delivered : Bool)
  | transaction (tx : Transaction)
  | stop
  | dropOutbound
  | dropInbound

namespace ThreadStep

/-- A step, where it is enabled. A call starts when none is being made; `next_ordered` waits when nothing is pending and the
transport is open, and wakes when there is something to receive or nothing more to come. The worker hands a command to the engine
or ends when that fails; it may end at any time, and then its ends of the channels go, in either order. -/
def exec (J : Serde) (s : Threads) : ThreadStep → Option Threads
  | broadcast msg => if s.call = .idle then some { s with transport := (s.transport.broadcast J msg).2 } else none
  | nextOrdered =>
    if s.call = .idle then
      if s.transport.pending = [] ∧ s.transport.closed = false then some { s with call := .waiting }
      else some (s.finish (s.transport.nextOrdered Channel.timeout))
    else none
  | wake =>
    if s.call = .waiting ∧ s.transport.inbound.tryRecv.1 ≠ .empty then
      some (s.finish (s.transport.nextOrdered Channel.tryRecv))
    else none
  | timeout => if s.call = .waiting then some (s.finish (s.transport.nextOrdered Channel.timeout)) else none
  | flush => if s.call = .idle then some { s with call := .flushing } else none
  | flushOne => if s.call = .flushing then some s.flushOne else none
  | drop =>
    if s.call = .idle then
      some { s with call := .dropped, transport := { s.transport with inbound := s.transport.inbound.dropReceiver, pending := [] } }
    else none
  | command delivered =>
    match s.running, s.transport.outbound.tryRecv with
    | true, (.message _, outbound) => some { s with running := delivered, transport := { s.transport with outbound } }
    | _, _ => none
  | transaction tx => if s.running then some (s.transaction J tx) else none
  | stop => if s.running then some { s with running := false } else none
  | dropOutbound =>
    if s.running then none
    else some { s with transport := { s.transport with outbound := s.transport.outbound.dropReceiver } }
  | dropInbound =>
    if s.running then none
    else some { s with transport := { s.transport with inbound := s.transport.inbound.dropSender } }

end ThreadStep

/-- The threads of a node, as a machine. -/
def threads (J : Serde) : Transition.Machine Threads ThreadStep where
  start s := s = .start
  exec := ThreadStep.exec J

end VertexVeil
