import VertexVeil.Network
import VertexVeil.Serde

/-!
# Nodes over the consensus engine

The transport of a node hands the engine the JSON of its messages and heartbeats between them. The engine puts the transactions
of all nodes in one order and delivers each with its true creator; the transport's worker makes messages of them again. One node
is faulty: it submits whatever bytes it likes, whenever it likes. A node runs its sessions one after the other.
-/

namespace VertexVeil

open Broadcast

/-- A transaction and the node that signed it. -/
structure Transaction where
  creator : NodeId
  raw : List UInt8
  deriving DecidableEq

/-- `b"HBT\0"` -/
def heartbeatMarker : List UInt8 := [0x48, 0x42, 0x54, 0]

namespace Serde

variable (J : Serde)

/-- What a node's `broadcast` hands to the engine. -/
def transaction (node : NodeId) (msg : CoordinationMessage) : Transaction := { creator := node, raw := J.toVec msg }

/-- What the worker makes of a transaction: heartbeats and what does not decode are skipped, the creator is not looked at. -/
def receive (tx : Transaction) : Option CoordinationMessage :=
  if heartbeatMarker <+: tx.raw then none else J.fromSlice tx.raw

/-- The JSON of a message is no heartbeat: the worker makes the message of it again, whoever submits it. -/
theorem json_receive (node : NodeId) (msg : CoordinationMessage) : json.receive (json.transaction node msg) = some msg := by
  have hbrace : json.toVec msg = 0x7b :: asBytes ((message.write msg).tail) := rfl
  have hmarker : ¬ heartbeatMarker <+: json.toVec msg := by
    rw [hbrace, heartbeatMarker, List.cons_prefix_cons]
    exact fun h => absurd h.1 (by decide)
  rw [receive, transaction, if_neg hmarker, json.fromSlice_toVec]

end Serde

/-- Who submits transactions: a node's runtime, its worker between broadcasts, and the faulty node. -/
inductive Party where
  | node (id : NodeId)
  | worker (id : NodeId)
  | faulty (id : NodeId)
  deriving DecidableEq

/-- The state of a party: a node's process and the sessions after this one, nothing, or the bytes still to be submitted. -/
inductive Peer where
  | node (id : NodeId) (process : Process) (sessions : List RuntimeState)
  | worker (id : NodeId)
  | faulty (id : NodeId) (script : List (List UInt8))

namespace Peer

/-- A node takes the next transaction, or skips it. -/
def hear (Γ : Crypto) (J : Serde) : Peer → Transaction → Option Peer
  | .node id p sessions, tx =>
    match J.receive tx with
    | none => some (.node id p sessions)
    | some msg => ((protocol Γ).hear p msg).map fun p => .node id p sessions
  | _, _ => none

/-- A node's process takes its step, or its next session is set up; a worker sends a heartbeat, the faulty node anything. -/
def act (Γ : Crypto) (J : Serde) : Peer → Option (List Transaction × Peer)
  | .node id (.returned _) (s :: sessions) => some ([], .node id (.ready s) sessions)
  | .node id p sessions => ((protocol Γ).act p).map fun x => (x.1.map (J.transaction id), .node id x.2 sessions)
  | .worker id => some ([{ creator := id, raw := heartbeatMarker }], .worker id)
  | .faulty id (raw :: script) => some ([{ creator := id, raw }], .faulty id script)
  | .faulty _ [] => none

end Peer

/-- The steps of the parties. -/
def vertexProtocol (Γ : Crypto) (J : Serde) : Protocol Peer Transaction where
  hear := Peer.hear Γ J
  act := Peer.act Γ J

/-- The parties at the start: every node but the faulty one is about to run sessions with its own agent. -/
def VertexBoots {Γ : Crypto} (T : LoadedTopology Γ) (scenario : NodeId → Scenario) (X : NodeId) : Party → Peer → Prop
  | .node id, .node id' p sessions =>
    id' = id ∧ id ≠ X ∧ Boots T scenario id p ∧ ∀ s ∈ sessions, Boots T scenario id (.ready s)
  | .worker id, .worker id' => id' = id
  | .faulty id, .faulty id' _ => id' = id ∧ id = X
  | _, _ => False

/-- Nodes of a topology over the engine, with the faulty node `X`. -/
def vertexNetwork {Γ : Crypto} (J : Serde) (T : LoadedTopology Γ) (scenario : NodeId → Scenario) (X : NodeId) :
    Transition.Machine (Net Party Peer Transaction) (Action Party) :=
  machine (vertexProtocol Γ J) (VertexBoots T scenario X)

end VertexVeil
