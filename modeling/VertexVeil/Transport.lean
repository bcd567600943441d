import VertexVeil.Artifacts

/-!
# Messages and transports

The envelope every node broadcasts and what the runtime needs of a transport: it takes messages, and while a phase is drained
it hands messages out in its order until it has none. `OrderedBus` is the in-process transport, `Deliveries` one that
delivers given messages in each phase of each round, whatever was broadcast, and `Polls` the one of a node's process, where a
drain loop ends at the first poll without a message.
-/

namespace VertexVeil

/-- What a message carries. -/
inductive MessagePayload where
  | commitment (record : CommitmentRecord)
  | proposal (record : ProposalRecord)
  | proof (record : ProofArtifactRecord)
  | receipt (record : CompletionReceiptRecord)
  deriving DecidableEq

/-- The label of a payload in rejection records. -/
def payloadLabel : MessagePayload → String
  | .commitment _ => "commitment"
  | .proposal _ => "proposal"
  | .proof _ => "proof"
  | .receipt _ => "receipt"

/-- A message with its origin. -/
structure CoordinationMessage where
  origin : NodeId
  payload : MessagePayload
  deriving DecidableEq

/-- Errors of a transport. -/
inductive TransportError where
  | closed
  deriving DecidableEq

/-- The phases of a round, each drained once. -/
inductive Phase where
  | commitments | proposal | proofs | receipts
  deriving DecidableEq

/-- A transport. `deliver` is what the calls of `next_ordered` in one drain loop return, up to the first `None`. A transport
does not know the round and the phase it is drained for; they let a delivery schedule be one. -/
class CoordinationTransport (τ : Type) where
  broadcast : τ → CoordinationMessage → Except TransportError τ
  flush : τ → τ
  deliver : RoundId → Phase → τ → List CoordinationMessage × τ

/-- The in-process bus: what was broadcast and not yet taken, oldest first. -/
structure OrderedBus where
  queue : List CoordinationMessage
  deriving DecidableEq

namespace OrderedBus

def new : OrderedBus := { queue := [] }

/-- Take the oldest message. -/
def nextOrdered (b : OrderedBus) : Option CoordinationMessage × OrderedBus :=
  match b.queue with
  | [] => (none, b)
  | msg :: queue => (some msg, { queue })

/-- Take messages until there is none, `fuel` of them at most. -/
def drain : Nat → OrderedBus → List CoordinationMessage × OrderedBus
  | 0, b => ([], b)
  | fuel + 1, b =>
    match b.nextOrdered with
    | (none, b) => ([], b)
    | (some msg, b) => (msg :: (drain fuel b).1, (drain fuel b).2)

instance : CoordinationTransport OrderedBus where
  broadcast b msg := .ok { queue := b.queue ++ [msg] }
  flush b := b
  deliver _ _ b := b.drain (b.queue.length + 1)

/-- A drain takes everything. -/
theorem drain_eq {fuel : Nat} {b : OrderedBus} (h : b.queue.length < fuel) :
    b.drain fuel = (b.queue, { queue := [] }) := by
  induction fuel generalizing b with
  | zero => omega
  | succ fuel ih =>
    obtain ⟨queue⟩ := b
    cases queue with
    | nil => rfl
    | cons msg queue =>
      have := ih (b := ⟨queue⟩) (by simpa using h)
      simp only [drain, nextOrdered, this]

theorem deliver_eq (b : OrderedBus) (round : RoundId) (phase : Phase) :
    CoordinationTransport.deliver round phase b = (b.queue, ({ queue := [] } : OrderedBus)) :=
  drain_eq (Nat.lt_succ_self _)

end OrderedBus

/-- A transport that delivers given messages in each phase of each round. -/
structure Deliveries where
  schedule : RoundId → Phase → List CoordinationMessage

instance : CoordinationTransport Deliveries where
  broadcast d _ := .ok d
  flush d := d
  deliver round phase d := (d.schedule round phase, d)

/-- A node's transport, by what its polls return: each call of `next_ordered` takes the next poll, a message or `None` after
the timeout, and there is none after the last. What was broadcast is kept. -/
structure Polls where
  polls : List (Option CoordinationMessage)
  sent : List CoordinationMessage

/-- What a drain loop takes of polls, and the polls after it. -/
def Polls.drain : List (Option CoordinationMessage) → List CoordinationMessage × List (Option CoordinationMessage)
  | [] => ([], [])
  | none :: polls => ([], polls)
  | some msg :: polls => (msg :: (drain polls).1, (drain polls).2)

instance : CoordinationTransport Polls where
  broadcast t msg := .ok { t with sent := t.sent ++ [msg] }
  flush t := t
  deliver _ _ t := ((Polls.drain t.polls).1, { t with polls := (Polls.drain t.polls).2 })

/-- Hand messages to a transport in order, up to the first one it refuses. -/
def broadcastAll {τ : Type} [CoordinationTransport τ] : List CoordinationMessage → τ → Except TransportError τ
  | [], t => .ok t
  | msg :: msgs, t => do
    let t ← CoordinationTransport.broadcast t msg
    broadcastAll msgs t

theorem OrderedBus.broadcastAll_eq (msgs : List CoordinationMessage) (b : OrderedBus) :
    broadcastAll msgs b = .ok { queue := b.queue ++ msgs } := by
  induction msgs generalizing b with
  | nil => simp [broadcastAll]
  | cons msg msgs ih =>
    have : broadcastAll (msg :: msgs) b = broadcastAll msgs ({ queue := b.queue ++ [msg] } : OrderedBus) := rfl
    rw [this, ih, List.append_assoc, List.singleton_append]

theorem Deliveries.broadcastAll_eq (msgs : List CoordinationMessage) (d : Deliveries) :
    broadcastAll msgs d = .ok d := by
  induction msgs with
  | nil => rfl
  | cons msg msgs ih => exact ih

theorem Polls.broadcastAll_eq (msgs : List CoordinationMessage) (t : Polls) :
    broadcastAll msgs t = .ok { t with sent := t.sent ++ msgs } := by
  induction msgs generalizing t with
  | nil => simp [broadcastAll]
  | cons msg msgs ih =>
    have : broadcastAll (msg :: msgs) t = broadcastAll msgs ({ t with sent := t.sent ++ [msg] } : Polls) := rfl
    rw [this, ih, List.append_assoc, List.singleton_append]

end VertexVeil
