import VertexVeil.RoundMachine
import VertexVeil.Verifier

/-!
# Replaying a log

A log fed back to a fresh round machine: the rounds in ascending order, in each its commitments and then its proposals, in log
order. `Replayable` is what a log must satisfy, beyond what the verifier checks, to be accepted at every step.
-/

namespace VertexVeil

open Codec

/-- Feed records to the machine, one after the other; the first refused one ends it. -/
def RoundMachine.feed {α : Type} (accept : RoundMachine → α → Except RoundError Unit × RoundMachine) :
    List α → RoundMachine → Except RoundError RoundMachine
  | [], m => .ok m
  | a :: as, m =>
    match accept m a with
    | (.error e, _) => .error e
    | (.ok (), m) => feed accept as m

/-- Advance to a round, unless it is the active one. -/
def RoundMachine.enter (round : RoundId) (m : RoundMachine) : Except RoundError RoundMachine :=
  if m.current = round then .ok m
  else match m.advanceTo round with
    | (.error e, _) => .error e
    | (.ok (), m) => .ok m

namespace CoordinationLog

/-- The rounds with a commitment or a proposal, in ascending order. -/
def rounds (log : CoordinationLog) : List RoundId :=
  (log.commitments.map (·.round) ++ log.proposals.map (·.round)).dedup.insertionSort (· ≤ ·)

/-- Replay one round. -/
def replayRound (log : CoordinationLog) (round : RoundId) (m : RoundMachine) : Except RoundError RoundMachine := do
  let m ← m.enter round
  let m ← m.feed RoundMachine.acceptCommitment (log.commitmentsIn round)
  m.feed RoundMachine.acceptProposal (log.proposalsIn round)

/-- Replay rounds, one after the other. -/
def replayRounds (log : CoordinationLog) : List RoundId → RoundMachine → Except RoundError RoundMachine
  | [], m => .ok m
  | round :: rounds, m => do
    let m ← log.replayRound round m
    log.replayRounds rounds m

/-- Replay a log through a fresh machine. -/
def replay (log : CoordinationLog) (t : TopologyConfig) : Except RoundError RoundMachine :=
  log.replayRounds log.rounds (.new t 0)

/-- No commitment hash twice, one proposal a round, every proposed provider committed as a provider, every requester's
commitment with a capability. -/
structure Replayable (log : CoordinationLog) : Prop where
  hashes : (log.commitments.map (·.commitmentHex)).Nodup
  proposals : (log.proposals.map (·.round)).Nodup
  providers : ∀ p ∈ log.proposals, ∃ c ∈ log.commitments, c.nodeId = p.candidateProvider ∧ c.round = p.round ∧
    c.publicIntent.role = .provider
  capabilities : ∀ c ∈ log.commitments, ∀ n r cap, c.publicIntent = .requester n r cap → cap.asStr ≠ []

end CoordinationLog

end VertexVeil
