import VertexVeil.Lib.Broadcast
import VertexVeil.Runtime

/-!
# Node processes over the ordering service

A node runs a session of the runtime in its own process, with its own agent. Seen from outside the process is in one of the four
drain loops of a round: it takes the next message of the stream, or a poll times out and it goes on to the next drain loop. The
definitions here cut the runtime's loops at the polls and are otherwise the runtime's; `Lemmas/Network.lean` connects the two.
-/

namespace VertexVeil

open Broadcast Codec

/-- The drain loop of a round a process is in; from the proofs on with the proposal of the round. -/
inductive Stage where
  | commitments
  | proposal
  | proofs (proposal : ProposalRecord)
  | receipts (proposal : ProposalRecord)

/-- How a message is handled in a drain loop. -/
def Stage.handle (round : RoundId) : Stage → RuntimeState → CoordinationMessage → RuntimeState
  | .commitments => RuntimeState.handleCommitment round
  | .proposal => RuntimeState.handleProposal round
  | .proofs _ => RuntimeState.handleProof round
  | .receipts _ => RuntimeState.handleReceipt round

/-- A session in one of its drain loops: the round and how many may follow it. -/
structure Session where
  state : RuntimeState
  round : RoundId
  roundsLeft : Nat
  stage : Stage

/-- The process of a node: about to run a session, in it, or after it. -/
inductive Process where
  | ready (s : RuntimeState)
  | draining (x : Session)
  | returned (outcome : RuntimeOutcome)
  | failed (e : Fault RuntimeError)

/-- The records of a log as the messages that carry them, each under the node it is attributed to. -/
def CoordinationLog.messages (log : CoordinationLog) : List CoordinationMessage :=
  log.commitments.map (fun c => { origin := c.nodeId, payload := .commitment c }) ++
    log.proposals.map (fun p => { origin := p.proposer, payload := .proposal p }) ++
    log.proofs.map (fun a => { origin := a.nodeId, payload := .proof a }) ++
    log.receipts.map (fun r => { origin := r.provider, payload := .receipt r })

/-- The records in the log of a process; a session that failed has returned none. -/
def Process.logged : Process → List CoordinationMessage
  | .ready s => s.log.messages
  | .draining x => x.state.log.messages
  | .returned out => out.log.messages
  | .failed _ => []

/-- What a process has broadcast and what it is after a broadcasting step; an error ends the session. -/
def Emit.settle (e : Emit Process) : List CoordinationMessage × Process :=
  (e.1, match e.2 with
    | .ok p => p
    | .error err => .failed err)

/-- Into the next round, when one is left; `finalRound` is the last one attempted. -/
def beginRound (Γ : Crypto) : Nat → RoundId → RuntimeState → Emit Process
  | 0, finalRound, s =>
    ([], .ok (.returned { log := Runtime.closeLog s.log false finalRound, finalized := false, finalRound }))
  | roundsLeft + 1, _, s =>
    let round := s.roundMachine.current
    (s.broadcastCommitments Γ round).andThen fun s =>
      ([], .ok (.draining { state := s, round, roundsLeft, stage := .commitments }))

/-- Out of a round that fell back, into the next. -/
def fallBack (Γ : Crypto) (roundsLeft : Nat) (round : RoundId) (s : RuntimeState) : Emit Process :=
  match Runtime.advanceFallback { state := s, transport := () } with
  | .error e => ([], .error e)
  | .ok rt => beginRound Γ roundsLeft round rt.state

namespace Session

/-- Take a message. -/
def hear (x : Session) (msg : CoordinationMessage) : Session :=
  { x with state := x.stage.handle x.round x.state msg }

/-- From the end of a drain loop to the next one. -/
def pause (Γ : Crypto) (x : Session) : Emit Process :=
  match x.stage with
  | .commitments =>
    match x.state.topology.requester with
    | none => ([], .error (.panic "from_raw enforces exactly one requester"))
    | some requester =>
      if ¬ x.state.roundMachine.commitments.contains requester.id then
        fallBack Γ x.roundsLeft x.round (x.state.reject x.round requester.id "round" "requester_missing")
      else (x.state.broadcastProposal x.round).andThen fun y =>
        if ¬ y.1 then fallBack Γ x.roundsLeft x.round y.2
        else ([], .ok (.draining { x with state := y.2, stage := .proposal }))
  | .proposal =>
    match x.state.log.proposalOf x.round with
    | none => fallBack Γ x.roundsLeft x.round x.state
    | some proposal => (x.state.broadcastProofs Γ x.round proposal).andThen fun () =>
        ([], .ok (.draining { x with stage := .proofs proposal }))
  | .proofs proposal =>
    if x.state.log.hasProof proposal.candidateRequester x.round ∧ x.state.log.hasProof proposal.candidateProvider x.round then
      (x.state.broadcastReceipt Γ x.round proposal).andThen fun () =>
        ([], .ok (.draining { x with stage := .receipts proposal }))
    else fallBack Γ x.roundsLeft x.round x.state
  | .receipts _ => ([], .ok (.returned {
      log := Runtime.closeLog x.state.log true x.round, finalized := true, finalRound := x.round }))

end Session

/-- The steps of a process: it takes a message in a drain loop; on its own it starts its session or ends a drain loop. -/
def protocol (Γ : Crypto) : Protocol Process CoordinationMessage where
  hear
    | .draining x, msg => some (.draining (x.hear msg))
    | _, _ => none
  act
    | .ready s => some (beginRound Γ s.maxRounds.toNat 0 s).settle
    | .draining x => some (x.pause Γ).settle
    | _ => none

/-- The process of a node before a session: its runtime has the node's own agent of a bundle that loads for the topology. -/
def Boots {Γ : Crypto} (T : LoadedTopology Γ) (scenario : NodeId → Scenario) (node : NodeId) (p : Process) : Prop :=
  ∃ (L : LoadedAgents Γ T.config) (agent : AgentState) (maxRounds : UInt64) (rt : Runtime Unit) (salt : Bytes 32)
    (runId : String), L.agents[node]? = some agent ∧
      Runtime.new T.config () ((∅ : Agents).insert node agent) (scenario node) maxRounds = .ok rt ∧
      p = .ready ((rt.withRunSalt salt).withLog runId).state

/-- Processes of nodes of a topology, at most one a node, over the ordering service. -/
def network {Γ : Crypto} (T : LoadedTopology Γ) (scenario : NodeId → Scenario) :
    Transition.Machine (Net NodeId Process CoordinationMessage) (Action NodeId) :=
  machine (protocol Γ) (Boots T scenario)

end VertexVeil
