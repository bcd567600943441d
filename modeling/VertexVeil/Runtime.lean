import VertexVeil.Commitments
import VertexVeil.PrivateIntents
import VertexVeil.ProofArtifact
import VertexVeil.RoundMachine
import VertexVeil.Scenario
import VertexVeil.Transport

/-!
# The coordination runtime

One round is four phases. In each the runtime broadcasts what its own agents have to say and then drains the transport,
handling one message after the other; a round ends finalized or in fallback, and the run goes on to the next round until one
is finalized or the rounds are used up.

A broadcasting step returns the messages it hands to the transport, in order, with its result (`Emit`); `Runtime.emit` hands
them over, and the first one the transport refuses ends the run. The observer of a run changes nothing and is left out.
-/

namespace VertexVeil

open Codec

/-- Errors that end a run outright. -/
inductive RuntimeError where
  | noRequester
  | noProviders
  | missingPrivateIntent (who : Text)
  | round (e : RoundError)
  | proposer (e : ProposerError)
  | commitment (e : CommitmentError)
  | exceededMaxRounds (rounds : UInt64)
  | transport (e : TransportError)
  deriving DecidableEq

/-- What a runtime holds besides its transport. -/
structure RuntimeState where
  topology : TopologyConfig
  log : CoordinationLog
  agents : Agents
  roundMachine : RoundMachine
  scenario : Scenario
  invalidProofSchedule : Finset (NodeId × RoundId)
  historicalCommitments : NodeId × RoundId → Option CommitmentRecord
  maxRounds : UInt64
  runSalt : Bytes 32

/-- How a round ended. -/
inductive RoundOutcome where
  | finalized | fallback
  deriving DecidableEq

/-- What a run returns. -/
structure RuntimeOutcome where
  log : CoordinationLog
  finalized : Bool
  finalRound : RoundId

/-- What a broadcasting step hands to the transport, in order, and its result. -/
abbrev Emit (α : Type) : Type := List CoordinationMessage × Except (Fault RuntimeError) α

/-- A broadcasting step after another, on its result. -/
def Emit.andThen {α β : Type} (x : Emit α) (f : α → Emit β) : Emit β :=
  match x.2 with
  | .ok a => (x.1 ++ (f a).1, (f a).2)
  | .error e => (x.1, .error e)

/-- The code of an error in rejection records. -/
def roundErrorCode : RoundError → String
  | .roundMismatch _ _ => "round_mismatch"
  | .duplicateCommitment _ => "duplicate_commitment"
  | .replayDetected => "replay_detected"
  | .unknownNode => "unknown_node"
  | .roleMismatch => "role_mismatch"
  | .backwardTransition => "backward_transition"
  | .proposer _ => "proposer_error"
  | .wrongProposer => "wrong_proposer"
  | .unknownRequesterCommitment => "unknown_requester_commitment"
  | .unknownProviderCommitment => "unknown_provider_commitment"
  | .tamperedProposal _ => "tampered_proposal"
  | .alreadyFinalized => "already_finalized"

/-- An intent with another round. -/
def updateIntentRound (intent : PublicIntent) (newRound : RoundId) : PublicIntent :=
  match intent with
  | .requester nodeId _ requiredCapability => .requester nodeId newRound requiredCapability
  | .provider nodeId _ capabilityClaims => .provider nodeId newRound capabilityClaims

namespace RuntimeState

/-- Log a rejection. -/
def reject (s : RuntimeState) (round : RoundId) (nodeId : NodeId) (kind reasonCode : String) : RuntimeState :=
  { s with log := s.log.appendRejection { round, nodeId, kind, reasonCode } }

/-! ## Commitments -/

/-- A node's own commitment for a round. -/
def buildCommitment (Γ : Crypto) (s : RuntimeState) (nodeId : NodeId) (round : RoundId) :
    Except (Fault RuntimeError) CommitmentRecord :=
  match s.agents[nodeId]? with
  | none => .error (.error (.missingPrivateIntent nodeId.toHex))
  | some agent =>
    let nonce := deriveTestNonce Γ nodeId round s.runSalt
    match s.topology.findNode nodeId with
    | none => .error (.panic "agents validated against topology")
    | some nodeCfg =>
      match agent.role with
      | .requester =>
        match agent.requester with
        | none => .error (.error (.missingPrivateIntent ("requester-private for ".toList ++ nodeId.toHex)))
        | some intent =>
          match commitRequester Γ intent nonce round with
          | .error e => .error (.error (.commitment e))
          | .ok commit =>
            match nodeCfg.requiredCapability with
            | none => .error (.panic "topology requester has required_capability")
            | some required => .ok {
                nodeId, round, commitmentHex := hexEncode commit.toList
                publicIntent := .requester nodeId round required }
      | .provider =>
        match agent.provider with
        | none => .error (.error (.missingPrivateIntent ("provider-private for ".toList ++ nodeId.toHex)))
        | some intent =>
          match commitProvider Γ intent nonce round with
          | .error e => .error (.error (.commitment e))
          | .ok commit => .ok {
              nodeId, round, commitmentHex := hexEncode commit.toList
              publicIntent := .provider nodeId round nodeCfg.capabilityClaims }

/-- The replays scheduled for a node: earlier commitments of its own, labelled for this round. -/
def replays (s : RuntimeState) (nodeId : NodeId) (round : RoundId) : List CoordinationMessage :=
  (s.scenario.eventsForRound nodeId round).filterMap fun
    | .replayPriorCommitment node _ fromRound =>
      (s.historicalCommitments (node, fromRound)).map fun prior =>
        let replayed := { prior with round, publicIntent := updateIntentRound prior.publicIntent round }
        { origin := node, payload := .commitment replayed }
    | _ => none

/-- The double commits scheduled for a node: its commitment of this round once more. -/
def doubleCommits (s : RuntimeState) (nodeId : NodeId) (round : RoundId) : List CoordinationMessage :=
  (s.scenario.eventsForRound nodeId round).filterMap fun
    | .doubleCommit node r =>
      (s.historicalCommitments (node, r)).map fun rec => { origin := node, payload := .commitment rec }
    | _ => none

/-- Remember a commitment for later replays. -/
def remember (s : RuntimeState) (nodeId : NodeId) (round : RoundId) (record : CommitmentRecord) : RuntimeState :=
  { s with historicalCommitments := Function.update s.historicalCommitments (nodeId, round) (some record) }

/-- What one node broadcasts in the commitment phase: replays first, then its commitment unless it has dropped, then
double commits. -/
def broadcastCommitment (Γ : Crypto) (round : RoundId) (nodeId : NodeId) (s : RuntimeState) : Emit RuntimeState :=
  if s.scenario.hasDropped nodeId round then
    (s.replays nodeId round, .ok (s.reject round nodeId "commitment" "node_dropped"))
  else match s.buildCommitment Γ nodeId round with
    | .error e => (s.replays nodeId round, .error e)
    | .ok baseRecord =>
      let s' := s.remember nodeId round baseRecord
      (s.replays nodeId round ++ [{ origin := nodeId, payload := .commitment baseRecord }] ++ s'.doubleCommits nodeId round,
        .ok s')

/-- The commitment broadcasts of the given nodes, one node after the other. -/
def broadcastCommitmentsOf (Γ : Crypto) (round : RoundId) : List NodeId → RuntimeState → Emit RuntimeState
  | [], s => ([], .ok s)
  | nodeId :: nodeIds, s => (s.broadcastCommitment Γ round nodeId).andThen (broadcastCommitmentsOf Γ round nodeIds)

/-- The commitment broadcasts of the agents, in key order. -/
def broadcastCommitments (Γ : Crypto) (round : RoundId) (s : RuntimeState) : Emit RuntimeState :=
  s.broadcastCommitmentsOf Γ round s.agents.keys

/-- Handle a message of the commitment phase. -/
def handleCommitment (round : RoundId) (s : RuntimeState) (msg : CoordinationMessage) : RuntimeState :=
  match msg.payload with
  | .commitment rec =>
    if msg.origin ≠ rec.nodeId then s.reject round msg.origin "commitment" "origin_mismatch"
    else match s.roundMachine.acceptCommitment rec with
      | (.ok (), roundMachine) =>
        match s.log.appendCommitment rec with
        | (.ok (), log) => { s with roundMachine, log }
        | (.error _, log) => { s with roundMachine, log }.reject round rec.nodeId "commitment" "log_duplicate"
      | (.error err, roundMachine) =>
        { s with roundMachine }.reject round rec.nodeId "commitment" (roundErrorCode err)
  | payload => s.reject round msg.origin (payloadLabel payload) "out_of_phase"

/-- Handle the messages delivered in the commitment phase. -/
def drainCommitments (round : RoundId) (batch : List CoordinationMessage) (s : RuntimeState) : RuntimeState :=
  batch.foldl (handleCommitment round) s

/-! ## Proposal -/

/-- `{:?}` of a candidate rejection. -/
def candidateRejectionDebug : CandidateRejection → String
  | .missingRequesterCapability => "MissingRequesterCapability"
  | .wrongRoundInRequester => "WrongRoundInRequester"

/-- The proposal of the round, when its proposer is an agent of this process; `false` when the round must fall back. -/
def broadcastProposal (round : RoundId) (s : RuntimeState) : Emit (Bool × RuntimeState) :=
  match s.roundMachine.currentProposer with
  | .error e => ([], .error (.error (.round e)))
  | .ok proposer =>
    if ¬ s.agents.contains proposer then ([], .ok (true, s))
    else match s.topology.requester with
      | none => ([], .error (.panic "from_raw enforces exactly one requester"))
      | some requester =>
        match s.roundMachine.commitments[requester.id]? with
        | none => ([], .ok (false, s.reject round proposer "proposal" "requester_missing"))
        | some reqCommit =>
          match deriveCandidate round reqCommit (s.roundMachine.providersSnapshot requester.id) with
          | .ok (some candidate) =>
            let proposal : ProposalRecord := {
              proposer, round, candidateRequester := candidate.requester, candidateProvider := candidate.provider
              matchedCapability := candidate.matchedCapability }
            ([{ origin := proposer, payload := .proposal proposal }], .ok (true, s))
          | .ok none => ([], .ok (false, s.reject round proposer "proposal" "no_feasible_provider"))
          | .error e => ([], .ok (false,
              s.reject round proposer "proposal" ("candidate_error:" ++ candidateRejectionDebug e)))

/-- Handle a message of the proposal phase. -/
def handleProposal (round : RoundId) (s : RuntimeState) (msg : CoordinationMessage) : RuntimeState :=
  match msg.payload with
  | .proposal p =>
    if msg.origin ≠ p.proposer then s.reject round msg.origin "proposal" "origin_mismatch"
    else match s.roundMachine.acceptProposal p with
      | (.ok (), roundMachine) => { s with roundMachine, log := s.log.appendProposal p }
      | (.error err, roundMachine) => { s with roundMachine }.reject round p.proposer "proposal" (roundErrorCode err)
  | payload => s.reject round msg.origin (payloadLabel payload) "out_of_phase"

/-- Handle the messages delivered in the proposal phase. -/
def drainProposal (round : RoundId) (batch : List CoordinationMessage) (s : RuntimeState) : RuntimeState :=
  batch.foldl (handleProposal round) s

/-! ## Proofs -/

/-- The proof of one participant, when it is an agent of this process; tampered with when an invalid proof is scheduled. -/
def broadcastProof (Γ : Crypto) (round : RoundId) (s : RuntimeState) (participant : NodeId) : Emit Unit :=
  if ¬ s.agents.contains participant then ([], .ok ())
  else match s.roundMachine.commitments[participant]? with
    | none => ([], .error (.panic "proposal validated against commitment set"))
    | some commitment =>
      let artifact := buildProofArtifact Γ commitment participant round
      let artifact := if (participant, round) ∈ s.invalidProofSchedule then
        { artifact with publicInputsHex := tamperPublicInputs artifact.publicInputsHex } else artifact
      ([{ origin := participant, payload := .proof artifact }], .ok ())

/-- The proofs of the matched pair, the requester's first. -/
def broadcastProofs (Γ : Crypto) (round : RoundId) (proposal : ProposalRecord) (s : RuntimeState) : Emit Unit :=
  (s.broadcastProof Γ round proposal.candidateRequester).andThen fun () =>
    s.broadcastProof Γ round proposal.candidateProvider

/-- Handle a message of the proof phase. -/
def handleProof (round : RoundId) (s : RuntimeState) (msg : CoordinationMessage) : RuntimeState :=
  match msg.payload with
  | .proof rec =>
    if msg.origin ≠ rec.nodeId then s.reject round msg.origin "proof" "origin_mismatch"
    else if rec.round ≠ round then s.reject round rec.nodeId "proof" "wrong_round"
    else match s.roundMachine.commitments[rec.nodeId]? with
      | none => s.reject round rec.nodeId "proof" "unknown_commitment"
      | some expected =>
        if extractCommitmentHashHex rec.publicInputsHex ≠ some expected.commitmentHex then
          s.reject round rec.nodeId "proof" "public_inputs_mismatch"
        else { s with log := s.log.appendProof rec }
  | payload => s.reject round msg.origin (payloadLabel payload) "out_of_phase"

/-- Handle the messages delivered in the proof phase. -/
def drainProofs (round : RoundId) (batch : List CoordinationMessage) (s : RuntimeState) : RuntimeState :=
  batch.foldl (handleProof round) s

/-! ## Receipt -/

/-- The signature of a receipt: ed25519 when the provider has a seed, else the legacy tag. -/
def receiptSignatureHex (Γ : Crypto) (s : RuntimeState) (provider : NodeId) (round : RoundId) (capability : Text) : Text :=
  match (s.agents[provider]?.bind (·.provider)).bind (·.signingSecretKey) with
  | some seed => hexEncode (signReceiptEd25519 Γ seed provider round capability).toList
  | none => hexEncode (legacySignature Γ provider round capability).toList

/-- The receipt of the matched provider, when it is an agent of this process. -/
def broadcastReceipt (Γ : Crypto) (round : RoundId) (proposal : ProposalRecord) (s : RuntimeState) : Emit Unit :=
  let provider := proposal.candidateProvider
  if ¬ s.agents.contains provider then ([], .ok ())
  else
    let signatureHex := s.receiptSignatureHex Γ provider round proposal.matchedCapability.asStr
    ([{ origin := provider, payload := .receipt { provider, round, signatureHex } }], .ok ())

/-- Handle a message of the receipt phase. -/
def handleReceipt (round : RoundId) (s : RuntimeState) (msg : CoordinationMessage) : RuntimeState :=
  match msg.payload with
  | .receipt r =>
    if msg.origin ≠ r.provider then s.reject round msg.origin "receipt" "origin_mismatch"
    else if r.round ≠ round then s.reject round r.provider "receipt" "wrong_round"
    else if r.signatureHex = [] then s.reject round r.provider "receipt" "missing_signature"
    else { s with log := s.log.appendReceipt r }
  | payload => s.reject round msg.origin (payloadLabel payload) "out_of_phase"

/-- Handle the messages delivered in the receipt phase. -/
def drainReceipts (round : RoundId) (batch : List CoordinationMessage) (s : RuntimeState) : RuntimeState :=
  batch.foldl (handleReceipt round) s

end RuntimeState

/-! ## Rounds and runs -/

/-- A coordination runtime: its state and its transport. -/
structure Runtime (τ : Type) where
  state : RuntimeState
  transport : τ

/-- The state a runtime is built with. -/
def RuntimeState.initial (topology : TopologyConfig) (agents : Agents) (scenario : Scenario) (maxRounds : UInt64) :
    RuntimeState :=
  { topology, log := .new "run-pending", agents, roundMachine := .new topology 0, scenario,
    invalidProofSchedule := scenario.invalidProofs, historicalCommitments := fun _ => none, maxRounds,
    runSalt := List.Vector.replicate 32 0x5a }

/-- Build a runtime: one requester, a provider, at least one agent, every agent a node of the topology. -/
def Runtime.new {τ : Type} (topology : TopologyConfig) (transport : τ) (agents : Agents) (scenario : Scenario)
    (maxRounds : UInt64) : Except RuntimeError (Runtime τ) :=
  if topology.nodes.countP (fun n => n.role = .requester) ≠ 1 then .error .noRequester
  else if topology.nodes.countP (fun n => n.role = .provider) = 0 then .error .noProviders
  else match agents.keys.find? (fun id => ¬ topology.nodes.any (fun n => n.id = id)) with
    | some id => .error (.missingPrivateIntent id.toHex)
    | none =>
      if agents.isEmpty then .error (.missingPrivateIntent "at least one local agent required".toList)
      else .ok { state := .initial topology agents scenario maxRounds, transport }

namespace Runtime

variable {τ : Type} [CoordinationTransport τ]

/-- Set the salt of the nonces. -/
def withRunSalt (rt : Runtime τ) (salt : Bytes 32) : Runtime τ :=
  { rt with state := { rt.state with runSalt := salt } }

/-- Hand the messages of a broadcasting step to the transport, and go on with its result. -/
def emit {α : Type} (t : τ) (e : Emit α) : Except (Fault RuntimeError) (α × τ) :=
  match broadcastAll e.1 t with
  | .error err => .error (.error (.transport err))
  | .ok t =>
    match e.2 with
    | .error err => .error err
    | .ok a => .ok (a, t)

/-- Flush the transport and take what it delivers in a phase. -/
def receive (round : RoundId) (phase : Phase) (t : τ) : List CoordinationMessage × τ :=
  CoordinationTransport.deliver round phase (CoordinationTransport.flush t)

/-- The steps of a round from the receipts on: the receipt is broadcast, the phase drained, the round finalized. -/
def receiptPhase (Γ : Crypto) (round : RoundId) (proposal : ProposalRecord) (rt : Runtime τ) :
    Except (Fault RuntimeError) (RoundOutcome × Runtime τ) := do
  let ((), t) ← emit rt.transport (rt.state.broadcastReceipt Γ round proposal)
  let (batch, t) := receive round .receipts t
  return (.finalized, ⟨rt.state.drainReceipts round batch, t⟩)

/-- The steps of a round from the proofs on: both participants of the proposal must have an accepted proof. -/
def proofPhase (Γ : Crypto) (round : RoundId) (proposal : ProposalRecord) (rt : Runtime τ) :
    Except (Fault RuntimeError) (RoundOutcome × Runtime τ) := do
  let ((), t) ← emit rt.transport (rt.state.broadcastProofs Γ round proposal)
  let (batch, t) := receive round .proofs t
  let s := rt.state.drainProofs round batch
  if s.log.hasProof proposal.candidateRequester round ∧ s.log.hasProof proposal.candidateProvider round then
    receiptPhase Γ round proposal ⟨s, t⟩
  else return (.fallback, ⟨s, t⟩)

/-- The steps of a round from the proposal on: a proposal must land on the log. -/
def proposalPhase (Γ : Crypto) (round : RoundId) (rt : Runtime τ) :
    Except (Fault RuntimeError) (RoundOutcome × Runtime τ) := do
  let ((proposed, s), t) ← emit rt.transport (rt.state.broadcastProposal round)
  if ¬ proposed then return (.fallback, ⟨s, t⟩)
  else
    let (batch, t) := receive round .proposal t
    let s := s.drainProposal round batch
    match s.log.proposalOf round with
    | none => return (.fallback, ⟨s, t⟩)
    | some proposal => proofPhase Γ round proposal ⟨s, t⟩

/-- Run one round: commitments, then the later phases when the requester has an accepted commitment. -/
def runOneRound (Γ : Crypto) (round : RoundId) (rt : Runtime τ) :
    Except (Fault RuntimeError) (RoundOutcome × Runtime τ) := do
  let (s, t) ← emit rt.transport (rt.state.broadcastCommitments Γ round)
  let (batch, t) := receive round .commitments t
  let s := s.drainCommitments round batch
  match s.topology.requester with
  | none => .error (.panic "from_raw enforces exactly one requester")
  | some requester =>
    if ¬ s.roundMachine.commitments.contains requester.id then
      return (.fallback, ⟨s.reject round requester.id "round" "requester_missing", t⟩)
    else proposalPhase Γ round ⟨s, t⟩

/-- Go on to the next round. -/
def advanceFallback (rt : Runtime τ) : Except (Fault RuntimeError) (Runtime τ) :=
  match rt.state.roundMachine.advanceFallback with
  | none => .error (.panic "attempt to add with overflow")
  | some (.error e, _) => .error (.error (.round e))
  | some (.ok (), roundMachine) => .ok { rt with state := { rt.state with roundMachine } }

/-- The rounds of a run, `rounds` at most: the runtime after them, whether one was finalized and the last one attempted. -/
def runRounds (Γ : Crypto) : Nat → RoundId → Runtime τ → Except (Fault RuntimeError) (Runtime τ × Bool × RoundId)
  | 0, finalRound, rt => .ok (rt, false, finalRound)
  | rounds + 1, _, rt => do
    let round := rt.state.roundMachine.current
    let (outcome, rt) ← runOneRound Γ round rt
    match outcome with
    | .finalized => .ok (rt, true, round)
    | .fallback => do
      let rt ← rt.advanceFallback
      runRounds Γ rounds round rt

/-- The log of a run that has ended. -/
def closeLog (log : CoordinationLog) (finalized : Bool) (finalRound : RoundId) : CoordinationLog :=
  let log := log.setFinalRound finalRound finalized
  if finalized then log else log.setAbortReason "max_rounds_exceeded"

/-- A runtime with a fresh log. -/
def withLog (rt : Runtime τ) (runId : String) : Runtime τ :=
  { rt with state := { rt.state with log := .new runId } }

/-- Run a session and return its outcome and the transport. -/
def runWithTransport (Γ : Crypto) (runId : String) (rt : Runtime τ) :
    Except (Fault RuntimeError) (RuntimeOutcome × τ) := do
  let (rt, finalized, finalRound) ← runRounds Γ rt.state.maxRounds.toNat 0 (rt.withLog runId)
  return ({ log := closeLog rt.state.log finalized finalRound, finalized, finalRound }, rt.transport)

/-- Run a session and return its outcome. -/
def run (Γ : Crypto) (runId : String) (rt : Runtime τ) : Except (Fault RuntimeError) RuntimeOutcome := do
  let (outcome, _) ← runWithTransport Γ runId rt
  return outcome

end Runtime

end VertexVeil
