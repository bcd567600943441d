import VertexVeil.Runtime

/-!
# What an in-process run records, from its scenario

The runtime says what a run does message by message. This is the record it leaves, round by round, as a function of the topology,
the scenario and the nodes' own commitments: `entries` is what a round appends to the log, `expectedRejections` what an auditor
expects of it. `Lemmas/Trace.lean` shows that an in-process run leaves no other record.
-/

namespace VertexVeil

open Codec

/-! ## Records that are appended -/

/-- Records to append to a log, by kind. -/
structure Entries where
  commitments : List CommitmentRecord := []
  proposals : List ProposalRecord := []
  proofs : List ProofArtifactRecord := []
  receipts : List CompletionReceiptRecord := []
  rejections : List RejectionRecord := []

namespace Entries

/-- Records after records. -/
def append (E F : Entries) : Entries where
  commitments := E.commitments ++ F.commitments
  proposals := E.proposals ++ F.proposals
  proofs := E.proofs ++ F.proofs
  receipts := E.receipts ++ F.receipts
  rejections := E.rejections ++ F.rejections

instance : Append Entries := ⟨append⟩

/-- The records of several steps, one after the other. -/
def concat (Es : List Entries) : Entries where
  commitments := Es.flatMap (·.commitments)
  proposals := Es.flatMap (·.proposals)
  proofs := Es.flatMap (·.proofs)
  receipts := Es.flatMap (·.receipts)
  rejections := Es.flatMap (·.rejections)

end Entries

/-- A log with records appended. -/
def CoordinationLog.extend (log : CoordinationLog) (E : Entries) : CoordinationLog :=
  { log with
    commitments := log.commitments ++ E.commitments
    proposals := log.proposals ++ E.proposals
    proofs := log.proofs ++ E.proofs
    receipts := log.receipts ++ E.receipts
    rejections := log.rejections ++ E.rejections
    commitmentKeys := log.commitmentKeys ∪ (E.commitments.map fun c => (c.nodeId, c.round)).toFinset }

/-! ## What a scenario makes of a round -/

/-- An event that replays a commitment. -/
def ScenarioEvent.isReplay : ScenarioEvent → Bool
  | replayPriorCommitment _ _ _ => true
  | _ => false

/-- The rejection that an event's message meets in a round: a replay of a commitment its node made before the round, and a
second commitment of a node that commits in the round. -/
def ScenarioEvent.record (scenario : Scenario) (r : RoundId) : ScenarioEvent → Option RejectionRecord
  | replayPriorCommitment n r' k =>
    if r' = r ∧ k < r ∧ scenario.hasDropped n k = false then
      some { round := r, nodeId := n, kind := "commitment", reasonCode := "replay_detected" }
    else none
  | doubleCommit n r' =>
    if r' = r ∧ scenario.hasDropped n r = false then
      some { round := r, nodeId := n, kind := "commitment", reasonCode := "duplicate_commitment" }
    else none
  | dropNode _ _ => none
  | injectInvalidProof _ _ => none

/-- The record of a node that has dropped. -/
def droppedRecord (r : RoundId) (n : NodeId) : RejectionRecord :=
  { round := r, nodeId := n, kind := "commitment", reasonCode := "node_dropped" }

/-- The record of a proof that was tampered with. -/
def tamperedRecord (r : RoundId) (n : NodeId) : RejectionRecord :=
  { round := r, nodeId := n, kind := "proof", reasonCode := "public_inputs_mismatch" }

/-- The provider that is matched in a round: the first that claims the capability and has not dropped, in stable key order. -/
def winner (t : TopologyConfig) (scenario : Scenario) (cap : CapabilityTag) (r : RoundId) : Option NodeId :=
  (t.providersStableOrder.find? (fun n => cap ∈ n.capabilityClaims ∧ scenario.hasDropped n.id r = false)).map (·.id)

/-- The rejections of a round after its commitment phase: the requester is missing, or no provider can be matched, or some of
the two proofs were tampered with. -/
def closingRejections (t : TopologyConfig) (scenario : Scenario) (r : RoundId) : List RejectionRecord :=
  match t.requester with
  | none => []
  | some n =>
    if scenario.hasDropped n.id r then [{ round := r, nodeId := n.id, kind := "round", reasonCode := "requester_missing" }]
    else match n.requiredCapability.bind (winner t scenario · r) with
      | none =>
        match deterministicProposer t r with
        | .error _ => []
        | .ok proposer => [{ round := r, nodeId := proposer, kind := "proposal", reasonCode := "no_feasible_provider" }]
      | some k => ([n.id, k].filter fun id => (id, r) ∈ scenario.invalidProofs).map (tamperedRecord r)

/-- What an auditor expects a round to record as rejected: each dropped node, each event of a node that comes to a message, and
how the round closed. -/
def expectedRejections (t : TopologyConfig) (scenario : Scenario) (r : RoundId) : List RejectionRecord :=
  (t.nodes.filter fun n => scenario.hasDropped n.id r).map (fun n => droppedRecord r n.id) ++
    (scenario.events.filter fun e => ∃ n ∈ t.nodes, n.id = e.node).filterMap (ScenarioEvent.record scenario r) ++
    closingRejections t scenario r

/-! ## What a round appends -/

section

variable (Γ : Crypto) (s₀ : RuntimeState) (r : RoundId)

/-- The commitment of a node in a round in which it has not dropped. -/
def ownCommitment (n : NodeId) : Option CommitmentRecord :=
  if s₀.scenario.hasDropped n r then none else (s₀.buildCommitment Γ n r).toOption

/-- The rejections of one node's messages in the commitment phase: replays come before its commitment and double commits
after it. -/
def injected (scenario : Scenario) (n : NodeId) : List RejectionRecord :=
  (scenario.events.filter fun e => e.node = n ∧ e.isReplay = true).filterMap (ScenarioEvent.record scenario r) ++
    (scenario.events.filter fun e => e.node = n ∧ e.isReplay = false).filterMap (ScenarioEvent.record scenario r)

/-- What the messages of one node append in the commitment phase. -/
def nodeEntries (n : NodeId) : Entries :=
  { commitments := (ownCommitment Γ s₀ r n).toList, rejections := injected r s₀.scenario n }

/-- What the commitment phase appends. -/
def commitEntries : Entries :=
  { rejections := (s₀.agents.keys.filter fun n => s₀.scenario.hasDropped n r).map (droppedRecord r) } ++
    Entries.concat (s₀.agents.keys.map (nodeEntries Γ s₀ r))

/-- What the proof of a node appends. -/
def proofEntries (n : NodeId) (c : CommitmentRecord) : Entries :=
  if (n, r) ∈ s₀.invalidProofSchedule then { rejections := [tamperedRecord r n] }
  else { proofs := [buildProofArtifact Γ c n r] }

/-- What the receipt of the matched provider appends, when neither proof was tampered with. -/
def receiptEntries (p : ProposalRecord) : Entries :=
  if (p.candidateRequester, r) ∈ s₀.invalidProofSchedule ∨ (p.candidateProvider, r) ∈ s₀.invalidProofSchedule then {}
  else { receipts := [{
    provider := p.candidateProvider, round := r
    signatureHex := s₀.receiptSignatureHex Γ p.candidateProvider r p.matchedCapability.asStr }] }

/-- What the phases after a proposal append. -/
def matchEntries (p : ProposalRecord) : Entries :=
  { proposals := [p] } ++ (ownCommitment Γ s₀ r p.candidateRequester).elim {} (proofEntries Γ s₀ r p.candidateRequester) ++
    (ownCommitment Γ s₀ r p.candidateProvider).elim {} (proofEntries Γ s₀ r p.candidateProvider) ++ receiptEntries Γ s₀ r p

/-- What the phases after the commitment phase append. -/
def closingEntries : Entries :=
  match s₀.topology.requester with
  | none => {}
  | some n =>
    if s₀.scenario.hasDropped n.id r then
      { rejections := [{ round := r, nodeId := n.id, kind := "round", reasonCode := "requester_missing" }] }
    else match n.requiredCapability, deterministicProposer s₀.topology r with
      | some cap, .ok proposer =>
        match winner s₀.topology s₀.scenario cap r with
        | none =>
          { rejections := [{ round := r, nodeId := proposer, kind := "proposal", reasonCode := "no_feasible_provider" }] }
        | some k => matchEntries Γ s₀ r {
            proposer, round := r, candidateRequester := n.id, candidateProvider := k, matchedCapability := cap }
      | _, _ => {}

/-- What a round appends. -/
def entries : Entries := commitEntries Γ s₀ r ++ closingEntries Γ s₀ r

/-- What the rounds below a bound append. -/
def entriesBelow : Entries := Entries.concat ((List.range r.toNat).map fun k => entries Γ s₀ (UInt64.ofNat k))

end

end VertexVeil
