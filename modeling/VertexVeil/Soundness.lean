import VertexVeil.Verifier

/-!
# Sound logs

What a log of a finalized run must satisfy, in the terms of the record and the topology alone. The verifier computes reasons;
`SoundLog` says what their absence means.
-/

namespace VertexVeil

open Codec

/-- The node and the round of a commitment. -/
def CommitmentRecord.key (c : CommitmentRecord) : NodeId × RoundId := (c.nodeId, c.round)

/-- A commitment of a configured node in its role, with an intent that names the record's node and round. -/
structure SoundCommitment (t : TopologyConfig) (c : CommitmentRecord) : Prop where
  node : ∃ n ∈ t.nodes, n.id = c.nodeId ∧ n.role = c.publicIntent.role
  intentNode : c.publicIntent.nodeId = c.nodeId
  intentRound : c.publicIntent.round = c.round

/-- A log holds a commitment of a node in a round. -/
def CoordinationLog.HasCommitment (log : CoordinationLog) (node : NodeId) (round : RoundId) (c : CommitmentRecord) : Prop :=
  c ∈ log.commitments ∧ c.nodeId = node ∧ c.round = round

/-- A proposal by the provider whose turn it is, with both participants committed in its round, for the capability the
requester requires; the provider claims it, when its intent is a provider's. -/
structure SoundProposal (t : TopologyConfig) (log : CoordinationLog) (p : ProposalRecord) : Prop where
  proposer : t.providersStable[p.round.toNat % t.providersStable.length]? = some p.proposer
  requester : ∃ c n r, log.HasCommitment p.candidateRequester p.round c ∧ c.publicIntent = .requester n r p.matchedCapability
  provider : ∃ c, log.HasCommitment p.candidateProvider p.round c ∧
    ∀ n r claims, c.publicIntent = .provider n r claims → p.matchedCapability ∈ claims

/-- A proof whose public inputs are its round, its node, the logged commitment and the role of its intent, and whose bytes
start with a known marker. -/
structure SoundProof (log : CoordinationLog) (a : ProofArtifactRecord) : Prop where
  inputs : ∃ c digest, log.HasCommitment a.nodeId a.round c ∧ hexEncode digest.toList = c.commitmentHex ∧
    parsePublicInputs a.publicInputsHex = some (a.round, a.nodeId, digest, roleByte c.publicIntent)
  marker : ∃ m rest, hexDecode a.proofHex = some (m :: rest) ∧ (m = 1 ∨ m = 2)

/-- A receipt signature that certifies a match: of the provider's ed25519 key where the topology gives it one, else the
legacy tag. -/
def ReceiptSigned (Γ : Crypto) (t : TopologyConfig) (signatureHex : Text) (provider : NodeId) (round : RoundId)
    (capability : Text) : Prop :=
  match (t.findNode provider).bind (·.signingPublicKey) with
  | some pk => ∃ raw : Bytes 64, hexDecode signatureHex = some raw.toList ∧
      Γ.verify pk (receiptMessage provider round capability) raw = true
  | none => signatureHex = hexEncode (legacySignature Γ provider round capability).toList

/-- A final round with a proposal whose provider committed as a provider, both proofs, and the provider's receipt. -/
structure SoundFinal (Γ : Crypto) (t : TopologyConfig) (log : CoordinationLog) (p : ProposalRecord) : Prop where
  last : log.proposalOf log.finalRound = some p
  provider : ∃ c, log.HasCommitment p.candidateProvider log.finalRound c ∧ c.publicIntent.role = .provider
  receipt : ∃ r, log.receiptOf p.candidateProvider log.finalRound = some r ∧
    ReceiptSigned Γ t r.signatureHex p.candidateProvider log.finalRound p.matchedCapability.asStr
  requesterProof : ∃ a ∈ log.proofs, a.round = log.finalRound ∧ a.nodeId = p.candidateRequester
  providerProof : ∃ a ∈ log.proofs, a.round = log.finalRound ∧ a.nodeId = p.candidateProvider

/-- A rejection within the log's span, with both labels. -/
def SoundRejection (log : CoordinationLog) (rj : RejectionRecord) : Prop :=
  rj.round ≤ log.finalRound ∧ rj.kind ≠ "" ∧ rj.reasonCode ≠ ""

/-- A sound log of a finalized run. -/
structure SoundLog (Γ : Crypto) (t : TopologyConfig) (log : CoordinationLog) : Prop where
  schema : log.schemaVersion = 1
  commitments : ∀ c ∈ log.commitments, SoundCommitment t c
  keys : (log.commitments.map (·.key)).Nodup
  proposals : ∀ p ∈ log.proposals, SoundProposal t log p
  proofs : ∀ a ∈ log.proofs, SoundProof log a
  final : ∃ p, SoundFinal Γ t log p
  rejections : ∀ rj ∈ log.rejections, SoundRejection log rj

end VertexVeil
