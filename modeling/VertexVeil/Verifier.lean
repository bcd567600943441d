import VertexVeil.Matching
import VertexVeil.ProofArtifact

/-!
# The standalone verifier

`verifyLog` reads a log and a topology and collects the reasons why the log is not sound, section by section: the schema
version, the commitments, the proposals, the proofs, the final round, the rejections. Two findings of the final-round section
end the verification at once; the rejections are then not looked at.
-/

namespace VertexVeil

open Codec

/-- A reason with the node it is about. -/
def reasonNode (label : String) (node : NodeId) : String := label ++ "=" ++ String.ofList node.toHex

/-- A reason with the node and the round it is about. -/
def reasonNodeRound (label : String) (node : NodeId) (round : RoundId) : String :=
  reasonNode label node ++ "_" ++ toString round.toNat

/-- A reason with the round it is about. -/
def reasonRound (label : String) (round : RoundId) : String := label ++ "=" ++ toString round.toNat

/-- The reason, when the check fails. -/
def reasonIf (failed : Bool) (reason : String) : List String := if failed then [reason] else []

theorem reasonIf_eq_nil {failed : Bool} {reason : String} : reasonIf failed reason = [] ↔ failed = false := by
  cases failed <;> simp [reasonIf]

/-- The schema version. -/
def schemaReasons (log : CoordinationLog) : List String :=
  reasonIf (log.schemaVersion ≠ 1) ("unsupported_schema_version=" ++ toString log.schemaVersion.toNat)

/-! ## Commitments -/

/-- The checks of a commitment of a configured node, given the keys seen before it. -/
def commitmentReasonsOf (node : NodeConfig) (seen : Finset (NodeId × RoundId)) (c : CommitmentRecord) : List String :=
  reasonIf (c.publicIntent.role ≠ node.role) (reasonNode "commitment_role_mismatch" c.nodeId) ++
  reasonIf (c.publicIntent.nodeId ≠ c.nodeId) (reasonNode "commitment_public_intent_node_mismatch" c.nodeId) ++
  reasonIf (c.publicIntent.round ≠ c.round) (reasonNodeRound "commitment_round_mismatch" c.nodeId c.round) ++
  reasonIf ((c.nodeId, c.round) ∈ seen) (reasonNodeRound "duplicate_commitment" c.nodeId c.round)

/-- Commitments: configured node, its role, consistent intent, no key twice. -/
def commitmentReasons (t : TopologyConfig) : Finset (NodeId × RoundId) → List CommitmentRecord → List String
  | _, [] => []
  | seen, c :: cs =>
    match t.findNode c.nodeId with
    | none => reasonNode "commitment_from_unknown_node" c.nodeId :: commitmentReasons t seen cs
    | some node => commitmentReasonsOf node seen c ++ commitmentReasons t (insert (c.nodeId, c.round) seen) cs

/-! ## Proposals -/

/-- The proposer must be the one of the rotation. -/
def proposerReasons (t : TopologyConfig) (p : ProposalRecord) : List String :=
  match deterministicProposer t p.round with
  | .ok expected => reasonIf (expected ≠ p.proposer) (reasonRound "proposal_wrong_proposer_round" p.round)
  | .error _ => [reasonRound "proposer_rotation_error_round" p.round]

/-- The provider must claim the matched capability; an intent that is no provider's is not checked. -/
def claimReasons (p : ProposalRecord) : PublicIntent → List String
  | .provider _ _ capabilityClaims =>
    reasonIf (p.matchedCapability ∉ capabilityClaims) (reasonRound "proposal_provider_lacks_capability_round" p.round)
  | .requester _ _ _ => []

/-- The annotation must agree with the commitments it points at. -/
def annotationReasons (p : ProposalRecord) (req prov : CommitmentRecord) : List String :=
  match validateProposalAnnotation p.candidateRequester req.publicIntent p.candidateProvider prov.publicIntent
    p.matchedCapability with
  | .ok () => []
  | .error d => [reasonRound "proposal_annotation_tampered_round" p.round ++ ":" ++ d.tag]

/-- The checks of one proposal. -/
def proposalReasonsOf (t : TopologyConfig) (log : CoordinationLog) (p : ProposalRecord) : List String :=
  proposerReasons t p ++
  match log.commitmentOf p.candidateRequester p.round, log.commitmentOf p.candidateProvider p.round with
  | some req, some prov => annotationReasons p req prov ++ claimReasons p prov.publicIntent
  | _, _ => [reasonRound "proposal_unknown_commitment_round" p.round]

/-- Proposals: the proposer of the rotation, and an annotation that agrees with the commitments. -/
def proposalReasons (t : TopologyConfig) (log : CoordinationLog) : List String :=
  log.proposals.flatMap (proposalReasonsOf t log)

/-! ## Proofs -/

/-- The marker a proof must start with: `1` (attestation) or `2` (UltraHonk). -/
def proofMarkerReasons (proof : ProofArtifactRecord) : List String :=
  match hexDecode proof.proofHex with
  | none => [reasonNode "proof_hex_malformed" proof.nodeId]
  | some [] => [reasonNode "proof_marker_unexpected" proof.nodeId]
  | some (marker :: _) => reasonIf (marker ≠ 1 ∧ marker ≠ 2) (reasonNode "proof_marker_unexpected" proof.nodeId)

/-- The checks of one proof. -/
def proofReasonsOf (log : CoordinationLog) (proof : ProofArtifactRecord) : List String :=
  match parsePublicInputs proof.publicInputsHex with
  | none => [reasonNode "proof_malformed_public_inputs" proof.nodeId]
  | some (piRound, piNode, piCommit, piRole) =>
    reasonIf (piRound ≠ proof.round) (reasonNodeRound "proof_public_inputs_round_mismatch" proof.nodeId proof.round) ++
    reasonIf (piNode ≠ proof.nodeId) (reasonNode "proof_public_inputs_node_mismatch" proof.nodeId) ++
    match log.commitmentOf proof.nodeId proof.round with
    | none => [reasonNodeRound "proof_no_matching_commitment" proof.nodeId proof.round]
    | some commit =>
      reasonIf (hexEncode piCommit.toList ≠ commit.commitmentHex)
        (reasonNodeRound "proof_public_inputs_commitment_mismatch" proof.nodeId proof.round) ++
      reasonIf (piRole ≠ roleByte commit.publicIntent) (reasonNode "proof_role_byte_mismatch" proof.nodeId) ++
      proofMarkerReasons proof

/-- Proofs: public inputs that agree with the logged commitment, and a known marker. -/
def proofReasons (log : CoordinationLog) : List String := log.proofs.flatMap (proofReasonsOf log)

/-! ## The final round -/

/-- The match predicate between two logged commitments of a round, with the code of the failure. -/
def predicateHoldsForLog (log : CoordinationLog) (round : RoundId) (requester provider : NodeId) : Except String Unit :=
  match log.commitmentOf requester round with
  | none => .error "requester_commitment_missing"
  | some req =>
    match log.commitmentOf provider round with
    | none => .error "provider_commitment_missing"
    | some prov =>
      match matchPredicate req.publicIntent prov.publicIntent round with
      | .ok () => .ok ()
      | .error d => .error d.tag

/-- The legacy receipt signature, as hexadecimal text. -/
def expectedSignatureHex (Γ : Crypto) (provider : NodeId) (round : RoundId) (capability : Text) : Text :=
  hexEncode (legacySignature Γ provider round capability).toList

/-- Whether a receipt signature is accepted: ed25519 where the topology gives the provider a key, else the legacy tag. -/
def receiptSignatureOk (Γ : Crypto) (t : TopologyConfig) (signatureHex : Text) (provider : NodeId) (round : RoundId)
    (capability : Text) : Bool :=
  match (t.findNode provider).bind (·.signingPublicKey) with
  | some pk => verifyReceiptEd25519 Γ pk signatureHex provider round capability = .ok ()
  | none => signatureHex = expectedSignatureHex Γ provider round capability

/-- The receipt that certifies a round: the first one of its provider in it. -/
def CoordinationLog.receiptOf (log : CoordinationLog) (provider : NodeId) (round : RoundId) :
    Option CompletionReceiptRecord :=
  log.receipts.find? (fun r => r.round = round ∧ r.provider = provider)

/-- The checks of the final receipt's signature. -/
def signatureReasons (Γ : Crypto) (t : TopologyConfig) (log : CoordinationLog) (proposal : ProposalRecord)
    (r : CompletionReceiptRecord) : List String :=
  if r.signatureHex = [] then ["final_round_empty_signature"]
  else reasonIf (¬ receiptSignatureOk Γ t r.signatureHex proposal.candidateProvider log.finalRound
    proposal.matchedCapability.asStr) "final_round_signature_mismatch"

/-- Both participants of the final proposal must have a logged proof. -/
def finalProofReasons (log : CoordinationLog) (proposal : ProposalRecord) : List String :=
  reasonIf (¬ log.hasProof proposal.candidateRequester log.finalRound) "final_round_missing_requester_proof" ++
  reasonIf (¬ log.hasProof proposal.candidateProvider log.finalRound) "final_round_missing_provider_proof"

/-- The final predicate must hold. -/
def predicateReasons (log : CoordinationLog) (proposal : ProposalRecord) : List String :=
  match predicateHoldsForLog log log.finalRound proposal.candidateRequester proposal.candidateProvider with
  | .ok () => []
  | .error code => ["final_round_predicate_failed:" ++ code]

/-- The final round; an `error` holds the reasons of a finding that ends the verification. -/
def finalReasons (Γ : Crypto) (t : TopologyConfig) (log : CoordinationLog) : Except (List String) (List String) :=
  if log.finalized then
    match log.proposalOf log.finalRound with
    | none => .error ["final_round_missing_proposal"]
    | some proposal =>
      match log.receiptOf proposal.candidateProvider log.finalRound with
      | none => .error (predicateReasons log proposal ++ ["final_round_missing_receipt"])
      | some r => .ok (predicateReasons log proposal ++ signatureReasons Γ t log proposal r ++
          finalProofReasons log proposal)
  else .ok (reasonIf (log.receipts.any (fun r => r.round = log.finalRound)) "aborted_run_has_receipt")

/-! ## Rejections, and the report -/

/-- The checks of one rejection record. -/
def rejectionReasonsOf (finalRound : RoundId) (rj : RejectionRecord) : List String :=
  reasonIf (finalRound < rj.round) (reasonNodeRound "rejection_round_out_of_range" rj.nodeId rj.round) ++
  reasonIf (rj.kind = "" ∨ rj.reasonCode = "") "rejection_record_missing_fields"

/-- Rejections: rounds within the log's span, no empty label. -/
def rejectionReasons (log : CoordinationLog) : List String := log.rejections.flatMap (rejectionReasonsOf log.finalRound)

/-- The sections before the final round. -/
def structureReasons (t : TopologyConfig) (log : CoordinationLog) : List String :=
  schemaReasons log ++ commitmentReasons t ∅ log.commitments ++ proposalReasons t log ++ proofReasons log

/-- Verify a log. -/
def verifyLog (Γ : Crypto) (t : TopologyConfig) (log : CoordinationLog) : VerifierReport :=
  match finalReasons Γ t log with
  | .error reasons =>
    { runId := log.runId, valid := false, finalRound := log.finalRound, reasons := structureReasons t log ++ reasons }
  | .ok reasons =>
    let reasons := structureReasons t log ++ reasons ++ rejectionReasons log
    { runId := log.runId, valid := reasons.isEmpty, finalRound := log.finalRound, reasons }

end VertexVeil
