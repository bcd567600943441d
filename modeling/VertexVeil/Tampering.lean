import VertexVeil.Soundness

/-!
# Changes of one field

The records that the outcome of a finalized log rests on, and the changes of one field in one of them. A field of hexadecimal
text is changed when it spells other bytes.
-/

namespace VertexVeil

open Codec

/-- A field of a proposal with a new value. -/
inductive ProposalEdit where
  | proposer (v : NodeId)
  | round (v : RoundId)
  | candidateRequester (v : NodeId)
  | candidateProvider (v : NodeId)
  | matchedCapability (v : CapabilityTag)

/-- A field of a proof with a new value. -/
inductive ProofEdit where
  | nodeId (v : NodeId)
  | round (v : RoundId)
  | publicInputsHex (v : Text)
  | proofHex (v : Text)

/-- A field of a receipt with a new value. -/
inductive ReceiptEdit where
  | provider (v : NodeId)
  | round (v : RoundId)
  | signatureHex (v : Text)

def ProposalEdit.apply (p : ProposalRecord) : ProposalEdit → ProposalRecord
  | .proposer v => { p with proposer := v }
  | .round v => { p with round := v }
  | .candidateRequester v => { p with candidateRequester := v }
  | .candidateProvider v => { p with candidateProvider := v }
  | .matchedCapability v => { p with matchedCapability := v }

def ProofEdit.apply (a : ProofArtifactRecord) : ProofEdit → ProofArtifactRecord
  | .nodeId v => { a with nodeId := v }
  | .round v => { a with round := v }
  | .publicInputsHex v => { a with publicInputsHex := v }
  | .proofHex v => { a with proofHex := v }

def ReceiptEdit.apply (r : CompletionReceiptRecord) : ReceiptEdit → CompletionReceiptRecord
  | .provider v => { r with provider := v }
  | .round v => { r with round := v }
  | .signatureHex v => { r with signatureHex := v }

/-- The new value is another one. -/
def ProposalEdit.Changes (p : ProposalRecord) : ProposalEdit → Prop
  | .proposer v => v ≠ p.proposer
  | .round v => v ≠ p.round
  | .candidateRequester v => v ≠ p.candidateRequester
  | .candidateProvider v => v ≠ p.candidateProvider
  | .matchedCapability v => v ≠ p.matchedCapability

def ProofEdit.Changes (a : ProofArtifactRecord) : ProofEdit → Prop
  | .nodeId v => v ≠ a.nodeId
  | .round v => v ≠ a.round
  | .publicInputsHex v => hexDecode v ≠ hexDecode a.publicInputsHex
  | .proofHex v => hexDecode v ≠ hexDecode a.proofHex

def ReceiptEdit.Changes (r : CompletionReceiptRecord) : ReceiptEdit → Prop
  | .provider v => v ≠ r.provider
  | .round v => v ≠ r.round
  | .signatureHex v => hexDecode v ≠ hexDecode r.signatureHex

/-- The records of the final round. -/
structure FinalRecords where
  proposal : ProposalRecord
  requesterProof : ProofArtifactRecord
  providerProof : ProofArtifactRecord
  receipt : CompletionReceiptRecord

/-- A log has these records in its final round, each once and no others of their kinds, and no other receipt at all. -/
structure FinalRecords.Of (x : FinalRecords) (log : CoordinationLog) : Prop where
  proposal : log.proposalsIn log.finalRound = [x.proposal]
  proofs : log.proofs.filter (fun a => a.round = log.finalRound) = [x.requesterProof, x.providerProof]
  requester : x.requesterProof.nodeId = x.proposal.candidateRequester
  provider : x.providerProof.nodeId = x.proposal.candidateProvider
  receipt : log.receipts = [x.receipt]
  certifies : x.receipt.round = log.finalRound ∧ x.receipt.provider = x.proposal.candidateProvider

/-- A change of one field in one of the records of the final round. -/
inductive Edit where
  | proposal (e : ProposalEdit)
  | requesterProof (e : ProofEdit)
  | providerProof (e : ProofEdit)
  | receipt (e : ReceiptEdit)

namespace Edit

/-- Put a record in the place of another one. -/
def replace {α : Type} [DecidableEq α] (old new : α) (records : List α) : List α :=
  records.map fun a => if a = old then new else a

/-- The log with the changed record in the place of the record. -/
def apply (x : FinalRecords) (log : CoordinationLog) : Edit → CoordinationLog
  | .proposal e => { log with proposals := replace x.proposal (e.apply x.proposal) log.proposals }
  | .requesterProof e => { log with proofs := replace x.requesterProof (e.apply x.requesterProof) log.proofs }
  | .providerProof e => { log with proofs := replace x.providerProof (e.apply x.providerProof) log.proofs }
  | .receipt e => { log with receipts := replace x.receipt (e.apply x.receipt) log.receipts }

/-- The change puts another value in the field. -/
def Changes (x : FinalRecords) : Edit → Prop
  | .proposal e => e.Changes x.proposal
  | .requesterProof e => e.Changes x.requesterProof
  | .providerProof e => e.Changes x.providerProof
  | .receipt e => e.Changes x.receipt

end Edit

/-- The new value is a proof text whose bytes open with a known marker. -/
def ProofEdit.Marked : ProofEdit → Prop
  | .proofHex v => ∃ m rest, hexDecode v = some (m :: rest) ∧ (m = 1 ∨ m = 2)
  | _ => False

/-- The new value is a signature that certifies the match of a proposal. -/
def ReceiptEdit.Certifies (Γ : Crypto) (t : TopologyConfig) (p : ProposalRecord) : ReceiptEdit → Prop
  | .signatureHex v => ReceiptSigned Γ t v p.candidateProvider p.round p.matchedCapability.asStr
  | _ => False

/-- The changes the verifier does not see: other bytes behind the marker of a proof, another signature that certifies. -/
def Edit.Unseen (Γ : Crypto) (t : TopologyConfig) (x : FinalRecords) : Edit → Prop
  | .proposal _ => False
  | .requesterProof e | .providerProof e => e.Marked
  | .receipt e => e.Certifies Γ t x.proposal

end VertexVeil
