import VertexVeil.Lib.Json
import VertexVeil.Transport

/-!
# The wire form of messages

What a node hands to the consensus engine is the JSON of a message. `Serde` is what the transport relies on of the serializer:
what it writes it reads back. `Serde.json` is such a serializer: it writes a message as the derived implementations of its types
do, field by field in their order, and reads what it writes.
-/

namespace VertexVeil

open Codec Json

/-- A serializer of messages. -/
structure Serde where
  toVec : CoordinationMessage → List UInt8
  fromSlice : List UInt8 → Option CoordinationMessage
  fromSlice_toVec : ∀ msg, fromSlice (toVec msg) = some msg

namespace Serde

/-- The bytes determine the message. -/
theorem toVec_injective (J : Serde) : Function.Injective J.toVec := by
  intro msg msg' h
  have hread := J.fromSlice_toVec msg
  rw [h, J.fromSlice_toVec, Option.some.injEq] at hread
  exact hread.symm

/-- A node, by its hexadecimal form. -/
def nodeId : Format NodeId :=
  Format.string.map (fun s => (NodeId.fromStr s).toOption) NodeId.toHex (fun n => by rw [NodeId.fromStr_toHex]; rfl)

/-- A round, by its number. -/
def roundId : Format RoundId :=
  Format.nat.map (fun n => if n < 2 ^ 64 then some (UInt64.ofNat n) else none) UInt64.toNat (fun r => by
    rw [if_pos r.toNat_lt, UInt64.ofNat_toNat])

/-- A capability tag, by its text. -/
def capabilityTag : Format CapabilityTag := Format.string.map (fun s => some ⟨s⟩) CapabilityTag.asStr (fun _ => rfl)

/-- The fields of a requester's public intent. -/
def requesterIntent : Format (NodeId × RoundId × CapabilityTag) :=
  (nodeId.field "node_id".toList).pair ((roundId.field "round".toList).pair
    (capabilityTag.field "required_capability".toList))

/-- The fields of a provider's public intent. -/
def providerIntent : Format (NodeId × RoundId × List CapabilityTag) :=
  (nodeId.field "node_id".toList).pair ((roundId.field "round".toList).pair
    ((capabilityTag.array (fun _ _ => rfl)).field "capability_claims".toList))

/-- The fields of a public intent, by its role. -/
def intentFields : PublicIntent → (NodeId × RoundId × CapabilityTag) ⊕ (NodeId × RoundId × List CapabilityTag)
  | .requester n r c => .inl (n, r, c)
  | .provider n r cs => .inr (n, r, cs)

/-- A public intent, tagged with its role. -/
def publicIntent : Format PublicIntent :=
  (((requesterIntent.variant "role".toList "requester".toList).or (providerIntent.variant "role".toList "provider".toList)
    (Format.read_after_none _ _ (by decide) (by decide))).map
      (fun x => some (x.elim (fun y => .requester y.1 y.2.1 y.2.2) (fun y => .provider y.1 y.2.1 y.2.2)))
      intentFields (fun i => by cases i <;> rfl)).object

/-- The fields of a commitment. -/
def commitment : Format CommitmentRecord :=
  ((nodeId.field "node_id".toList).pair ((roundId.field "round".toList).pair
    ((Format.string.field "commitment_hex".toList).pair (publicIntent.field "public_intent".toList)))).map
      (fun x => some ⟨x.1, x.2.1, x.2.2.1, x.2.2.2⟩) (fun c => (c.nodeId, c.round, c.commitmentHex, c.publicIntent))
      (fun _ => rfl)

/-- The fields of a proposal. -/
def proposal : Format ProposalRecord :=
  ((nodeId.field "proposer".toList).pair ((roundId.field "round".toList).pair
    ((nodeId.field "candidate_requester".toList).pair ((nodeId.field "candidate_provider".toList).pair
      (capabilityTag.field "matched_capability".toList))))).map
      (fun x => some ⟨x.1, x.2.1, x.2.2.1, x.2.2.2.1, x.2.2.2.2⟩)
      (fun p => (p.proposer, p.round, p.candidateRequester, p.candidateProvider, p.matchedCapability)) (fun _ => rfl)

/-- The fields of a proof artifact. -/
def proof : Format ProofArtifactRecord :=
  ((nodeId.field "node_id".toList).pair ((roundId.field "round".toList).pair
    ((Format.string.field "public_inputs_hex".toList).pair (Format.string.field "proof_hex".toList)))).map
      (fun x => some ⟨x.1, x.2.1, x.2.2.1, x.2.2.2⟩) (fun a => (a.nodeId, a.round, a.publicInputsHex, a.proofHex))
      (fun _ => rfl)

/-- The fields of a receipt. -/
def receipt : Format CompletionReceiptRecord :=
  ((nodeId.field "provider".toList).pair ((roundId.field "round".toList).pair
    (Format.string.field "signature_hex".toList))).map
      (fun x => some ⟨x.1, x.2.1, x.2.2⟩) (fun r => (r.provider, r.round, r.signatureHex)) (fun _ => rfl)

/-- The fields of a record after its tag. -/
def tagged {α : Type} (tag : String) (F : Format α) : Format α := F.variant "type".toList tag.toList

/-- The record of a payload, by its type. -/
def payloadRecord :
    MessagePayload → CommitmentRecord ⊕ ProposalRecord ⊕ ProofArtifactRecord ⊕ CompletionReceiptRecord
  | .commitment c => .inl c
  | .proposal p => .inr (.inl p)
  | .proof a => .inr (.inr (.inl a))
  | .receipt r => .inr (.inr (.inr r))

/-- A payload, tagged with its type. -/
def payload : Format MessagePayload :=
  (((tagged "commitment" commitment).or
      ((tagged "proposal" proposal).or
        ((tagged "proof" proof).or (tagged "receipt" receipt)
          (Format.read_after_none _ _ (by decide) (by decide)))
        (fun x => x.rec (Format.read_after_none _ _ (by decide) (by decide))
          (Format.read_after_none _ _ (by decide) (by decide))))
      (fun x => x.rec (Format.read_after_none _ _ (by decide) (by decide))
        (fun x => x.rec (Format.read_after_none _ _ (by decide) (by decide))
          (Format.read_after_none _ _ (by decide) (by decide))))).map
      (fun x => some (x.elim .commitment (fun x => x.elim .proposal (fun x => x.elim .proof .receipt))))
      payloadRecord (fun x => by cases x <;> rfl)).object

/-- A message. -/
def message : Format CoordinationMessage :=
  (((nodeId.field "origin".toList).pair (payload.field "payload".toList)).map (fun x => some ⟨x.1, x.2⟩)
    (fun msg => (msg.origin, msg.payload)) (fun _ => rfl)).object

/-- The serializer that writes the JSON of a message, in UTF-8. -/
def json : Serde where
  toVec msg := asBytes (message.write msg)
  fromSlice raw := raw.toByteArray.utf8Decode?.bind fun cs =>
    (message.read cs.toList).bind fun x => if x.2 = [] then some x.1 else none
  fromSlice_toVec msg := by
    have hutf8 : (asBytes (message.write msg)).toByteArray.utf8Decode? = some (message.write msg).toArray :=
      List.utf8Decode?_utf8Encode
    have hread := message.read_write msg [] trivial
    rw [List.append_nil] at hread
    rw [hutf8, Option.bind_some, List.toList_toArray, hread]
    rfl

end Serde

end VertexVeil
