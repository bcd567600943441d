import VertexVeil.Fixtures
import VertexVeil.Lemmas.Layout

/-!
# The public inputs of a proof as a code

Four functions read and write the public inputs at fixed offsets: the builder, the verifier's parser, the runtime's reader of the
digest and the injector of invalid proofs. They agree on the layout.
-/

namespace VertexVeil

open Codec RuntimeState

/-! ## The public inputs are one code -/

namespace PublicInputsAux

/-- What is parsed is what is built of any record with the parsed digest and role. -/
theorem hexDecode_parsed {hex : Text} {r : RoundId} {n : NodeId} {digest : Bytes 32} {b : UInt8}
    (h : parsePublicInputs hex = some (r, n, digest, b)) {c : CommitmentRecord} (hc : c.commitmentHex = hexEncode digest.toList)
    (hb : roleByte c.publicIntent = b) : hexDecode hex = some (publicInputs c n r) := by
  have hbuilt := parsePublicInputs_build (Γ := Sample.crypto) (n := n) (r := r) hc
  rw [hb] at hbuilt
  rw [hexDecode_eq_of_parse h hbuilt, buildProofArtifact, hexDecode_hexEncode]

/-- The runtime rejects a proof whose digest is not the text of its node's commitment. -/
theorem handleProof_mismatch {s : RuntimeState} {msg : CoordinationMessage} {a : ProofArtifactRecord} {c : CommitmentRecord}
    (hp : msg.payload = .proof a) (ho : msg.origin = a.nodeId) (hc : s.roundMachine.commitments[a.nodeId]? = some c)
    (hx : extractCommitmentHashHex a.publicInputsHex ≠ some c.commitmentHex) :
    handleProof a.round s msg = s.reject a.round a.nodeId "proof" "public_inputs_mismatch" := by
  simp [handleProof, hp, ho, hc, hx]

end PublicInputsAux

open PublicInputsAux

/-- **The public inputs are one code.** For a record whose text is the lowercase hexadecimal form of a digest, the parser gives
back the round, the node, the digest and the role byte that went into the artifact, and the reader gives back the record's text.
A text that is parsed spells the fields in a row, the bytes built of any record that has them, so texts that parse to the same
spell the same bytes. Tampering with an artifact, of any record, changes the digest it parses to and no other field, and the
runtime rejects the artifact for its digest. -/
theorem publicInputs_codec (Γ : Crypto) :
    (∀ (c : CommitmentRecord) (n : NodeId) (r : RoundId) (digest : Bytes 32), c.commitmentHex = hexEncode digest.toList →
      parsePublicInputs (buildProofArtifact Γ c n r).publicInputsHex = some (r, n, digest, roleByte c.publicIntent) ∧
      extractCommitmentHashHex (buildProofArtifact Γ c n r).publicInputsHex = some c.commitmentHex) ∧
    (∀ (hex : Text) (r : RoundId) (n : NodeId) (digest : Bytes 32) (role : UInt8),
      parsePublicInputs hex = some (r, n, digest, role) →
        hexDecode hex = some (beBytes 8 r.toNat ++ (n.bytes.toList ++ (digest.toList ++ [role]))) ∧
        ∀ c : CommitmentRecord, c.commitmentHex = hexEncode digest.toList → roleByte c.publicIntent = role →
          hexDecode hex = hexDecode (buildProofArtifact Γ c n r).publicInputsHex) ∧
    (∀ (hex hex' : Text) (fields : RoundId × NodeId × Bytes 32 × UInt8), parsePublicInputs hex = some fields →
      parsePublicInputs hex' = some fields → hexDecode hex = hexDecode hex') ∧
    ∀ (c : CommitmentRecord) (n : NodeId) (r : RoundId), ∃ digest digest', digest' ≠ digest ∧
      parsePublicInputs (buildProofArtifact Γ c n r).publicInputsHex = some (r, n, digest, roleByte c.publicIntent) ∧
      parsePublicInputs (tamperPublicInputs (buildProofArtifact Γ c n r).publicInputsHex) =
        some (r, n, digest', roleByte c.publicIntent) ∧
      extractCommitmentHashHex (tamperPublicInputs (buildProofArtifact Γ c n r).publicInputsHex) ≠ some c.commitmentHex ∧
      ∀ (s : RuntimeState) (msg : CoordinationMessage) (a : ProofArtifactRecord), msg.payload = .proof a →
        a.publicInputsHex = tamperPublicInputs (buildProofArtifact Γ c n r).publicInputsHex → msg.origin = a.nodeId →
        s.roundMachine.commitments[a.nodeId]? = some c →
          handleProof a.round s msg = s.reject a.round a.nodeId "proof" "public_inputs_mismatch" := by
  refine ⟨fun c n r digest h => ⟨parsePublicInputs_build h, extractCommitmentHashHex_build h⟩, ?_, ?_, fun c n r => ?_⟩
  · intro hex r n digest role h
    refine ⟨parsePublicInputs_eq_some.mp h, fun c hc hrole => ?_⟩
    rw [hexDecode_parsed h hc hrole, buildProofArtifact, hexDecode_hexEncode]
  · intro hex hex' fields h h'
    exact hexDecode_eq_of_parse h h'
  · obtain ⟨d, hd⟩ := publicInputs_eq_layout c n r
    have hbuilt : hexDecode (buildProofArtifact Γ c n r).publicInputsHex = some (layout r n d (roleByte c.publicIntent)) := by
      rw [buildProofArtifact, hexDecode_hexEncode, hd]
    have htampered : hexDecode (tamperPublicInputs (buildProofArtifact Γ c n r).publicInputsHex) =
        some (layout r n (flipped d) (roleByte c.publicIntent)) := by
      rw [tamperPublicInputs_layout hbuilt, hexDecode_hexEncode]
    have hread := extractCommitmentHashHex_tamper Γ c n r
    refine ⟨d, flipped d, flipped_ne d, parsePublicInputs_eq_some.mpr hbuilt, parsePublicInputs_eq_some.mpr htampered, hread, ?_⟩
    intro s msg a hp ha ho hc
    rw [← ha] at hread
    exact handleProof_mismatch hp ho hc hread

/-- The proof of the first provider in the last round. -/
theorem publicInputs_codec_sample :
    parsePublicInputs
        (buildProofArtifact Sample.crypto Sample.provider₁Commitment Sample.provider₁ (UInt64.ofNat (2 ^ 64 - 1))).publicInputsHex =
      some (UInt64.ofNat (2 ^ 64 - 1), Sample.provider₁, List.Vector.replicate 32 0xa2, 1) :=
  ((publicInputs_codec Sample.crypto).1 Sample.provider₁Commitment Sample.provider₁ (UInt64.ofNat (2 ^ 64 - 1))
    (List.Vector.replicate 32 0xa2) (by decide)).1

end VertexVeil
