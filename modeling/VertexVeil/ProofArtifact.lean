import VertexVeil.Artifacts
import VertexVeil.Signing

/-!
# Proof artifacts

The public inputs a proof artifact carries: round, node, commitment digest and role byte at fixed offsets, as hexadecimal
text. The runtime builds them and reads the digest back; the verifier parses all of them. The layout lemmas say that what is
built is what is parsed.
-/

namespace VertexVeil

open Codec

/-- Length of the public inputs: `round (8) | node_id (32) | commitment_hash (32) | role (1)`. -/
def proofPublicInputsLen : Nat := 8 + 32 + 32 + 1

/-- The role byte of an intent. -/
def roleByte : PublicIntent → UInt8
  | .requester _ _ _ => 0
  | .provider _ _ _ => 1

/-- The digest of a commitment record, as bytes: at most 32 of them, zeros when the text is no hexadecimal. -/
def commitmentBytes (commitment : CommitmentRecord) : List UInt8 :=
  ((hexDecode commitment.commitmentHex).getD (List.replicate 32 0)).take 32

/-- The fields of the public inputs, each at its offset. -/
def publicInputFields (commitment : CommitmentRecord) (nodeId : NodeId) (round : RoundId) : List (Nat × List UInt8) :=
  [(0, beBytes 8 round.toNat), (8, nodeId.bytes.toList), (40, commitmentBytes commitment),
    (72, [roleByte commitment.publicIntent])]

/-- The public inputs as bytes: the fields in a zeroed buffer. -/
def publicInputs (commitment : CommitmentRecord) (nodeId : NodeId) (round : RoundId) : List UInt8 :=
  writeFields (List.replicate proofPublicInputsLen 0) (publicInputFields commitment nodeId round)

/-- Build a proof artifact: the public inputs and an attestation over them behind the marker `1`. -/
def buildProofArtifact (Γ : Crypto) (commitment : CommitmentRecord) (nodeId : NodeId) (round : RoundId) :
    ProofArtifactRecord :=
  let buf := publicInputs commitment nodeId round
  let attest := Γ.blake2s256 ("vertex-veil/v1/proof-attest".toUTF8.toList ++ buf)
  { nodeId, round, publicInputsHex := hexEncode buf, proofHex := hexEncode (1 :: attest.toList) }

/-- The commitment digest inside public inputs, as hexadecimal text. -/
def extractCommitmentHashHex (publicInputsHex : Text) : Option Text :=
  match hexDecode publicInputsHex with
  | none => none
  | some bytes => if bytes.length < 72 then none else some (hexEncode (sliceAt bytes 40 32))

/-- Flip the lowest bit of the first byte of the commitment digest. -/
def tamperPublicInputs (hex : Text) : Text :=
  match hexDecode hex with
  | none => hex
  | some bytes => if bytes.length < 41 then hex else hexEncode (bytes.set 40 (bytes.getD 40 0 ^^^ 1))

/-- Parse public inputs of exactly the layout's length. -/
def parsePublicInputs (publicInputsHex : Text) : Option (RoundId × NodeId × Bytes 32 × UInt8) :=
  match hexDecode publicInputsHex with
  | none => none
  | some bytes =>
    if h : bytes.length = proofPublicInputsLen then
      some (UInt64.ofNat (ofBE (sliceAt bytes 0 8)),
        ⟨⟨sliceAt bytes 8 32, sliceAt_length (by rw [h]; decide)⟩⟩,
        ⟨sliceAt bytes 40 32, sliceAt_length (by rw [h]; decide)⟩,
        bytes.getD 72 0)
    else none

/-! ## The layout -/

theorem publicInputFields_fit (c : CommitmentRecord) (n : NodeId) (r : RoundId) :
    FieldsFit (List.replicate proofPublicInputsLen (0 : UInt8)).length 0 (publicInputFields c n r) := by
  have hl : (commitmentBytes c).length ≤ 32 := by
    rw [commitmentBytes, List.length_take]
    exact Nat.min_le_left _ _
  simp only [publicInputFields, FieldsFit, beBytes_length, List.Vector.toList_length, List.length_replicate,
    List.length_singleton, proofPublicInputsLen]
  omega

theorem publicInputs_length (c : CommitmentRecord) (n : NodeId) (r : RoundId) :
    (publicInputs c n r).length = proofPublicInputsLen := by
  rw [publicInputs, writeFields_length (publicInputFields_fit c n r), List.length_replicate]

/-- Each field reads back from the public inputs. -/
theorem sliceAt_publicInputs (c : CommitmentRecord) (n : NodeId) (r : RoundId) :
    ∀ f ∈ publicInputFields c n r, sliceAt (publicInputs c n r) f.1 f.2.length = f.2 :=
  sliceAt_writeFields (publicInputFields_fit c n r)

/-- A record whose text is the digest's hexadecimal form carries the digest. -/
theorem commitmentBytes_of_hex {c : CommitmentRecord} {digest : Bytes 32}
    (h : c.commitmentHex = hexEncode digest.toList) : commitmentBytes c = digest.toList := by
  have hl : digest.toList.length = 32 := List.Vector.toList_length _
  rw [commitmentBytes, h, hexDecode_hexEncode, Option.getD_some, List.take_of_length_le (by rw [hl])]

theorem sliceAt_one {bs : List UInt8} {i : Nat} {b : UInt8} (h : sliceAt bs i 1 = [b]) : bs.getD i 0 = b := by
  rw [sliceAt] at h
  have h0 : (bs.drop i)[0]? = some b := by
    have := congrArg (fun l => l[0]?) h
    simpa using this
  rw [List.getElem?_drop, Nat.add_zero] at h0
  rw [List.getD_eq_getElem?_getD, h0, Option.getD_some]

/-- What the verifier parses of a built artifact is what went into it. -/
theorem parsePublicInputs_build {Γ : Crypto} {c : CommitmentRecord} {n : NodeId} {r : RoundId} {digest : Bytes 32}
    (h : c.commitmentHex = hexEncode digest.toList) :
    parsePublicInputs (buildProofArtifact Γ c n r).publicInputsHex = some (r, n, digest, roleByte c.publicIntent) := by
  have hf := sliceAt_publicInputs c n r
  have h0 := hf (0, beBytes 8 r.toNat) (by simp [publicInputFields])
  have h8 := hf (8, n.bytes.toList) (by simp [publicInputFields])
  have h40 := hf (40, commitmentBytes c) (by simp [publicInputFields])
  have h72 := hf (72, [roleByte c.publicIntent]) (by simp [publicInputFields])
  have hd : digest.toList.length = 32 := List.Vector.toList_length _
  have hn : n.bytes.toList.length = 32 := List.Vector.toList_length _
  simp only [beBytes_length, List.length_singleton] at h0 h72
  simp only [commitmentBytes_of_hex h, hd] at h40
  simp only [hn] at h8
  have hr : ofBE (beBytes 8 r.toNat) = r.toNat := ofBE_beBytes_of_lt r.toNat_lt
  simp only [parsePublicInputs, buildProofArtifact, hexDecode_hexEncode, publicInputs_length, dif_pos, h0, hr,
    UInt64.ofNat_toNat, sliceAt_one h72, Option.some.injEq, Prod.mk.injEq, true_and]
  refine ⟨?_, ?_⟩
  · cases n
    exact congrArg NodeId.mk (List.Vector.eq _ _ h8)
  · exact congrArg (Prod.mk · _) (List.Vector.eq _ _ h40)

theorem extractCommitmentHashHex_hexEncode {bs : List UInt8} (h : 72 ≤ bs.length) :
    extractCommitmentHashHex (hexEncode bs) = some (hexEncode (sliceAt bs 40 32)) := by
  rw [extractCommitmentHashHex, hexDecode_hexEncode]
  exact if_neg (by omega)

/-- The runtime reads the commitment's own text back from a built artifact. -/
theorem extractCommitmentHashHex_build {Γ : Crypto} {c : CommitmentRecord} {n : NodeId} {r : RoundId}
    {digest : Bytes 32} (h : c.commitmentHex = hexEncode digest.toList) :
    extractCommitmentHashHex (buildProofArtifact Γ c n r).publicInputsHex = some c.commitmentHex := by
  have h40 := sliceAt_publicInputs c n r (40, commitmentBytes c) (by simp [publicInputFields])
  have hd : digest.toList.length = 32 := List.Vector.toList_length _
  simp only [commitmentBytes_of_hex h, hd] at h40
  have hl := publicInputs_length c n r
  rw [buildProofArtifact, extractCommitmentHashHex_hexEncode (by rw [hl]; decide), h40, h]

end VertexVeil
