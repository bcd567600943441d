import VertexVeil.Config

/-!
# Commitments to private intent

A commitment is the digest of a fixed-size preimage: every field at its offset, variable content zero-padded to its slot
after a length prefix. The builders below list the fields in the order the code copies them into the zeroed buffer.
-/

namespace VertexVeil

open Codec

/-- Domain tag of requester commitments. -/
def commitDomainRequester : List UInt8 := "vertex-veil/v1/commit-requester".toUTF8.toList

/-- Domain tag of provider commitments. -/
def commitDomainProvider : List UInt8 := "vertex-veil/v1/commit-provider".toUTF8.toList

def commitSchemaVersion : UInt8 := 1

def maxCapabilityBytes : Nat := 32

def maxCapabilityClaims : Nat := 4

def requesterPreimageLen : Nat := 153

def providerPreimageLen : Nat := 264

theorem commitDomainRequester_length : commitDomainRequester.length = 31 := by decide +kernel

theorem commitDomainProvider_length : commitDomainProvider.length = 30 := by decide +kernel

/-- Errors of the commitment helpers. -/
inductive CommitmentError where
  | invalidField (field : String)
  | capabilityTooLong (actual limit : Nat)
  | tooManyClaims (actual limit : Nat)
  deriving DecidableEq

/-- The fields of a requester preimage, each at its offset. -/
def requesterFields (intent : PrivateRequesterIntent) (nonce : Bytes 32) (round : RoundId) :
    List (Nat × List UInt8) :=
  [(0, beBytes 4 commitDomainRequester.length),
    (4, commitDomainRequester),
    (35, [commitSchemaVersion]),
    (36, beBytes 8 round.toNat),
    (44, intent.nodeId.bytes.toList),
    (76, [0]),
    (77, beBytes 4 (asBytes intent.requiredCapability.asStr).length),
    (81, asBytes intent.requiredCapability.asStr),
    (113, beBytes 8 intent.budgetCents.toNat),
    (121, nonce.toList)]

/-- Build the preimage of a requester commitment. -/
def buildRequesterPreimage (intent : PrivateRequesterIntent) (nonce : Bytes 32) (round : RoundId) :
    Except CommitmentError (List UInt8) :=
  let capBytes := asBytes intent.requiredCapability.asStr
  if capBytes = [] then .error (.invalidField "required_capability")
  else if capBytes.length > maxCapabilityBytes then .error (.capabilityTooLong capBytes.length maxCapabilityBytes)
  else .ok (writeFields (List.replicate requesterPreimageLen 0) (requesterFields intent nonce round))

/-- Check the byte lengths of the claims, one after the other. -/
def checkClaims : List CapabilityTag → Except CommitmentError Unit
  | [] => .ok ()
  | claim :: claims =>
    let bytes := asBytes claim.asStr
    if bytes = [] then .error (.invalidField "capability_claim")
    else if bytes.length > maxCapabilityBytes then .error (.capabilityTooLong bytes.length maxCapabilityBytes)
    else checkClaims claims

/-- The claim slots: a length prefix and the bytes of the claim, in slots of `4 + maxCapabilityBytes` from `80` on. -/
def claimFields : Nat → List CapabilityTag → List (Nat × List UInt8)
  | _, [] => []
  | idx, claim :: claims =>
    (80 + idx * (4 + maxCapabilityBytes), beBytes 4 (asBytes claim.asStr).length) ::
      (80 + idx * (4 + maxCapabilityBytes) + 4, asBytes claim.asStr) :: claimFields (idx + 1) claims

/-- The fields of a provider preimage, each at its offset. -/
def providerFields (intent : PrivateProviderIntent) (nonce : Bytes 32) (round : RoundId) :
    List (Nat × List UInt8) :=
  [(0, beBytes 4 commitDomainProvider.length),
    (4, commitDomainProvider),
    (34, [commitSchemaVersion]),
    (35, beBytes 8 round.toNat),
    (43, intent.nodeId.bytes.toList),
    (75, [1]),
    (76, beBytes 4 intent.capabilityClaims.length)] ++
  claimFields 0 intent.capabilityClaims ++
  [(224, beBytes 8 intent.reservationCents.toNat),
    (232, nonce.toList)]

/-- Build the preimage of a provider commitment. -/
def buildProviderPreimage (intent : PrivateProviderIntent) (nonce : Bytes 32) (round : RoundId) :
    Except CommitmentError (List UInt8) :=
  if intent.capabilityClaims = [] then .error (.invalidField "capability_claims")
  else if intent.capabilityClaims.length > maxCapabilityClaims then
    .error (.tooManyClaims intent.capabilityClaims.length maxCapabilityClaims)
  else match checkClaims intent.capabilityClaims with
    | .error e => .error e
    | .ok () => .ok (writeFields (List.replicate providerPreimageLen 0) (providerFields intent nonce round))

/-- The requester's commitment. -/
def commitRequester (Γ : Crypto) (intent : PrivateRequesterIntent) (nonce : Bytes 32) (round : RoundId) :
    Except CommitmentError (Bytes 32) := do
  let preimage ← buildRequesterPreimage intent nonce round
  return Γ.blake2s256 preimage

/-- The provider's commitment. -/
def commitProvider (Γ : Crypto) (intent : PrivateProviderIntent) (nonce : Bytes 32) (round : RoundId) :
    Except CommitmentError (Bytes 32) := do
  let preimage ← buildProviderPreimage intent nonce round
  return Γ.blake2s256 preimage

/-- The nonce of a node in a round, from the salt of the run. -/
def deriveTestNonce (Γ : Crypto) (node : NodeId) (round : RoundId) (salt : Bytes 32) : Bytes 32 :=
  Γ.blake2s256 ("vertex-veil/v1/test-nonce".toUTF8.toList ++ node.bytes.toList ++ beBytes 8 round.toNat ++ salt.toList)

/-! ## What a preimage determines -/

theorem nodeBytes_length (n : NodeId) : n.bytes.toList.length = 32 := List.Vector.toList_length _

/-- The fields of a requester preimage fit the buffer when the tag fits its slot. -/
theorem requesterFields_fit (intent : PrivateRequesterIntent) (nonce : Bytes 32) (round : RoundId)
    (h : (asBytes intent.requiredCapability.asStr).length ≤ maxCapabilityBytes) :
    FieldsFit (List.replicate requesterPreimageLen (0 : UInt8)).length 0 (requesterFields intent nonce round) := by
  have hm : maxCapabilityBytes = 32 := rfl
  simp only [requesterFields, FieldsFit, beBytes_length, commitDomainRequester_length,
    List.Vector.toList_length, List.length_replicate, List.length_singleton, requesterPreimageLen]
  omega

theorem buildRequesterPreimage_ok {intent : PrivateRequesterIntent} {nonce : Bytes 32} {round : RoundId}
    {p : List UInt8} (h : buildRequesterPreimage intent nonce round = .ok p) :
    (asBytes intent.requiredCapability.asStr).length ≤ maxCapabilityBytes ∧
      p = writeFields (List.replicate requesterPreimageLen 0) (requesterFields intent nonce round) := by
  unfold buildRequesterPreimage at h
  dsimp only at h
  split at h
  · cases h
  · split at h
    · cases h
    · rename_i hl
      simp only [Except.ok.injEq] at h
      exact ⟨Nat.le_of_not_gt hl, h.symm⟩

/-- A requester preimage spells its round and its node at fixed offsets. -/
theorem buildRequesterPreimage_spells {intent : PrivateRequesterIntent} {nonce : Bytes 32} {round : RoundId}
    {p : List UInt8} (h : buildRequesterPreimage intent nonce round = .ok p) :
    p.length = requesterPreimageLen ∧ sliceAt p 36 8 = beBytes 8 round.toNat ∧
      sliceAt p 44 32 = intent.nodeId.bytes.toList := by
  obtain ⟨hl, rfl⟩ := buildRequesterPreimage_ok h
  have hf := requesterFields_fit intent nonce round hl
  refine ⟨by rw [writeFields_length hf, List.length_replicate], ?_, ?_⟩
  · have := sliceAt_writeFields hf (36, beBytes 8 round.toNat) (by simp [requesterFields])
    simpa using this
  · have := sliceAt_writeFields hf (44, intent.nodeId.bytes.toList) (by simp [requesterFields])
    simpa using this

theorem checkClaims_ok {claims : List CapabilityTag} (h : checkClaims claims = .ok ()) :
    ∀ c ∈ claims, (asBytes c.asStr).length ≤ maxCapabilityBytes := by
  induction claims with
  | nil => intro c hc; exact absurd hc List.not_mem_nil
  | cons c cs ih =>
    simp only [checkClaims] at h
    split at h
    · cases h
    · split at h
      · cases h
      · rename_i hl
        intro d hd
        rcases List.mem_cons.mp hd with rfl | hd
        · exact Nat.le_of_not_gt hl
        · exact ih h d hd

/-- The claim slots follow one another and end where the slots of the remaining claims would start. -/
theorem claimFields_fit {len idx : Nat} {claims : List CapabilityTag} {rest : List (Nat × List UInt8)}
    (hc : ∀ c ∈ claims, (asBytes c.asStr).length ≤ maxCapabilityBytes) {pos : Nat}
    (hp : pos ≤ 80 + idx * (4 + maxCapabilityBytes))
    (hr : ∀ q, q ≤ 80 + (idx + claims.length) * (4 + maxCapabilityBytes) → FieldsFit len q rest) :
    FieldsFit len pos (claimFields idx claims ++ rest) := by
  induction claims generalizing idx pos with
  | nil => exact hr pos (by simpa using hp)
  | cons c cs ih =>
    have hcl := hc c List.mem_cons_self
    have hm : maxCapabilityBytes = 32 := rfl
    have htail : ∀ d ∈ cs, (asBytes d.asStr).length ≤ maxCapabilityBytes := fun d hd => hc d (List.mem_cons_of_mem _ hd)
    rw [hm] at hcl hp
    simp only [List.length_cons, hm] at hr
    simp only [claimFields, List.cons_append, FieldsFit, beBytes_length, hm]
    refine ⟨hp, Nat.le_refl _, ih htail (by rw [hm]; omega) (fun q hq => hr q ?_)⟩
    rw [hm] at hq
    omega

/-- The fields of a provider preimage fit the buffer when count and tags fit their slots. -/
theorem providerFields_fit (intent : PrivateProviderIntent) (nonce : Bytes 32) (round : RoundId)
    (hn : intent.capabilityClaims.length ≤ maxCapabilityClaims)
    (hc : ∀ c ∈ intent.capabilityClaims, (asBytes c.asStr).length ≤ maxCapabilityBytes) :
    FieldsFit (List.replicate providerPreimageLen (0 : UInt8)).length 0 (providerFields intent nonce round) := by
  have hm : maxCapabilityBytes = 32 := rfl
  have hk : maxCapabilityClaims = 4 := rfl
  simp only [providerFields, List.cons_append, List.nil_append, FieldsFit, beBytes_length, commitDomainProvider_length,
    nodeBytes_length, List.length_replicate, List.length_singleton, providerPreimageLen]
  refine ⟨by omega, by omega, by omega, by omega, by omega, by omega, by omega,
    claimFields_fit hc (by omega) (fun q hq => ?_)⟩
  simp only [FieldsFit, beBytes_length, List.Vector.toList_length]
  rw [hm] at hq
  omega

theorem buildProviderPreimage_ok {intent : PrivateProviderIntent} {nonce : Bytes 32} {round : RoundId}
    {p : List UInt8} (h : buildProviderPreimage intent nonce round = .ok p) :
    intent.capabilityClaims.length ≤ maxCapabilityClaims ∧
      (∀ c ∈ intent.capabilityClaims, (asBytes c.asStr).length ≤ maxCapabilityBytes) ∧
      p = writeFields (List.replicate providerPreimageLen 0) (providerFields intent nonce round) := by
  unfold buildProviderPreimage at h
  split at h
  · cases h
  · split at h
    · cases h
    · rename_i hl
      split at h
      · cases h
      · rename_i hc
        simp only [Except.ok.injEq] at h
        exact ⟨Nat.le_of_not_gt hl, checkClaims_ok hc, h.symm⟩

/-- A provider preimage spells its round and its node at fixed offsets. -/
theorem buildProviderPreimage_spells {intent : PrivateProviderIntent} {nonce : Bytes 32} {round : RoundId}
    {p : List UInt8} (h : buildProviderPreimage intent nonce round = .ok p) :
    p.length = providerPreimageLen ∧ sliceAt p 35 8 = beBytes 8 round.toNat ∧
      sliceAt p 43 32 = intent.nodeId.bytes.toList := by
  obtain ⟨hn, hc, rfl⟩ := buildProviderPreimage_ok h
  have hf := providerFields_fit intent nonce round hn hc
  refine ⟨by rw [writeFields_length hf, List.length_replicate], ?_, ?_⟩
  · have := sliceAt_writeFields hf (35, beBytes 8 round.toNat) (by simp [providerFields])
    simpa using this
  · have := sliceAt_writeFields hf (43, intent.nodeId.bytes.toList) (by simp [providerFields])
    simpa using this

end VertexVeil
