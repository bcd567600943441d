import VertexVeil.Commitments

/-!
# The acceptance circuits

The Noir library builds the preimages of commitments once more, byte by byte in one buffer of the larger length. The two circuits
check shapes and a private threshold and hash the preimage against a published commitment; `RequesterCircuit` and
`ProviderCircuit` are the bridge that makes public inputs of a private intent. A circuit accepts when all its assertions hold.
-/

namespace VertexVeil

open Codec

/-! ## The Noir library -/

namespace Noir

/-- `vertex-veil/v1/commit-requester` -/
def commitDomainRequester : List UInt8 := [
  0x76, 0x65, 0x72, 0x74, 0x65, 0x78, 0x2d, 0x76, 0x65, 0x69, 0x6c, 0x2f, 0x76, 0x31,
  0x2f, 0x63, 0x6f, 0x6d, 0x6d, 0x69, 0x74, 0x2d, 0x72, 0x65, 0x71, 0x75, 0x65, 0x73,
  0x74, 0x65, 0x72]

/-- `vertex-veil/v1/commit-provider` -/
def commitDomainProvider : List UInt8 := [
  0x76, 0x65, 0x72, 0x74, 0x65, 0x78, 0x2d, 0x76, 0x65, 0x69, 0x6c, 0x2f, 0x76, 0x31,
  0x2f, 0x63, 0x6f, 0x6d, 0x6d, 0x69, 0x74, 0x2d, 0x70, 0x72, 0x6f, 0x76, 0x69, 0x64,
  0x65, 0x72]

def commitSchemaVersion : UInt8 := 1

def maxCapabilityBytes : UInt32 := 32

def maxCapabilityClaims : UInt32 := 4

/-- Write the eight bytes of a value from a position on, most significant first. -/
def writeU64Be (buf : List UInt8) (pos : Nat) (value : UInt64) : List UInt8 :=
  let buf := buf.set (pos + 0) ((value >>> 56) &&& 0xff).toUInt8
  let buf := buf.set (pos + 1) ((value >>> 48) &&& 0xff).toUInt8
  let buf := buf.set (pos + 2) ((value >>> 40) &&& 0xff).toUInt8
  let buf := buf.set (pos + 3) ((value >>> 32) &&& 0xff).toUInt8
  let buf := buf.set (pos + 4) ((value >>> 24) &&& 0xff).toUInt8
  let buf := buf.set (pos + 5) ((value >>> 16) &&& 0xff).toUInt8
  let buf := buf.set (pos + 6) ((value >>> 8) &&& 0xff).toUInt8
  buf.set (pos + 7) (value &&& 0xff).toUInt8

/-- Write the four bytes of a value from a position on, most significant first. -/
def writeU32Be (buf : List UInt8) (pos : Nat) (value : UInt32) : List UInt8 :=
  let buf := buf.set (pos + 0) ((value >>> 24) &&& 0xff).toUInt8
  let buf := buf.set (pos + 1) ((value >>> 16) &&& 0xff).toUInt8
  let buf := buf.set (pos + 2) ((value >>> 8) &&& 0xff).toUInt8
  buf.set (pos + 3) (value &&& 0xff).toUInt8

/-- Build the 153-byte requester preimage. -/
def buildRequesterPreimage (round : UInt64) (nodeId requiredCapability : Bytes 32) (capabilityLen : UInt32)
    (budgetCents : UInt64) (nonce : Bytes 32) : List UInt8 :=
  let big := List.replicate 264 0
  let big := writeU32Be big 0 31
  let big := fillLoop 31 4 (fun i => commitDomainRequester.getD i 0) big
  let big := big.set 35 commitSchemaVersion
  let big := writeU64Be big 36 round
  let big := fillLoop 32 44 (fun i => nodeId.toList.getD i 0) big
  let big := big.set 76 0
  let big := writeU32Be big 77 capabilityLen
  let big := fillLoop 32 81 (fun i => requiredCapability.toList.getD i 0) big
  let big := writeU64Be big 113 budgetCents
  let big := fillLoop 32 121 (fun i => nonce.toList.getD i 0) big
  fillLoop 153 0 (fun i => big.getD i 0) (List.replicate 153 0)

/-- Write one claim slot: length and bytes, or zeros when the slot is not active. -/
def writeSlot (claimBytes : List.Vector (Bytes 32) 4) (claimLens : List.Vector UInt32 4) (nClaims : UInt32)
    (big : List UInt8) (slotIdx : Nat) : List UInt8 :=
  let slotStart := 80 + slotIdx * 36
  let active := UInt32.ofNat slotIdx < nClaims
  let len := if active then claimLens.toList.getD slotIdx 0 else 0
  let big := writeU32Be big slotStart len
  let bytes := (claimBytes.toList.getD slotIdx (List.Vector.replicate 32 0)).toList
  fillLoop 32 (slotStart + 4) (fun i => if active then bytes.getD i 0 else 0) big

/-- Build the 264-byte provider preimage. -/
def buildProviderPreimage (round : UInt64) (nodeId : Bytes 32) (claimBytes : List.Vector (Bytes 32) 4)
    (claimLens : List.Vector UInt32 4) (nClaims : UInt32) (reservationCents : UInt64) (nonce : Bytes 32) : List UInt8 :=
  let big := List.replicate 264 0
  let big := writeU32Be big 0 30
  let big := fillLoop 30 4 (fun i => commitDomainProvider.getD i 0) big
  let big := big.set 34 commitSchemaVersion
  let big := writeU64Be big 35 round
  let big := fillLoop 32 43 (fun i => nodeId.toList.getD i 0) big
  let big := big.set 75 1
  let big := writeU32Be big 76 nClaims
  let big := (List.range 4).foldl (writeSlot claimBytes claimLens nClaims) big
  let big := writeU64Be big 224 reservationCents
  fillLoop 32 232 (fun i => nonce.toList.getD i 0) big

end Noir

/-! ## The bridge -/

/-- Public inputs of the requester circuit. -/
structure RequesterPublicInputs where
  round : RoundId
  nodeId : Bytes 32
  commitmentHash : Bytes 32
  requiredCapability : Bytes 32
  capabilityLen : UInt32
  threshold : UInt64
  deriving DecidableEq

/-- Private witness of the requester circuit. -/
structure RequesterWitness where
  budgetCents : UInt64
  nonce : Bytes 32

/-- Public inputs of the provider circuit. -/
structure ProviderPublicInputs where
  round : RoundId
  nodeId : Bytes 32
  commitmentHash : Bytes 32
  claimBytes : List.Vector (Bytes 32) 4
  claimLens : List.Vector UInt32 4
  nClaims : UInt32
  threshold : UInt64
  deriving DecidableEq

/-- Private witness of the provider circuit. -/
structure ProviderWitness where
  reservationCents : UInt64
  nonce : Bytes 32

/-- Errors of the bridge. -/
inductive NoirBridgeError where
  | commitmentError (e : CommitmentError)
  | capabilityTooLong (actual limit : Nat)
  | tooManyClaims (actual limit : Nat)
  deriving DecidableEq

/-- A byte string copied into 32 zeroed bytes. -/
def padded (bytes : List UInt8) : Bytes 32 := ⟨(bytes ++ List.replicate 32 0).take 32, by simp⟩

namespace RequesterCircuit

/-- The public inputs of an intent, with the commitment of the Rust builder. -/
def publicInputsFromIntent (Γ : Crypto) (intent : PrivateRequesterIntent) (nonce : Bytes 32) (round : RoundId)
    (threshold : UInt64) : Except NoirBridgeError (RequesterPublicInputs × Bytes 32) :=
  let capBytes := asBytes intent.requiredCapability.asStr
  if capBytes.length > maxCapabilityBytes then .error (.capabilityTooLong capBytes.length maxCapabilityBytes)
  else match buildRequesterPreimage intent nonce round with
    | .error e => .error (.commitmentError e)
    | .ok preimage =>
      let commit := Γ.blake2s256 preimage
      .ok ({ round, nodeId := intent.nodeId.bytes, commitmentHash := commit, requiredCapability := padded capBytes
             capabilityLen := UInt32.ofNat capBytes.length, threshold }, commit)

end RequesterCircuit

namespace ProviderCircuit

/-- An array with one slot assigned. -/
def setSlot {α : Type} {n : Nat} (slots : List.Vector α n) (i : Nat) (a : α) : List.Vector α n :=
  ⟨slots.toList.set i a, by simp⟩

/-- The loop over the claims: each is copied into its slot, one that is too long ends it. -/
def fillClaims : Nat → List CapabilityTag → List.Vector (Bytes 32) 4 × List.Vector UInt32 4 →
    Except NoirBridgeError (List.Vector (Bytes 32) 4 × List.Vector UInt32 4)
  | _, [], slots => .ok slots
  | i, claim :: claims, slots =>
    let bytes := asBytes claim.asStr
    if bytes.length > maxCapabilityBytes then .error (.capabilityTooLong bytes.length maxCapabilityBytes)
    else fillClaims (i + 1) claims (setSlot slots.1 i (padded bytes), setSlot slots.2 i (UInt32.ofNat bytes.length))

/-- The public inputs of an intent, with the commitment of the Rust builder. -/
def publicInputsFromIntent (Γ : Crypto) (intent : PrivateProviderIntent) (nonce : Bytes 32) (round : RoundId)
    (threshold : UInt64) : Except NoirBridgeError (ProviderPublicInputs × Bytes 32) :=
  if intent.capabilityClaims.length > maxCapabilityClaims then
    .error (.tooManyClaims intent.capabilityClaims.length maxCapabilityClaims)
  else match fillClaims 0 intent.capabilityClaims (List.Vector.replicate 4 (List.Vector.replicate 32 0),
      List.Vector.replicate 4 0) with
    | .error e => .error e
    | .ok (claimBytes, claimLens) =>
      match buildProviderPreimage intent nonce round with
      | .error e => .error (.commitmentError e)
      | .ok preimage =>
        let commit := Γ.blake2s256 preimage
        .ok ({ round, nodeId := intent.nodeId.bytes, commitmentHash := commit, claimBytes, claimLens
               nClaims := UInt32.ofNat intent.capabilityClaims.length, threshold }, commit)

end ProviderCircuit

/-! ## The circuits -/

namespace Noir

/-- `for i in 0..32 { assert(actual[i] == commitment_hash[i]) }` -/
def assertDigest (actual commitmentHash : Bytes 32) : Bool :=
  (List.range 32).all fun i => actual.toList.getD i 0 == commitmentHash.toList.getD i 0

/-- The preimage that the requester circuit hashes. -/
def requesterPreimage (pub : RequesterPublicInputs) (wit : RequesterWitness) : List UInt8 :=
  buildRequesterPreimage pub.round pub.nodeId pub.requiredCapability pub.capabilityLen wit.budgetCents wit.nonce

/-- The requester circuit. -/
def requesterMain (Γ : Crypto) (pub : RequesterPublicInputs) (wit : RequesterWitness) : Bool :=
  pub.capabilityLen > 0 && pub.capabilityLen ≤ maxCapabilityBytes && wit.budgetCents ≥ pub.threshold &&
    assertDigest (Γ.blake2s256 (requesterPreimage pub wit)) pub.commitmentHash

/-- The shape check of one claim slot. -/
def assertSlot (pub : ProviderPublicInputs) (i : Nat) : Bool :=
  let active := UInt32.ofNat i < pub.nClaims
  let len := pub.claimLens.toList.getD i 0
  if active then len > 0 && len ≤ maxCapabilityBytes else len == 0

/-- The preimage that the provider circuit hashes. -/
def providerPreimage (pub : ProviderPublicInputs) (wit : ProviderWitness) : List UInt8 :=
  buildProviderPreimage pub.round pub.nodeId pub.claimBytes pub.claimLens pub.nClaims wit.reservationCents wit.nonce

/-- The provider circuit. -/
def providerMain (Γ : Crypto) (pub : ProviderPublicInputs) (wit : ProviderWitness) : Bool :=
  pub.nClaims > 0 && pub.nClaims ≤ maxCapabilityClaims && (List.range 4).all (assertSlot pub) &&
    wit.reservationCents ≤ pub.threshold && assertDigest (Γ.blake2s256 (providerPreimage pub wit)) pub.commitmentHash

theorem assertDigest_iff {a b : Bytes 32} : assertDigest a b = true ↔ a = b := by
  have ha := a.toList_length
  have hb := b.toList_length
  simp only [assertDigest, List.all_eq_true, List.mem_range, beq_iff_eq, List.getD_eq_getElem?_getD]
  constructor
  · intro h
    refine List.Vector.toList_injective (List.ext_getElem (ha.trans hb.symm) ?_)
    intro i hi hi'
    have := h i (ha ▸ hi)
    rwa [List.getElem?_eq_getElem hi, List.getElem?_eq_getElem hi', Option.getD_some, Option.getD_some] at this
  · rintro rfl i -
    rfl

end Noir

end VertexVeil
