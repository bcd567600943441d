import VertexVeil.Intents

/-!
# Receipt signatures

`Crypto` is what the crates `blake2` and `ed25519_dalek` provide, as parameters: every definition of the model takes it and
assumes nothing of it. What a theorem relies on (`Crypto.Ed25519Correct`, no collision among given byte strings) it says as
a hypothesis.
-/

namespace VertexVeil

open Codec

/-- An ed25519 public key, as bytes. -/
abbrev SigningPublicKey : Type := Bytes 32

/-- The primitives of the crates `blake2` and `ed25519_dalek`. -/
structure Crypto where
  /-- `Blake2s256`: the digest of everything the hasher was given. -/
  blake2s256 : List UInt8 → Bytes 32
  /-- `VerifyingKey::from_bytes` succeeds: the bytes are a point of the curve. -/
  isVerifyingKey : SigningPublicKey → Bool
  /-- The public key of a seed. -/
  publicKey : SigningSecretSeed → SigningPublicKey
  /-- `SigningKey::sign` -/
  sign : SigningSecretSeed → List UInt8 → Bytes 64
  /-- `VerifyingKey::verify` -/
  verify : SigningPublicKey → List UInt8 → Bytes 64 → Bool

/-- A signature verifies under the public key of the seed that made it. -/
def Crypto.Ed25519Correct (Γ : Crypto) : Prop :=
  ∀ (seed : SigningSecretSeed) (m : List UInt8), Γ.verify (Γ.publicKey seed) m (Γ.sign seed m) = true

/-- The hash does not collide on two byte strings. -/
def Crypto.NoCollision (Γ : Crypto) (p q : List UInt8) : Prop := Γ.blake2s256 p = Γ.blake2s256 q → p = q

/-- Errors of signing and verifying. -/
inductive SignError where
  | malformedPublicKey
  | malformedSecretKey
  | malformedSignature
  | badSignature
  deriving DecidableEq

/-- Parse a public key: 64 lower-case hexadecimal characters that spell a point of the curve. -/
def SigningPublicKey.fromHex (Γ : Crypto) (s : Text) : Except SignError SigningPublicKey :=
  if utf8Len s ≠ 64 then .error .malformedPublicKey
  else if ¬ s.all isLowerHexDigit then .error .malformedPublicKey
  else match decodeToSlice 32 s with
    | none => .error .malformedPublicKey
    | some out => if Γ.isVerifyingKey out then .ok out else .error .malformedPublicKey

/-- A parsed public key is a point of the curve. -/
theorem SigningPublicKey.fromHex_ok {Γ : Crypto} {s : Text} {pk : SigningPublicKey} (h : fromHex Γ s = .ok pk) :
    Γ.isVerifyingKey pk = true := by
  unfold fromHex at h
  split at h
  · cases h
  · split at h
    · cases h
    · split at h
      · cases h
      · split at h
        · rename_i hv
          simp only [Except.ok.injEq] at h
          exact h ▸ hv
        · cases h

/-- Parse a signing seed: 64 lower-case hexadecimal characters. -/
def SigningSecretSeed.fromHex (s : Text) : Except SignError SigningSecretSeed :=
  if utf8Len s ≠ 64 then .error .malformedSecretKey
  else if ¬ s.all isLowerHexDigit then .error .malformedSecretKey
  else match decodeToSlice 32 s with
    | none => .error .malformedSecretKey
    | some out => .ok out

/-- The domain separator of completion receipts. -/
def receiptDomain : List UInt8 := "vertex-veil/v1/completion-receipt".toUTF8.toList

/-- The canonical signed payload of a receipt. -/
def receiptMessage (provider : NodeId) (round : RoundId) (capability : Text) : List UInt8 :=
  receiptDomain ++ provider.bytes.toList ++ beBytes 8 round.toNat ++
    beBytes 4 (asBytes capability).length ++ asBytes capability

/-- The payload determines the provider, the round and the capability. -/
theorem receiptMessage_inj {p p' : NodeId} {r r' : RoundId} {c c' : Text} (h : receiptMessage p r c = receiptMessage p' r' c') :
    p = p' ∧ r = r' ∧ c = c' := by
  unfold receiptMessage at h
  obtain ⟨h, hc⟩ := List.append_inj h (by simp)
  obtain ⟨h, -⟩ := List.append_inj h (by simp)
  obtain ⟨h, hr⟩ := List.append_inj h (by simp)
  obtain ⟨-, hp⟩ := List.append_inj h rfl
  exact ⟨NodeId.ext_bytes hp, RoundId.ext_bytes hr, asBytes_injective hc⟩

/-- Sign a receipt with the seed of its provider. -/
def signReceiptEd25519 (Γ : Crypto) (seed : SigningSecretSeed) (provider : NodeId) (round : RoundId)
    (capability : Text) : Bytes 64 :=
  Γ.sign seed (receiptMessage provider round capability)

/-- Check the signature of a receipt against a public key. -/
def verifyReceiptEd25519 (Γ : Crypto) (pk : SigningPublicKey) (signatureHex : Text) (provider : NodeId)
    (round : RoundId) (capability : Text) : Except SignError Unit :=
  match hexDecode signatureHex with
  | none => .error .malformedSignature
  | some raw =>
    if h : raw.length = 64 then
      if ¬ Γ.isVerifyingKey pk then .error .malformedPublicKey
      else if Γ.verify pk (receiptMessage provider round capability) ⟨raw, h⟩ then .ok ()
      else .error .badSignature
    else .error .malformedSignature

/-- The tag that stands in for a signature where a topology has no signing keys. -/
def legacySignature (Γ : Crypto) (provider : NodeId) (round : RoundId) (capability : Text) : Bytes 32 :=
  Γ.blake2s256 (receiptDomain ++ provider.bytes.toList ++ beBytes 8 round.toNat ++ asBytes capability)

/-- Against a point of the curve the check accepts exactly the 64-byte signatures that verify. -/
theorem verifyReceiptEd25519_eq_ok {Γ : Crypto} {pk : SigningPublicKey} (hk : Γ.isVerifyingKey pk = true)
    {signatureHex : Text} {provider : NodeId} {round : RoundId} {capability : Text} :
    verifyReceiptEd25519 Γ pk signatureHex provider round capability = .ok () ↔
      ∃ raw : Bytes 64, hexDecode signatureHex = some raw.toList ∧
        Γ.verify pk (receiptMessage provider round capability) raw = true := by
  unfold verifyReceiptEd25519
  cases hd : hexDecode signatureHex with
  | none => simp
  | some raw =>
    simp only [hk, not_true_eq_false, if_false, Option.some.injEq]
    split
    · rename_i hl
      split
      · rename_i hok
        exact ⟨fun _ => ⟨⟨raw, hl⟩, rfl, hok⟩, fun _ => rfl⟩
      · rename_i hbad
        simp only [reduceCtorEq, false_iff]
        rintro ⟨raw', rfl, hok⟩
        exact hbad hok
    · rename_i hl
      simp only [reduceCtorEq, false_iff]
      rintro ⟨raw', rfl, -⟩
      exact hl (List.Vector.toList_length _)

end VertexVeil
