import Mathlib.Data.List.Lex
import VertexVeil.Lib.Codec

/-!
# Node identifiers

A node identifier is a 32-byte public key. Its byte order is the "stable public key order" that picks winners and
rotates proposers. The errors of configuration loading are here too, because parsing an identifier raises them. An error
keeps the values its message shows; the sentence around them is the constructor's docstring.
-/

namespace VertexVeil

open Codec

/-- Why a capability tag is malformed. -/
inductive MalformedTag where
  /-- `empty` -/
  | empty
  /-- `must start with uppercase letter: {raw}` -/
  | mustStartWithUppercase (raw : Text)
  /-- `contains invalid character {c:?} in {raw}` -/
  | invalidCharacter (c : Char) (raw : Text)
  deriving DecidableEq

/-- Why a topology is invalid. -/
inductive InvalidTopology where
  /-- `unsupported topology version {version}` -/
  | unsupportedVersion (version : UInt32)
  /-- `capability tag set must not be empty` -/
  | emptyTagSet
  /-- `nodes list must not be empty` -/
  | emptyNodes
  /-- `provider must not declare required_capability` -/
  | providerRequiredCapability
  /-- `provider capability_claims must not be empty` -/
  | emptyCapabilityClaims
  /-- `requester must not declare capability_claims` -/
  | requesterCapabilityClaims
  /-- `invalid signing_public_key for node {id}` -/
  | invalidSigningPublicKey (id : Text)
  /-- `exactly one requester required, found {requester_count}` -/
  | requesterCount (count : Nat)
  deriving DecidableEq

/-- Why a stable public key is invalid. -/
inductive InvalidStableKey where
  /-- `empty` -/
  | empty
  /-- `expected 64 hex chars, got {len}`, the length in bytes -/
  | expectedHexChars (len : Nat)
  /-- `must be lowercase hex with no prefix` -/
  | notLowercaseHex
  /-- the error of the `hex` crate -/
  | hex
  deriving DecidableEq

/-- Errors of configuration loading. -/
inductive ConfigError where
  | invalidTopology (why : InvalidTopology)
  | unknownCapabilityTag (tag : Text)
  | malformedCapabilityTag (why : MalformedTag)
  | missingField (field : String)
  | invalidStableKey (why : InvalidStableKey)
  | emptyProviderList
  | duplicateNodeId (id : Text)
  deriving DecidableEq

/-- How a call of the code ends without a value: it returns an error, or it panics. -/
inductive Fault (ε : Type) where
  | error (e : ε)
  | panic (msg : String)
  deriving DecidableEq

/-- A stable node identifier: a 32-byte public key. -/
structure NodeId where
  bytes : Bytes 32

namespace NodeId

/-- The identifier as lower-case hexadecimal. -/
def toHex (n : NodeId) : Text := hexEncode n.bytes.toList

/-- The bytes as numbers: what the order compares. -/
def key (n : NodeId) : List Nat := n.bytes.toList.map UInt8.toNat

theorem key_injective : Function.Injective key := by
  intro a b h
  cases a
  cases b
  have hb := List.map_injective_iff.mpr (fun x y => UInt8.toNat_inj.mp) h
  exact congrArg NodeId.mk (List.Vector.toList_injective hb)

/-- The stable public key order: byte-lexicographic. -/
instance : LinearOrder NodeId := LinearOrder.lift' key key_injective

instance : Std.LawfulEqOrd NodeId where
  eq_of_compare h := compare_eq_iff_eq.mp h

/-- The bytes determine the identifier. -/
theorem ext_bytes {a b : NodeId} (h : a.bytes.toList = b.bytes.toList) : a = b := by
  cases a
  cases b
  exact congrArg NodeId.mk (List.Vector.toList_injective h)

/-- The hexadecimal form determines the identifier. -/
theorem toHex_injective : Function.Injective toHex := by
  intro a b h
  cases a
  cases b
  exact congrArg NodeId.mk (List.Vector.toList_injective (hexEncode_inj h))

end NodeId

/-- The length of a text in bytes. -/
def utf8Len (s : Text) : Nat := s.foldl (fun len c => len + c.utf8Size) 0

/-- The text as UTF-8 bytes. -/
def asBytes (s : Text) : List UInt8 := s.flatMap String.utf8EncodeChar

/-- A text is determined by its bytes. -/
theorem asBytes_injective : Function.Injective asBytes := by
  intro a b h
  have ha : (asBytes a).toByteArray.utf8Decode? = some a.toArray := List.utf8Decode?_utf8Encode
  have hb : (asBytes b).toByteArray.utf8Decode? = some b.toArray := List.utf8Decode?_utf8Encode
  rw [h, hb, Option.some.injEq] at ha
  simpa using ha.symm

/-- `'0'..='9' | 'a'..='f'` -/
def isLowerHexDigit (c : Char) : Bool :=
  (48 ≤ c.toNat && c.toNat ≤ 57) || (97 ≤ c.toNat && c.toNat ≤ 102)

/-- The fixed-length bytes a hexadecimal text spells (`hex::decode_to_slice`). -/
def decodeToSlice (n : Nat) (s : Text) : Option (Bytes n) :=
  match hexDecode s with
  | none => none
  | some bs => if h : bs.length = n then some ⟨bs, h⟩ else none

/-- Parse an identifier: 64 lower-case hexadecimal characters. -/
def NodeId.fromStr (s : Text) : Except ConfigError NodeId :=
  if s = [] then .error (.invalidStableKey .empty)
  else if utf8Len s ≠ 64 then .error (.invalidStableKey (.expectedHexChars (utf8Len s)))
  else if ¬ s.all isLowerHexDigit then .error (.invalidStableKey .notLowercaseHex)
  else match decodeToSlice 32 s with
    | none => .error (.invalidStableKey .hex)
    | some bytes => .ok ⟨bytes⟩

/-- Hexadecimal text is lower-case, a byte a character. -/
theorem hexEncode_plain (bs : List UInt8) :
    (hexEncode bs).all isLowerHexDigit = true ∧ ∀ len, (hexEncode bs).foldl (fun len c => len + c.utf8Size) len = len + 2 * bs.length := by
  have hdigit : ∀ n : Fin 16, isLowerHexDigit (hexDigit n) = true ∧ (hexDigit n).utf8Size = 1 := by decide
  induction bs with
  | nil => exact ⟨rfl, fun _ => rfl⟩
  | cons b bs ih =>
    have hb := b.toNat_lt
    obtain ⟨hhi, hhi'⟩ := hdigit ⟨b.toNat / 16, by omega⟩
    obtain ⟨hlo, hlo'⟩ := hdigit ⟨b.toNat % 16, by omega⟩
    refine ⟨?_, fun len => ?_⟩
    · simp only [hexEncode, List.all_cons, ih.1, hhi, hlo, Bool.and_self]
    · simp only [hexEncode, List.foldl_cons, hhi', hlo', ih.2, List.length_cons]
      omega

/-- An identifier is parsed from its hexadecimal form. -/
theorem NodeId.fromStr_toHex (n : NodeId) : fromStr n.toHex = .ok n := by
  have hlen : n.bytes.toList.length = 32 := n.bytes.toList_length
  obtain ⟨hplain, hutf8⟩ := hexEncode_plain n.bytes.toList
  have hlower : n.toHex.all isLowerHexDigit = true := hplain
  have hne : n.toHex ≠ [] := List.ne_nil_of_length_pos (by rw [toHex, hexEncode_length]; omega)
  have hsize : utf8Len n.toHex = 64 := (hutf8 0).trans (by omega)
  have hslice : decodeToSlice 32 n.toHex = some n.bytes := by
    simp only [decodeToSlice, toHex, hexDecode_hexEncode, hlen, dite_true]
    rfl
  unfold fromStr
  rw [if_neg hne, if_neg (not_not.mpr hsize), if_neg (not_not.mpr hlower), hslice]

end VertexVeil
