import Mathlib.Data.Finset.Basic
import VertexVeil.Keys

/-!
# Capability tags, rounds, public and private intents

The shared protocol types: a capability tag, the set of tags a run is configured with, a round number, the public half of
an intent (what a node publishes) and its private half (budget, reservation, signing seed). `Secret` only hides a value
from formatting, so a private field is the value itself here.
-/

namespace VertexVeil

open Codec

/-! ## Capability tags -/

/-- A capability tag. A tag read from a configuration has the shape `[A-Z][A-Z0-9_]*`; a tag read from a log or from the
wire is any text. -/
structure CapabilityTag where
  asStr : Text
  deriving DecidableEq

/-- `char::is_ascii_uppercase` -/
def isAsciiUppercase (c : Char) : Bool := 65 ≤ c.toNat && c.toNat ≤ 90

/-- `char::is_ascii_digit` -/
def isAsciiDigit (c : Char) : Bool := 48 ≤ c.toNat && c.toNat ≤ 57

/-- What may follow the first letter of a tag. -/
def isTagChar (c : Char) : Bool := isAsciiUppercase c || isAsciiDigit c || c == '_'

/-- Validate the shape of a label. -/
def CapabilityTag.parseShape (raw : Text) : Except ConfigError CapabilityTag :=
  match raw with
  | [] => .error (.malformedCapabilityTag .empty)
  | first :: chars =>
    if ¬ isAsciiUppercase first then .error (.malformedCapabilityTag (.mustStartWithUppercase raw))
    else match chars.find? (fun c => ¬ isTagChar c) with
      | some c => .error (.malformedCapabilityTag (.invalidCharacter c raw))
      | none => .ok ⟨raw⟩

/-- A parsed tag is the text it was parsed from, and is not empty. -/
theorem CapabilityTag.parseShape_ok {raw : Text} {tag : CapabilityTag} (h : parseShape raw = .ok tag) :
    tag.asStr = raw ∧ tag.asStr ≠ [] := by
  cases raw with
  | nil => simp [parseShape] at h
  | cons first chars =>
    simp only [parseShape] at h
    split at h
    · cases h
    · split at h
      · cases h
      · simp only [Except.ok.injEq] at h
        subst h
        exact ⟨rfl, List.cons_ne_nil _ _⟩

/-- The configured universe of tags of a run. -/
structure CapabilityTagSet where
  tags : Finset CapabilityTag
  deriving DecidableEq

/-- Insert the tags of a list, parsed one after the other. -/
def CapabilityTagSet.insertAll : List Text → Finset CapabilityTag → Except ConfigError (Finset CapabilityTag)
  | [], out => .ok out
  | raw :: raws, out => do
    let tag ← CapabilityTag.parseShape raw
    insertAll raws (insert tag out)

/-- Build a tag set: every tag well-shaped, at least one. -/
def CapabilityTagSet.new (raws : List Text) : Except ConfigError CapabilityTagSet := do
  let out ← insertAll raws ∅
  if out = ∅ then .error (.invalidTopology .emptyTagSet) else .ok ⟨out⟩

/-- Parse a label and look it up in the set. -/
def CapabilityTagSet.normalize (s : CapabilityTagSet) (raw : Text) : Except ConfigError CapabilityTag := do
  let tag ← CapabilityTag.parseShape raw
  if tag ∈ s.tags then .ok tag else .error (.unknownCapabilityTag tag.asStr)

/-- A normalized label is a nonempty tag of the set. -/
theorem CapabilityTagSet.normalize_ok {s : CapabilityTagSet} {raw : Text} {tag : CapabilityTag}
    (h : s.normalize raw = .ok tag) : tag ∈ s.tags ∧ tag.asStr = raw ∧ tag.asStr ≠ [] := by
  unfold normalize at h
  cases hp : CapabilityTag.parseShape raw with
  | error e => rw [hp] at h; cases h
  | ok t =>
    rw [hp] at h
    simp only [bind, Except.bind] at h
    split at h
    · rename_i hm
      simp only [Except.ok.injEq] at h
      subst h
      exact ⟨hm, CapabilityTag.parseShape_ok hp⟩
    · cases h

/-! ## Rounds and public intents -/

/-- The role of a node. -/
inductive Role where
  | requester | provider
  deriving DecidableEq

/-- A round number, 64 bits. -/
abbrev RoundId : Type := UInt64

/-- The next round. The addition is checked: there is none after the last. -/
def RoundId.next (r : RoundId) : Option RoundId :=
  if r.toNat + 1 < 2 ^ 64 then some (r + 1) else none

/-- A round is determined by its bytes. -/
theorem RoundId.ext_bytes {r r' : RoundId} (h : beBytes 8 r.toNat = beBytes 8 r'.toNat) : r = r' :=
  UInt64.toNat_inj.mp (beBytes_inj r.toNat_lt r'.toNat_lt h)

/-- The public part of a node's intent for a round. -/
inductive PublicIntent where
  | requester (nodeId : NodeId) (round : RoundId) (requiredCapability : CapabilityTag)
  | provider (nodeId : NodeId) (round : RoundId) (capabilityClaims : List CapabilityTag)
  deriving DecidableEq

namespace PublicIntent

def nodeId : PublicIntent → NodeId
  | requester n _ _ => n
  | provider n _ _ => n

def round : PublicIntent → RoundId
  | requester _ r _ => r
  | provider _ r _ => r

def role : PublicIntent → Role
  | requester _ _ _ => .requester
  | provider _ _ _ => .provider

end PublicIntent

/-! ## Private intents and agents -/

/-- An ed25519 signing seed. -/
abbrev SigningSecretSeed : Type := Bytes 32

/-- The private intent of a requester. -/
structure PrivateRequesterIntent where
  nodeId : NodeId
  requiredCapability : CapabilityTag
  budgetCents : UInt64
  signingSecretKey : Option SigningSecretSeed
  deriving DecidableEq

/-- The private intent of a provider. -/
structure PrivateProviderIntent where
  nodeId : NodeId
  capabilityClaims : List CapabilityTag
  reservationCents : UInt64
  signingSecretKey : Option SigningSecretSeed
  deriving DecidableEq

/-- What a process holds to act for one node. -/
structure AgentState where
  nodeId : NodeId
  role : Role
  requester : Option PrivateRequesterIntent
  provider : Option PrivateProviderIntent
  deriving DecidableEq

/-- The agent of a requester. -/
def AgentState.ofRequester (intent : PrivateRequesterIntent) : AgentState :=
  { nodeId := intent.nodeId, role := .requester, requester := some intent, provider := none }

/-- The agent of a provider. -/
def AgentState.ofProvider (intent : PrivateProviderIntent) : AgentState :=
  { nodeId := intent.nodeId, role := .provider, requester := none, provider := some intent }

end VertexVeil
