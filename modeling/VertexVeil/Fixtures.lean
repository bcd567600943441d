import VertexVeil.Lemmas.Rounds
import VertexVeil.Network
import VertexVeil.Verifier

/-!
# A small deployment

Primitives that compute, a topology of one requester and three providers and its private intents: what the concrete runs
and logs of the theorems' instances are made of. The digest is a polynomial hash, the signature a digest under the seed.
-/

namespace VertexVeil
namespace Sample

open Codec Broadcast

/-- A polynomial hash of a byte string. -/
def digest (bs : List UInt8) : Nat := bs.foldl (fun acc b => (acc * 257 + b.toNat + 1) % 2 ^ 256) 7

/-- The hash in `k` bytes. -/
def digestBytes (k : Nat) (bs : List UInt8) : Bytes k := ⟨beBytes k (digest bs), beBytes_length k _⟩

/-- Primitives that compute: a public key is its seed, a signature the digest of the seed and the message. -/
def crypto : Crypto where
  blake2s256 bs := digestBytes 32 bs
  isVerifyingKey _ := true
  publicKey seed := seed
  sign seed m := digestBytes 64 (seed.toList ++ m)
  verify pk m sig := sig = digestBytes 64 (pk.toList ++ m)

theorem crypto_ed25519Correct : crypto.Ed25519Correct := by
  intro seed m
  exact decide_eq_true rfl

/-- The node whose key repeats one byte. -/
def node (b : UInt8) : NodeId := ⟨List.Vector.replicate 32 b⟩

def requester : NodeId := node 0x11
def provider₁ : NodeId := node 0x22
def provider₂ : NodeId := node 0x33
def provider₃ : NodeId := node 0x44

def gpu : CapabilityTag := ⟨['G', 'P', 'U']⟩
def cpu : CapabilityTag := ⟨['C', 'P', 'U']⟩

/-- The signing seed of the first provider, and the key that goes with it. -/
def seed₁ : SigningSecretSeed := List.Vector.replicate 32 0x5e

def requesterConfig : NodeConfig :=
  { id := requester, role := .requester, requiredCapability := some gpu, capabilityClaims := [], signingPublicKey := none }

def providerConfig (id : NodeId) (claims : List CapabilityTag) (key : Option SigningPublicKey) : NodeConfig :=
  { id, role := .provider, requiredCapability := none, capabilityClaims := claims, signingPublicKey := key }

def requesterRaw : NodeConfigRaw :=
  { id := requester.toHex, role := .requester, requiredCapability := some gpu.asStr, capabilityClaims := none,
    signingPublicKey := none }

def providerRaw (id : NodeId) (claims : List CapabilityTag) (key : Option SigningPublicKey) : NodeConfigRaw :=
  { id := id.toHex, role := .provider, requiredCapability := none, capabilityClaims := some (claims.map (·.asStr)),
    signingPublicKey := key.map (fun k => hexEncode k.toList) }

/-- The topology: a requester of `GPU`, two providers that claim it, the first with a signing key, and one that does not. -/
def topology : LoadedTopology crypto where
  raw := {
    version := 1, capabilityTags := [gpu.asStr, cpu.asStr]
    nodes := [requesterRaw, providerRaw provider₁ [gpu] (some seed₁), providerRaw provider₂ [gpu, cpu] none,
      providerRaw provider₃ [cpu] none] }
  config := {
    version := 1, capabilityTags := ⟨{cpu, gpu}⟩
    nodes := [requesterConfig, providerConfig provider₁ [gpu] (some seed₁), providerConfig provider₂ [gpu, cpu] none,
      providerConfig provider₃ [cpu] none] }
  loaded := by decide

def requesterEntry (budget : UInt64) : RawAgent :=
  { node := requester.toHex, role := "requester".toList, requiredCapability := some gpu.asStr, capabilityClaims := none,
    budgetCents := some budget, reservationCents := none, signingSecretKey := none }

def providerEntry (id : NodeId) (claims : List CapabilityTag) (reservation : UInt64) (seed : Option SigningSecretSeed) :
    RawAgent :=
  { node := id.toHex, role := "provider".toList, requiredCapability := none,
    capabilityClaims := some (claims.map (·.asStr)), budgetCents := none, reservationCents := some reservation,
    signingSecretKey := seed.map (fun k => hexEncode k.toList) }

/-- The private intents of the topology, for a budget and one reservation of all providers. -/
def bundle (budget reservation : UInt64) : RawBundle where
  version := 1
  agents := [requesterEntry budget, providerEntry provider₁ [gpu] reservation (some seed₁),
    providerEntry provider₂ [gpu, cpu] reservation none, providerEntry provider₃ [cpu] reservation none]

/-- The agents of a requester with nothing to spend and of providers that want a cent. -/
def agents : LoadedAgents crypto topology.config := .ofBundle (bundle 0 1) (by decide)

/-- A commitment to nothing in particular: the digest repeats one byte. -/
def commitment (intent : PublicIntent) (b : UInt8) : CommitmentRecord :=
  { nodeId := intent.nodeId, round := intent.round, commitmentHex := hexEncode (List.replicate 32 b), publicIntent := intent }

def requesterCommitment : CommitmentRecord := commitment (.requester requester 0 gpu) 0xa1
def provider₁Commitment : CommitmentRecord := commitment (.provider provider₁ 0 [gpu]) 0xa2
def provider₂Commitment : CommitmentRecord := commitment (.provider provider₂ 0 [gpu, cpu]) 0xa3

def proposal (chosen : NodeId) : ProposalRecord :=
  { proposer := provider₁, round := 0, candidateRequester := requester, candidateProvider := chosen,
    matchedCapability := gpu }

/-- A log finalized in round `0`, with a provider that was chosen and its commitment. -/
def finalizedLog (chosen : CommitmentRecord) (signatureHex : Text) : CoordinationLog :=
  { CoordinationLog.new "run" with
    commitments := [requesterCommitment, provider₁Commitment, provider₂Commitment]
    proposals := [proposal chosen.nodeId]
    proofs := [buildProofArtifact crypto requesterCommitment requester 0, buildProofArtifact crypto chosen chosen.nodeId 0]
    receipts := [{ provider := chosen.nodeId, round := 0, signatureHex }]
    finalized := true }

/-- A finalized log whose proposer chose the second provider. -/
def log₂ : CoordinationLog := finalizedLog provider₂Commitment (expectedSignatureHex crypto provider₂ 0 gpu.asStr)

/-! ## Runtimes -/

def salt : Bytes 32 := List.Vector.replicate 32 0x5a

/-- A runtime with all the agents of the deployment. -/
def runtime {τ : Type} (transport : τ) (scenario : Scenario) (maxRounds : UInt64) : Runtime τ :=
  { state := .initial topology.config agents.agents scenario maxRounds, transport }

theorem new_runtime {τ : Type} (transport : τ) (scenario : Scenario) (maxRounds : UInt64) :
    Runtime.new topology.config transport agents.agents scenario maxRounds = .ok (runtime transport scenario maxRounds) :=
  Runtime.new_of_loaded topology agents transport scenario maxRounds

/-- What a run that returns an outcome makes of it. -/
def outcome {α : Type} (f : RuntimeOutcome → α) (x : Except (Fault RuntimeError) RuntimeOutcome) : Option α :=
  match x with
  | .ok out => some (f out)
  | .error _ => none

theorem of_outcome {α : Type} {f : RuntimeOutcome → α} {x : Except (Fault RuntimeError) RuntimeOutcome} {a : α}
    (h : outcome f x = some a) : ∃ out, x = .ok out ∧ f out = a := by
  cases x with
  | error e => simp [outcome] at h
  | ok out => exact ⟨out, rfl, Option.some.inj h⟩

/-- The first provider tampers with its proof in each of three rounds. -/
def stubborn : Scenario :=
  { events := [.injectInvalidProof provider₁ 0, .injectInvalidProof provider₁ 1, .injectInvalidProof provider₁ 2] }

/-- The agents of the requester's own process. -/
def requesterOnly : Agents := agents.agents.filter (fun id _ => id = requester)

/-- The messages of a round in which the first provider is matched, and the receipts given. -/
def deliveries (receipts : List CompletionReceiptRecord) : Deliveries where
  schedule _ phase :=
    match phase with
    | .commitments => [{ origin := requester, payload := .commitment requesterCommitment },
        { origin := provider₁, payload := .commitment provider₁Commitment }]
    | .proposal => [{ origin := provider₁, payload := .proposal (proposal provider₁) }]
    | .proofs => [{ origin := requester, payload := .proof (buildProofArtifact crypto requesterCommitment requester 0) },
        { origin := provider₁, payload := .proof (buildProofArtifact crypto provider₁Commitment provider₁ 0) }]
    | .receipts => receipts.map (fun r => { origin := r.provider, payload := .receipt r })

/-- The runtime of the requester's own process, to which these messages are delivered. -/
def requesterRuntime (receipts : List CompletionReceiptRecord) : Runtime Deliveries :=
  { state := .initial topology.config requesterOnly .empty 1, transport := deliveries receipts }

theorem new_requesterRuntime (receipts : List CompletionReceiptRecord) :
    Runtime.new topology.config (deliveries receipts) requesterOnly .empty 1 = .ok (requesterRuntime receipts) := by
  have hnodes : ∀ id ∈ requesterOnly.keys, ∃ n ∈ topology.config.nodes, n.id = id := by decide +kernel
  have hmem : requester ∈ requesterOnly.keys := by decide +kernel
  exact Runtime.new_of_nodes topology (fun id hid => hnodes id (Std.TreeMap.mem_keys.mpr hid))
    ⟨requester, Std.TreeMap.mem_keys.mp hmem⟩ _ _ _

/-- The first provider's receipt. -/
def receipt : CompletionReceiptRecord :=
  { provider := provider₁, round := 0, signatureHex := hexEncode (signReceiptEd25519 crypto seed₁ provider₁ 0 gpu.asStr).toList }

/-! ## Node processes -/

/-- The process of a node with its own agent, before a session of two rounds. -/
def process (id : NodeId) : Option Process :=
  agents.agents[id]?.map fun agent =>
    .ready { RuntimeState.initial topology.config ((∅ : Agents).insert id agent) .empty 2 with
      runSalt := salt, log := .new "run" }

/-- The processes of the deployment; the third provider runs none. -/
def processes (id : NodeId) : Option Process := if id = provider₃ then none else process id

theorem boots {id : NodeId} {p : Process} (h : processes id = some p) : Boots topology (fun _ => .empty) id p := by
  unfold processes at h
  split at h
  · simp at h
  · obtain ⟨agent, hagent, rfl⟩ := Option.map_eq_some_iff.mp h
    have hmem : ∀ i ∈ (∅ : Agents).insert id agent, i = id := by
      intro i hi
      rcases Std.TreeMap.mem_insert.mp hi with he | hi
      · exact (compare_eq_iff_eq.mp he).symm
      · exact absurd hi Std.TreeMap.not_mem_emptyc
    obtain ⟨n, hn, -⟩ := agents.agentsOf id agent hagent
    refine ⟨agents, agent, 2, _, salt, "run", hagent, Runtime.new_of_nodes topology (fun i hi => ?_) ⟨id, ?_⟩ _ _ _, rfl⟩
    · exact ⟨n, (TopologyConfig.findNode_some hn).1, (TopologyConfig.findNode_some hn).2.trans (hmem i hi).symm⟩
    · exact Std.TreeMap.mem_insert.mpr (Or.inl (compare_eq_iff_eq.mpr rfl))

end Sample
end VertexVeil
