import VertexVeil.Fixtures
import VertexVeil.Lemmas.InProcess
import VertexVeil.Lemmas.PrivateIntents
import VertexVeil.Lemmas.Verifier

/-!
# Which receipts of one's own verify

The signer chooses its scheme by the seed of the private bundle, the verifier by the key of the topology. The loader compares the
two only where both are given.
-/

namespace VertexVeil

open Codec RuntimeState

/-! ## Signing keys and receipts -/

/-- The bundle gives a node a signing seed. -/
def RawBundle.GivesSeed (bundle : RawBundle) (n : NodeConfig) : Prop :=
  ∃ raw ∈ bundle.agents, raw.node = n.id.toHex ∧ raw.signingSecretKey.isSome = true

/-- The receipt that is broadcast for a proposal passes the verifier's check. -/
def BroadcastVerifies (Γ : Crypto) (t : TopologyConfig) (s : RuntimeState) (round : RoundId) (proposal : ProposalRecord) :
    Prop :=
  ∃ r, s.broadcastReceipt Γ round proposal = ([{ origin := proposal.candidateProvider, payload := .receipt r }], .ok ()) ∧
    r.provider = proposal.candidateProvider ∧ r.round = round ∧
    receiptSignatureOk Γ t r.signatureHex proposal.candidateProvider round proposal.matchedCapability.asStr = true

namespace SignatureAux

variable {Γ : Crypto} {t : TopologyConfig} {s : RuntimeState} {n : NodeConfig}

/-- Keys of two lengths have encodings of two lengths. -/
theorem hexEncode_ne {k l : Nat} (b : Bytes k) (c : Bytes l) (h : k ≠ l) : hexEncode b.toList ≠ hexEncode c.toList := by
  intro he
  have hl := congrArg List.length he
  rw [hexEncode_length, hexEncode_length, List.Vector.toList_length, List.Vector.toList_length] at hl
  omega

/-- A seed is read from an entry that gives one. -/
theorem seedFor_isSome {raw : RawAgent} {out : Option SigningSecretSeed} (h : raw.seedFor Γ n = .ok out) :
    out.isSome = raw.signingSecretKey.isSome := by
  unfold RawAgent.seedFor at h
  split at h
  · rename_i hnone
    rw [← Except.ok.inj h, hnone]
    rfl
  · rename_i hex hsome
    split at h
    · simp at h
    · split at h
      · split at h
        · simp at h
        · rw [← Except.ok.inj h, hsome, Option.isSome_some, Option.isSome_some]
      · rw [← Except.ok.inj h, hsome, Option.isSome_some, Option.isSome_some]

/-- A provider's agent holds the seed of its entry. -/
theorem providerAgent_seed {raw : RawAgent} {seed : Option SigningSecretSeed} {a : AgentState}
    (h : raw.providerAgent n seed = .ok a) : a.provider.bind (·.signingSecretKey) = seed := by
  unfold RawAgent.providerAgent at h
  split at h
  · simp at h
  · obtain ⟨claims, -, h⟩ := Except.bind_eq_ok h
    split at h
    · simp at h
    · split at h
      · simp at h
      · rw [← Except.ok.inj h]
        rfl

/-- A provider's loaded agent has a seed exactly when the bundle gives one. -/
theorem seed_isSome_iff (ht : t.WellFormed Γ) (L : LoadedAgents Γ t) (hn : n ∈ t.nodes) (hrole : n.role = .provider) :
    ((L.agents[n.id]?.bind (·.provider)).bind (·.signingSecretKey)).isSome = true ↔ L.bundle.GivesSeed n := by
  obtain ⟨a, ha, -⟩ := L.exists_agent ht hn
  obtain ⟨raw, hraw, hgives⟩ := L.getElem?_iff.mp ha
  have hseed : (a.provider.bind (·.signingSecretKey)).isSome = raw.signingSecretKey.isSome := by
    obtain ⟨node, seed, hnode, -, hs, hagent⟩ := hgives.agent
    rw [ht.findNode_self hn, Option.some.injEq] at hnode
    subst hnode
    rw [RawAgent.agentFor, hrole] at hagent
    rw [providerAgent_seed hagent, seedFor_isSome hs]
  rw [ha, Option.bind_some, hseed]
  constructor
  · intro h
    exact ⟨raw, hraw, NodeId.fromStr_eq_ok.mp hgives.parses, h⟩
  · -- No other entry names the node.
    rintro ⟨raw', hraw', hnode, h⟩
    have hsame : raw' = raw :=
      List.inj_on_of_nodup_map L.entries.2 hraw' hraw (hnode.trans (NodeId.fromStr_eq_ok.mp hgives.parses).symm)
    exact hsame ▸ h

/-- A loaded provider's receipt passes the verifier's check exactly when the bundle gives the provider a seed where the topology
gives it a key. -/
theorem receiptSignatureOk_iff_seed (ht : t.WellFormed Γ) (L : LoadedAgents Γ t) (hc : Γ.Ed25519Correct)
    (hn : n ∈ t.nodes) (hrole : n.role = .provider) (ha : s.agents[n.id]? = L.agents[n.id]?) (round : RoundId) (cap : Text) :
    receiptSignatureOk Γ t (s.receiptSignatureHex Γ n.id round cap) n.id round cap = true ↔
      ((L.agents[n.id]?.bind (·.provider)).bind (·.signingSecretKey)).isSome = n.signingPublicKey.isSome := by
  rw [VerifierAux.receiptSignatureOk_iff ht]
  obtain ⟨a, hagent, hacts⟩ := L.exists_agent ht hn
  cases hacts with
  | requester i hr _ _ _ =>
    rw [hrole] at hr
    simp at hr
  | provider i _ _ _ hseed =>
    have hloaded : (L.agents[n.id]?.bind (·.provider)).bind (·.signingSecretKey) = i.signingSecretKey := by
      simp only [hagent, Option.bind_some, AgentState.ofProvider]
    have hsecret : (s.agents[n.id]?.bind (·.provider)).bind (·.signingSecretKey) = i.signingSecretKey := by
      rw [ha, hloaded]
    simp only [ReceiptSigned, ht.findNode_self hn, Option.bind_some, hloaded]
    cases hkey : n.signingPublicKey with
    | none =>
      cases hs : i.signingSecretKey with
      | none =>
        rw [receiptSignatureHex_legacy (hsecret.trans hs)]
        simp
      | some seed =>
        rw [receiptSignatureHex_seed (hsecret.trans hs)]
        simp only [Option.isSome_some, Option.isSome_none, Bool.true_eq_false, iff_false]
        exact hexEncode_ne _ _ (by decide)
    | some pk =>
      cases hs : i.signingSecretKey with
      | none =>
        rw [receiptSignatureHex_legacy (hsecret.trans hs), hexDecode_hexEncode]
        simp only [Option.isSome_some, Option.isSome_none, Bool.false_eq_true, iff_false, Option.some.injEq]
        rintro ⟨raw, he, -⟩
        have hl := congrArg List.length he
        rw [List.Vector.toList_length, List.Vector.toList_length] at hl
        omega
      | some seed =>
        rw [receiptSignatureHex_seed (hsecret.trans hs)]
        simp only [Option.isSome_some, iff_true]
        refine ⟨_, hexDecode_hexEncode _, ?_⟩
        rw [← hseed seed pk hs hkey]
        exact hc seed _

/-- The receipt broadcast for a provider of one's own is the one signed for it. -/
theorem broadcastVerifies_iff {p : ProposalRecord} {round : RoundId} (h : p.candidateProvider ∈ s.agents) :
    BroadcastVerifies Γ t s round p ↔
      receiptSignatureOk Γ t (s.receiptSignatureHex Γ p.candidateProvider round p.matchedCapability.asStr) p.candidateProvider
        round p.matchedCapability.asStr = true := by
  have hcont : s.agents.contains p.candidateProvider = true := Std.TreeMap.contains_iff_mem.mpr h
  unfold BroadcastVerifies broadcastReceipt
  simp only [hcont, not_true_eq_false, if_false, Prod.mk.injEq, and_true, List.cons.injEq, CoordinationMessage.mk.injEq,
    true_and, MessagePayload.receipt.injEq]
  constructor
  · rintro ⟨r, rfl, -, -, hok⟩
    exact hok
  · intro hok
    exact ⟨_, rfl, rfl, rfl, hok⟩

end SignatureAux

open SignatureAux

namespace Sample

/-- The sample's private intents, but with a seed for the second provider, to which the topology gives no key. -/
def overseeded : LoadedAgents crypto topology.config := .ofBundle
  { version := 1
    agents := [requesterEntry 0, providerEntry provider₁ [gpu] 1 (some seed₁),
      providerEntry provider₂ [gpu, cpu] 1 (some seed₁), providerEntry provider₃ [cpu] 1 none] }
  (by decide)

end Sample

/-- A provider's own receipt need not verify: here the provider has a seed and the topology gives it no key. -/
theorem own_receipt_unverified : ¬ ∀ (Γ : Crypto), Γ.Ed25519Correct → ∀ (T : LoadedTopology Γ) (L : LoadedAgents Γ T.config)
    (p : NodeConfig), p ∈ T.config.nodes → p.role = .provider → ∀ (s : RuntimeState), s.agents[p.id]? = L.agents[p.id]? →
      ∀ (round : RoundId) (proposal : ProposalRecord), proposal.candidateProvider = p.id →
        BroadcastVerifies Γ T.config s round proposal := by
  intro h
  have hn : Sample.providerConfig Sample.provider₂ [Sample.gpu, Sample.cpu] none ∈ Sample.topology.config.nodes := by decide
  have hv := h Sample.crypto Sample.crypto_ed25519Correct Sample.topology Sample.overseeded _ hn rfl
    (.starting Sample.topology.config Sample.overseeded.agents .empty 1 Sample.salt "run") rfl 0
    (Sample.proposal Sample.provider₂) rfl
  have hok := (broadcastVerifies_iff (Sample.overseeded.mem_agents.mpr ⟨_, hn, rfl⟩)).mp hv
  have hsame := (receiptSignatureOk_iff_seed Sample.topology.wellFormed Sample.overseeded Sample.crypto_ed25519Correct hn rfl rfl
    0 _).mp hok
  revert hsame
  decide

/-- **When a provider's own receipt verifies.** When signatures made with a seed verify under the seed's key, the receipt that a
loaded provider's process broadcasts passes the verifier's check, in any round and for any capability, exactly when the private
bundle gives the provider a seed and the topology gives it a key, or neither does. -/
theorem own_receipt_verifies_iff {Γ : Crypto} (hc : Γ.Ed25519Correct) (T : LoadedTopology Γ) (L : LoadedAgents Γ T.config)
    (p : NodeConfig) (hp : p ∈ T.config.nodes) (hrole : p.role = .provider) (s : RuntimeState)
    (hs : s.agents[p.id]? = L.agents[p.id]?) (round : RoundId) (proposal : ProposalRecord)
    (hprop : proposal.candidateProvider = p.id) :
    BroadcastVerifies Γ T.config s round proposal ↔ (L.bundle.GivesSeed p ↔ p.signingPublicKey.isSome = true) := by
  have hmem : proposal.candidateProvider ∈ s.agents := by
    rw [hprop, Std.TreeMap.mem_iff_isSome_getElem?, hs, ← Std.TreeMap.mem_iff_isSome_getElem?]
    exact L.mem_agents.mpr ⟨p, hp, rfl⟩
  rw [broadcastVerifies_iff hmem, hprop, receiptSignatureOk_iff_seed T.wellFormed L hc hp hrole hs,
    ← seed_isSome_iff T.wellFormed L hp hrole, Bool.eq_iff_iff]

/-- The first provider of the sample has a seed and a key. -/
theorem own_receipt_verifies_sample : BroadcastVerifies Sample.crypto Sample.topology.config
    (.starting Sample.topology.config Sample.agents.agents .empty 1 Sample.salt "run") 0 (Sample.proposal Sample.provider₁) := by
  refine (own_receipt_verifies_iff Sample.crypto_ed25519Correct Sample.topology Sample.agents
    (Sample.providerConfig Sample.provider₁ [Sample.gpu] (some Sample.seed₁)) (by decide) rfl _ rfl 0 _ rfl).mpr ?_
  refine iff_of_true ⟨Sample.providerEntry Sample.provider₁ [Sample.gpu] 1 (some Sample.seed₁), ?_, rfl, rfl⟩ rfl
  rw [Sample.agents, LoadedAgents.ofBundle_bundle]
  exact List.mem_cons_of_mem _ (List.mem_cons_self ..)

end VertexVeil
