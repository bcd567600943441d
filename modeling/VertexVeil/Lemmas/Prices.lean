import VertexVeil.Lemmas.PrivateIntents
import VertexVeil.Lemmas.RunTrace

/-!
# Helpers for `Theorems/Prices.lean`: what of a run depends on the prices

Bundles that differ only in their prices give each node agents that differ only in them. A node's commitment is then built from both
or from neither, and the two differ in their digests alone. Everything a round appends is made of these commitments, of the seeds
and of the scenario.
-/

namespace VertexVeil

open Codec RuntimeState

/-! ## Records without digests, bundles without prices -/

/-- A commitment without its digest. -/
def CommitmentRecord.erased (c : CommitmentRecord) : CommitmentRecord := { c with commitmentHex := [] }

/-- A proof without its public inputs and its attestation. -/
def ProofArtifactRecord.erased (a : ProofArtifactRecord) : ProofArtifactRecord :=
  { a with publicInputsHex := [], proofHex := [] }

/-- Records without the digests of the commitments and the contents of the proofs. -/
def Entries.erased (E : Entries) : Entries :=
  { E with commitments := E.commitments.map CommitmentRecord.erased, proofs := E.proofs.map ProofArtifactRecord.erased }

/-- A log without the digests of its commitments and the contents of its proofs. -/
def CoordinationLog.erased (log : CoordinationLog) : CoordinationLog :=
  { log with commitments := log.commitments.map CommitmentRecord.erased, proofs := log.proofs.map ProofArtifactRecord.erased }

/-- An outcome with its log erased. -/
def RuntimeOutcome.erased (out : RuntimeOutcome) : RuntimeOutcome := { out with log := out.log.erased }

/-- An entry without its prices. -/
def RawAgent.unpriced (raw : RawAgent) : RawAgent := { raw with budgetCents := none, reservationCents := none }

/-- A bundle without its prices. -/
def RawBundle.unpriced (b : RawBundle) : RawBundle := { b with agents := b.agents.map RawAgent.unpriced }

/-- An agent at no price. -/
def AgentState.unpriced (a : AgentState) : AgentState where
  nodeId := a.nodeId
  role := a.role
  requester := a.requester.map fun i => { i with budgetCents := 0 }
  provider := a.provider.map fun i => { i with reservationCents := 0 }

/-! ## Loaded bundles -/

section

variable {Γ : Crypto} {t : TopologyConfig}

/-- A requester's agent but for its budget is the node's, with the seed. -/
theorem RawAgent.requesterAgent_unpriced {raw : RawAgent} {node : NodeConfig} {seed : Option SigningSecretSeed} {a : AgentState}
    (h : raw.requesterAgent node seed = .ok a) : ∃ cap, node.requiredCapability = some cap ∧
      a.unpriced = .ofRequester { nodeId := node.id, requiredCapability := cap, budgetCents := 0, signingSecretKey := seed } := by
  unfold requesterAgent at h
  split at h
  · simp at h
  · split at h
    · simp at h
    · split at h
      · simp at h
      · rename_i topoCap htopo
        split at h
        · simp at h
        · rename_i he
          split at h
          · simp at h
          · obtain rfl := Except.ok.inj h
            exact ⟨topoCap, htopo, by rw [not_not.mp he]; rfl⟩

/-- A provider's agent but for its reservation is the node's, with the seed. -/
theorem RawAgent.providerAgent_unpriced {raw : RawAgent} {node : NodeConfig} {seed : Option SigningSecretSeed} {a : AgentState}
    (h : raw.providerAgent node seed = .ok a) : a.unpriced = .ofProvider {
      nodeId := node.id, capabilityClaims := node.capabilityClaims, reservationCents := 0, signingSecretKey := seed } := by
  unfold providerAgent at h
  split at h
  · simp at h
  · obtain ⟨claims, -, h⟩ := Except.bind_eq_ok h
    split at h
    · simp at h
    · rename_i he
      split at h
      · simp at h
      · obtain rfl := Except.ok.inj h
        rw [not_not.mp he]
        rfl

/-- The agents of two entries for a node, with one seed, differ in their prices alone. -/
theorem RawAgent.agentFor_unpriced {raw raw' : RawAgent} {node : NodeConfig} {seed : Option SigningSecretSeed}
    {a a' : AgentState} (h : raw.agentFor node seed = .ok a) (h' : raw'.agentFor node seed = .ok a') :
    a'.unpriced = a.unpriced := by
  unfold agentFor at h h'
  split at h
  · rename_i hrole
    rw [hrole] at h'
    obtain ⟨cap, hcap, he⟩ := requesterAgent_unpriced h
    obtain ⟨cap', hcap', he'⟩ := requesterAgent_unpriced h'
    obtain rfl : cap = cap' := Option.some.inj (hcap.symm.trans hcap')
    rw [he, he']
  · rename_i hrole
    rw [hrole] at h'
    rw [providerAgent_unpriced h, providerAgent_unpriced h']

/-- The agents of two bundles that differ in their prices alone do so too. -/
theorem loadAgents_unpriced {raws raws' : List RawAgent} {out out' agents agents' : Agents}
    (hraws : raws'.map RawAgent.unpriced = raws.map RawAgent.unpriced)
    (hout : ∀ n : NodeId, out'[n]?.map AgentState.unpriced = out[n]?.map AgentState.unpriced) (h : loadAgents Γ t raws out = .ok agents)
    (h' : loadAgents Γ t raws' out' = .ok agents') (n : NodeId) :
    agents'[n]?.map AgentState.unpriced = agents[n]?.map AgentState.unpriced := by
  induction raws generalizing raws' out out' with
  | nil =>
    obtain rfl := List.map_eq_nil_iff.mp hraws
    obtain rfl := Except.ok.inj h
    obtain rfl := Except.ok.inj h'
    exact hout n
  | cons raw raws ih =>
    obtain ⟨raw', rest, rfl, hraw, hrest⟩ := List.map_eq_cons_iff.mp hraws
    obtain ⟨id, a, ⟨hid, node, seed, hnode, -, hseed, ha⟩, -, h⟩ := loadAgents_cons_eq_ok.mp h
    obtain ⟨id', a', ⟨hid', node', seed', hnode', -, hseed', ha'⟩, -, h'⟩ := loadAgents_cons_eq_ok.mp h'
    -- the two entries have the node and the seed in common
    have hname : raw'.unpriced.node = raw.unpriced.node := congrArg RawAgent.node hraw
    have hkey : raw'.unpriced.signingSecretKey = raw.unpriced.signingSecretKey := congrArg RawAgent.signingSecretKey hraw
    simp only [RawAgent.unpriced] at hname hkey
    rw [hname, hid, Except.ok.injEq] at hid'
    subst hid'
    rw [hnode, Option.some.injEq] at hnode'
    subst hnode'
    have hsame : raw'.seedFor Γ node = raw.seedFor Γ node := by
      simp only [RawAgent.seedFor, hkey]
    rw [hsame, hseed, Except.ok.injEq] at hseed'
    subst hseed'
    refine ih hrest ?_ h h'
    intro k
    rw [Std.TreeMap.getElem?_insert, Std.TreeMap.getElem?_insert]
    split
    · rw [Option.map_some, Option.map_some, RawAgent.agentFor_unpriced ha ha']
    · exact hout k

/-- Agents that differ in their prices alone. -/
theorem LoadedAgents.unpriced {L L' : LoadedAgents Γ t} (h : L'.bundle.unpriced = L.bundle.unpriced) (n : NodeId) :
    L'.agents[n]?.map AgentState.unpriced = L.agents[n]?.map AgentState.unpriced := by
  exact loadAgents_unpriced (congrArg RawBundle.agents h) (fun _ => rfl) (agentsFromBundle_eq_ok.mp L.loaded).2.1
    (agentsFromBundle_eq_ok.mp L'.loaded).2.1 n

/-! ## Commitments -/

/-- Whether a requester's commitment is built, and the error if it is not, is a matter of its capability. -/
theorem commitRequester_cases (Γ : Crypto) {i i' : PrivateRequesterIntent} (h : i'.requiredCapability = i.requiredCapability)
    (nonce nonce' : Bytes 32) (r r' : RoundId) :
    (∃ e, commitRequester Γ i nonce r = .error e ∧ commitRequester Γ i' nonce' r' = .error e) ∨
      ∃ d d', commitRequester Γ i nonce r = .ok d ∧ commitRequester Γ i' nonce' r' = .ok d' := by
  unfold commitRequester buildRequesterPreimage
  rw [h]
  dsimp only
  split
  · exact Or.inl ⟨_, rfl, rfl⟩
  · split
    · exact Or.inl ⟨_, rfl, rfl⟩
    · exact Or.inr ⟨_, _, rfl, rfl⟩

/-- Whether a provider's commitment is built, and the error if it is not, is a matter of its claims. -/
theorem commitProvider_cases (Γ : Crypto) {i i' : PrivateProviderIntent} (h : i'.capabilityClaims = i.capabilityClaims)
    (nonce nonce' : Bytes 32) (r r' : RoundId) :
    (∃ e, commitProvider Γ i nonce r = .error e ∧ commitProvider Γ i' nonce' r' = .error e) ∨
      ∃ d d', commitProvider Γ i nonce r = .ok d ∧ commitProvider Γ i' nonce' r' = .ok d' := by
  unfold commitProvider buildProviderPreimage
  rw [h]
  split
  · exact Or.inl ⟨_, rfl, rfl⟩
  · split
    · exact Or.inl ⟨_, rfl, rfl⟩
    · split
      · exact Or.inl ⟨_, rfl, rfl⟩
      · exact Or.inr ⟨_, _, rfl, rfl⟩

end

/-- States whose configurations differ in the agents' prices alone. -/
structure SameButPrices (s s' : RuntimeState) : Prop where
  topology : s'.topology = s.topology
  scenario : s'.scenario = s.scenario
  schedule : s'.invalidProofSchedule = s.invalidProofSchedule
  agents : ∀ n : NodeId, s'.agents[n]?.map AgentState.unpriced = s.agents[n]?.map AgentState.unpriced

namespace SameButPrices

variable {Γ : Crypto} {s s' : RuntimeState} {round : RoundId}

theorem refl (s : RuntimeState) : SameButPrices s s := ⟨rfl, rfl, rfl, fun _ => rfl⟩

theorem of_config (h : SameButPrices s s') {x x' : RuntimeState} (hx : SameConfig s x) (hx' : SameConfig s' x') :
    SameButPrices x x' := by
  refine ⟨?_, ?_, ?_, ?_⟩
  · rw [hx.topology, hx'.topology, h.topology]
  · rw [hx.scenario, hx'.scenario, h.scenario]
  · rw [hx.schedule, hx'.schedule, h.schedule]
  · rw [hx.agents, hx'.agents]
    exact h.agents

theorem keys (h : SameButPrices s s') : s'.agents.keys = s.agents.keys := by
  have heq : (s'.agents.map fun _ => AgentState.unpriced).Equiv (s.agents.map fun _ => AgentState.unpriced) := by
    refine Std.TreeMap.Equiv.of_forall_constGet?_eq ?_
    intro n
    rw [Std.TreeMap.getElem?_map, Std.TreeMap.getElem?_map]
    exact h.agents n
  have hkeys := heq.keys_eq
  rwa [Std.TreeMap.keys_map, Std.TreeMap.keys_map] at hkeys

theorem mem_agents (h : SameButPrices s s') {n : NodeId} : n ∈ s'.agents ↔ n ∈ s.agents := by
  rw [← Std.TreeMap.mem_keys, h.keys, Std.TreeMap.mem_keys]

/-- Two optional values that a function maps alike are both missing, or both there and mapped alike. -/
theorem map_eq_cases {α γ : Type} {f : α → γ} {x y : Option α} (h : y.map f = x.map f) :
    (x = none ∧ y = none) ∨ ∃ a b, x = some a ∧ y = some b ∧ f b = f a := by
  cases x with
  | none => exact Or.inl ⟨rfl, Option.map_eq_none_iff.mp h⟩
  | some a =>
    obtain ⟨b, rfl, hb⟩ := Option.map_eq_some_iff.mp h
    exact Or.inr ⟨a, b, rfl, rfl, hb⟩

/-- In any two rounds a node's commitment is built from both or from neither, with the same error; in one round the two commitments
differ in their digests alone. -/
theorem buildCommitment (h : SameButPrices s s') (Γ : Crypto) (n : NodeId) (r r' : RoundId) :
    (∃ e, s.buildCommitment Γ n r = .error e ∧ s'.buildCommitment Γ n r' = .error e) ∨
      ∃ c c', s.buildCommitment Γ n r = .ok c ∧ s'.buildCommitment Γ n r' = .ok c' ∧ (r' = r → c'.erased = c.erased) := by
  unfold RuntimeState.buildCommitment
  rw [h.topology]
  rcases map_eq_cases (h.agents n) with ⟨hs, hs'⟩ | ⟨a, a', hs, hs', he⟩
  · rw [hs, hs']
    exact Or.inl ⟨_, rfl, rfl⟩
  · obtain ⟨-, hrole, hreq, hprov⟩ := AgentState.mk.inj he
    rw [hs, hs']
    dsimp only
    rw [hrole]
    split
    · exact Or.inl ⟨_, rfl, rfl⟩
    · split
      · rcases map_eq_cases hreq with ⟨hi, hi'⟩ | ⟨i, i', hi, hi', hei⟩
        · rw [hi, hi']
          exact Or.inl ⟨_, rfl, rfl⟩
        · obtain ⟨-, hcap, -⟩ := PrivateRequesterIntent.mk.inj hei
          rw [hi, hi']
          dsimp only
          rcases commitRequester_cases Γ hcap (deriveTestNonce Γ n r s.runSalt) (deriveTestNonce Γ n r' s'.runSalt) r r' with
            ⟨e, hc, hc'⟩ | ⟨d, d', hc, hc'⟩
          · rw [hc, hc']
            exact Or.inl ⟨_, rfl, rfl⟩
          · rw [hc, hc']
            dsimp only
            split
            · exact Or.inl ⟨_, rfl, rfl⟩
            · refine Or.inr ⟨_, _, rfl, rfl, ?_⟩
              rintro rfl
              rfl
      · rcases map_eq_cases hprov with ⟨hi, hi'⟩ | ⟨i, i', hi, hi', hei⟩
        · rw [hi, hi']
          exact Or.inl ⟨_, rfl, rfl⟩
        · obtain ⟨-, hclaims, -⟩ := PrivateProviderIntent.mk.inj hei
          rw [hi, hi']
          dsimp only
          rcases commitProvider_cases Γ hclaims (deriveTestNonce Γ n r s.runSalt) (deriveTestNonce Γ n r' s'.runSalt) r r' with
            ⟨e, hc, hc'⟩ | ⟨d, d', hc, hc'⟩
          · rw [hc, hc']
            exact Or.inl ⟨_, rfl, rfl⟩
          · rw [hc, hc']
            refine Or.inr ⟨_, _, rfl, rfl, ?_⟩
            rintro rfl
            rfl

theorem buildable (h : SameButPrices s s') (hbuild : Buildable Γ s) : Buildable Γ s' := by
  intro n hn r
  obtain ⟨c, hc⟩ := hbuild n (h.mem_agents.mp hn) r
  rcases h.buildCommitment Γ n r r with ⟨e, he, -⟩ | ⟨-, c', -, hc', -⟩
  · rw [hc] at he
    simp at he
  · exact ⟨c', hc'⟩

end SameButPrices

/-! ## What rounds append -/

namespace Entries

theorem erased_append (E F : Entries) : (E ++ F).erased = E.erased ++ F.erased := by
  simp only [erased, append_eq, List.map_append]

theorem erased_concat (Es : List Entries) : (concat Es).erased = concat (Es.map erased) := by
  induction Es with
  | nil => rfl
  | cons E Es ih => rw [concat_cons, erased_append, ih, List.map_cons, concat_cons]

end Entries

theorem CoordinationLog.erased_extend (log : CoordinationLog) (E : Entries) :
    (log.extend E).erased = log.erased.extend E.erased := by
  have hkeys : E.erased.commitments.map (fun c => (c.nodeId, c.round)) = E.commitments.map fun c => (c.nodeId, c.round) := by
    simp only [Entries.erased, List.map_map]
    rfl
  simp only [extend, erased, hkeys]
  simp only [Entries.erased, List.map_append]

theorem erased_closeLog (log : CoordinationLog) (fin : Bool) (fr : RoundId) :
    (Runtime.closeLog log fin fr).erased = Runtime.closeLog log.erased fin fr := by
  unfold Runtime.closeLog
  cases fin <;> rfl

namespace SameButPrices

variable {Γ : Crypto} {s s' : RuntimeState} {round : RoundId}

theorem ownCommitment_cases (h : SameButPrices s s') (Γ : Crypto) (round : RoundId) (n : NodeId) :
    (ownCommitment Γ s round n = none ∧ ownCommitment Γ s' round n = none) ∨
      ∃ c c', ownCommitment Γ s round n = some c ∧ ownCommitment Γ s' round n = some c' ∧ c'.erased = c.erased := by
  unfold ownCommitment
  rw [h.scenario]
  split
  · exact Or.inl ⟨rfl, rfl⟩
  · rcases h.buildCommitment Γ n round round with ⟨e, he, he'⟩ | ⟨c, c', hc, hc', hsame⟩
    · rw [he, he']
      exact Or.inl ⟨rfl, rfl⟩
    · rw [hc, hc']
      exact Or.inr ⟨c, c', rfl, rfl, hsame rfl⟩

theorem nodeEntries (h : SameButPrices s s') (n : NodeId) :
    (nodeEntries Γ s' round n).erased = (nodeEntries Γ s round n).erased := by
  unfold VertexVeil.nodeEntries
  rw [h.scenario]
  rcases h.ownCommitment_cases Γ round n with ⟨hc, hc'⟩ | ⟨c, c', hc, hc', hsame⟩
  · rw [hc, hc']
  · rw [hc, hc']
    simp only [Entries.erased, Option.toList_some, List.map_cons, hsame]

theorem commitEntries (h : SameButPrices s s') : (commitEntries Γ s' round).erased = (commitEntries Γ s round).erased := by
  unfold VertexVeil.commitEntries
  rw [Entries.erased_append, Entries.erased_append, Entries.erased_concat, Entries.erased_concat, List.map_map, List.map_map,
    h.keys, h.scenario]
  have hnodes : Entries.erased ∘ VertexVeil.nodeEntries Γ s' round = Entries.erased ∘ VertexVeil.nodeEntries Γ s round :=
    funext h.nodeEntries
  rw [hnodes]

/-- What a participant's proof appends is, but for its contents, a matter of whether it has committed and of the scenario. -/
theorem proofEntries (h : SameButPrices s s') (n : NodeId) :
    ((ownCommitment Γ s' round n).elim {} (proofEntries Γ s' round n)).erased =
      ((ownCommitment Γ s round n).elim {} (proofEntries Γ s round n)).erased := by
  rcases h.ownCommitment_cases Γ round n with ⟨hc, hc'⟩ | ⟨c, c', hc, hc', -⟩
  · rw [hc, hc']
    rfl
  · rw [hc, hc', Option.elim_some, Option.elim_some]
    unfold VertexVeil.proofEntries
    rw [h.schedule]
    split <;> rfl

/-- The seed of a provider is no price. -/
theorem receiptSignatureHex (h : SameButPrices s s') (Γ : Crypto) (n : NodeId) (round : RoundId) (capability : Text) :
    s'.receiptSignatureHex Γ n round capability = s.receiptSignatureHex Γ n round capability := by
  have hseed : ∀ x : RuntimeState, (x.agents[n]?.bind (·.provider)).bind (·.signingSecretKey) =
      ((x.agents[n]?.map AgentState.unpriced).bind (·.provider)).bind (·.signingSecretKey) := by
    intro x
    cases x.agents[n]? with
    | none => rfl
    | some a =>
      simp only [Option.bind_some, Option.map_some, AgentState.unpriced]
      cases a.provider <;> rfl
  unfold RuntimeState.receiptSignatureHex
  rw [hseed, hseed, h.agents]

theorem receiptEntries (h : SameButPrices s s') (p : ProposalRecord) :
    receiptEntries Γ s' round p = receiptEntries Γ s round p := by
  unfold VertexVeil.receiptEntries
  rw [h.schedule, h.receiptSignatureHex]

theorem closingEntries (h : SameButPrices s s') :
    (closingEntries Γ s' round).erased = (closingEntries Γ s round).erased := by
  unfold VertexVeil.closingEntries
  rw [h.topology, h.scenario]
  split
  · rfl
  · split
    · rfl
    · split
      · split
        · rfl
        · unfold matchEntries
          simp only [Entries.erased_append, h.proofEntries, h.receiptEntries]
      · rfl

/-- What a round appends differs in the digests of the commitments and the contents of the proofs alone. -/
theorem entries (h : SameButPrices s s') (round : RoundId) :
    (entries Γ s' round).erased = (entries Γ s round).erased := by
  unfold VertexVeil.entries
  rw [Entries.erased_append, Entries.erased_append, h.commitEntries, h.closingEntries]

/-- And so does what a run appends. -/
theorem runEntries (h : SameButPrices s s') (rounds finalRound : RoundId) :
    (runEntries Γ s' rounds finalRound).erased = (runEntries Γ s rounds finalRound).erased := by
  by_cases h0 : rounds = 0
  · simp only [VertexVeil.runEntries, h0, if_true]
  · rw [runEntries_eq h0, runEntries_eq h0, Entries.erased_concat, Entries.erased_concat, List.map_map, List.map_map]
    refine congrArg Entries.concat (List.map_congr_left ?_)
    intro k _
    exact h.entries _

end SameButPrices

/-! ## Runs that fail -/

section

variable {Γ : Crypto} {s₀ s s' : RuntimeState} {round : RoundId}

/-- The commitments of the nodes are broadcast by both or by neither, with the same error. -/
theorem SameButPrices.broadcastCommitmentsOf (h : SameButPrices s s') (nodes : List NodeId) :
    (∃ msgs msgs' e, s.broadcastCommitmentsOf Γ round nodes = (msgs, .error e) ∧
        s'.broadcastCommitmentsOf Γ round nodes = (msgs', .error e)) ∨
      ∃ msgs x, s.broadcastCommitmentsOf Γ round nodes = (msgs, .ok x) := by
  induction nodes generalizing s s' with
  | nil => exact Or.inr ⟨[], s, rfl⟩
  | cons n nodes ih =>
    have hstep : (∃ msgs msgs' e, s.broadcastCommitment Γ round n = (msgs, .error e) ∧
        s'.broadcastCommitment Γ round n = (msgs', .error e)) ∨
        ∃ msgs msgs' x x', s.broadcastCommitment Γ round n = (msgs, .ok x) ∧
          s'.broadcastCommitment Γ round n = (msgs', .ok x') ∧ SameConfig s x ∧ SameConfig s' x' := by
      unfold RuntimeState.broadcastCommitment
      rw [h.scenario]
      split
      · exact Or.inr ⟨_, _, _, _, rfl, rfl, ⟨rfl, rfl, rfl, rfl, rfl⟩, ⟨rfl, rfl, rfl, rfl, rfl⟩⟩
      · rcases h.buildCommitment Γ n round round with ⟨e, he, he'⟩ | ⟨c, c', hc, hc', -⟩
        · rw [he, he']
          exact Or.inl ⟨_, _, e, rfl, rfl⟩
        · rw [hc, hc']
          exact Or.inr ⟨_, _, _, _, rfl, rfl, ⟨rfl, rfl, rfl, rfl, rfl⟩, ⟨rfl, rfl, rfl, rfl, rfl⟩⟩
    rcases hstep with ⟨msgs, msgs', e, he, he'⟩ | ⟨msgs, msgs', x, x', hx, hx', hconf, hconf'⟩
    · simp only [RuntimeState.broadcastCommitmentsOf, Emit.andThen, he, he']
      exact Or.inl ⟨_, _, e, rfl, rfl⟩
    · simp only [RuntimeState.broadcastCommitmentsOf, Emit.andThen, hx, hx']
      rcases ih (h.of_config hconf hconf') with ⟨m, m', e, he, he'⟩ | ⟨m, y, hy⟩
      · rw [he, he']
        exact Or.inl ⟨_, _, e, rfl, rfl⟩
      · rw [hy]
        exact Or.inr ⟨_, y, rfl⟩

theorem SameButPrices.broadcastCommitments (h : SameButPrices s s') (Γ : Crypto) (round : RoundId) :
    (∃ msgs msgs' e, s.broadcastCommitments Γ round = (msgs, .error e) ∧
        s'.broadcastCommitments Γ round = (msgs', .error e)) ∨ ∃ msgs x, s.broadcastCommitments Γ round = (msgs, .ok x) := by
  unfold RuntimeState.broadcastCommitments
  rw [h.keys]
  exact h.broadcastCommitmentsOf _

/-- What a node that has not dropped broadcasts in a commitment phase that succeeds is built. -/
theorem built_of_broadcast (hconf : SameConfig s₀ s) {nodes : List NodeId} {msgs : List CoordinationMessage}
    (hb : s.broadcastCommitmentsOf Γ round nodes = (msgs, .ok s')) :
    ∀ n ∈ nodes, s₀.scenario.hasDropped n round = false → ∃ c, s₀.buildCommitment Γ n round = .ok c := by
  induction nodes generalizing s msgs with
  | nil =>
    intro n hn
    exact absurd hn List.not_mem_nil
  | cons k nodes ih =>
    unfold RuntimeState.broadcastCommitmentsOf Emit.andThen at hb
    cases hk : s.broadcastCommitment Γ round k with
    | mk m res =>
      cases res with
      | error e =>
        rw [hk] at hb
        simp at hb
      | ok x =>
        rw [hk] at hb
        simp only [Prod.mk.injEq] at hb
        have hx : SameConfig s x ∧ (s.scenario.hasDropped k round = false → ∃ c, s.buildCommitment Γ k round = .ok c) := by
          unfold RuntimeState.broadcastCommitment at hk
          split at hk
          · rename_i hd
            simp only [Prod.mk.injEq, Except.ok.injEq] at hk
            obtain ⟨-, rfl⟩ := hk
            refine ⟨⟨rfl, rfl, rfl, rfl, rfl⟩, ?_⟩
            intro hnot
            rw [hd] at hnot
            simp at hnot
          · split at hk
            · simp at hk
            · rename_i c hc
              simp only [Prod.mk.injEq, Except.ok.injEq] at hk
              obtain ⟨-, rfl⟩ := hk
              exact ⟨⟨rfl, rfl, rfl, rfl, rfl⟩, fun _ => ⟨c, hc⟩⟩
        intro n hn hd
        rcases List.mem_cons.mp hn with rfl | hn
        · rw [← hconf.buildCommitment]
          exact hx.2 (hconf.scenario ▸ hd)
        · exact ih (hconf.trans hx.1) (Prod.ext rfl hb.2) n hn hd

/-- A state that has broadcast the commitments of its first round builds all of them: no node has dropped, and whether a
commitment is built is no matter of the round. -/
theorem buildable_of_broadcast {msgs : List CoordinationMessage}
    (hb : s₀.broadcastCommitments Γ 0 = (msgs, .ok s')) : Buildable Γ s₀ := by
  intro n hn r
  have hd : s₀.scenario.hasDropped n 0 = false := by
    rw [← Bool.not_eq_true]
    intro hd
    obtain ⟨e, -, he⟩ := List.any_eq_true.mp hd
    cases e <;> simp at he
  obtain ⟨c, hc⟩ := built_of_broadcast (.refl s₀) hb n (Std.TreeMap.mem_keys.mpr hn) hd
  rcases (SameButPrices.refl s₀).buildCommitment Γ n 0 r with ⟨e, he, -⟩ | ⟨-, c', -, hc', -⟩
  · rw [hc] at he
    simp at he
  · exact ⟨c', hc'⟩

/-- A run whose first commitment phase fails does. -/
theorem Runtime.run_of_broadcast_error {t : TopologyConfig} {agents : Agents} {scenario : Scenario} {maxRounds : UInt64}
    {salt : Bytes 32} {runId : String} {bus : OrderedBus} {msgs : List CoordinationMessage} {e : Fault RuntimeError}
    (h0 : maxRounds ≠ 0)
    (hb : (RuntimeState.starting t agents scenario maxRounds salt runId).broadcastCommitments Γ 0 = (msgs, .error e)) :
    run Γ runId (({ state := .initial t agents scenario maxRounds, transport := bus } : Runtime OrderedBus).withRunSalt salt) =
      .error e := by
  obtain ⟨k, hk⟩ : ∃ k, maxRounds.toNat = k + 1 := by
    refine Nat.exists_eq_succ_of_ne_zero fun h => h0 ?_
    exact UInt64.toNat_inj.mp h
  have hemit : emit bus ((RuntimeState.starting t agents scenario maxRounds salt runId).broadcastCommitments Γ 0) =
      .error e := by
    simp only [hb, emit, OrderedBus.broadcastAll_eq]
  have hround : runOneRound Γ 0 ⟨.starting t agents scenario maxRounds salt runId, bus⟩ = .error e := by
    simp only [runOneRound, hemit, bind, Except.bind]
  have hrounds : runRounds Γ maxRounds.toNat 0 ⟨.starting t agents scenario maxRounds salt runId, bus⟩ = .error e := by
    have hcur : (RuntimeState.starting t agents scenario maxRounds salt runId).roundMachine.current = 0 := rfl
    simp only [hk, runRounds, hcur, hround, bind, Except.bind]
  unfold run runWithTransport
  change Except.bind (Except.bind (runRounds Γ maxRounds.toNat 0 ⟨.starting t agents scenario maxRounds salt runId, bus⟩) _) _ =
    _
  rw [hrounds]
  rfl

end

end VertexVeil
