import Mathlib.Data.Finset.Max
import VertexVeil.Lemmas.InProcess

/-!
# Helpers for `Theorems/Progress.lean`: in-process runs that return, and which of their rounds are finalized

`CollisionFree` is the only assumption on the hash: it has no collision among the preimages of all agents in all rounds below the
maximum, also of those that have dropped and of rounds that do not come to be run. Distinct nodes and rounds have distinct preimages,
so every node that has not dropped is accepted in every round, and whether a round is finalized is decided by the scenario.
-/

namespace VertexVeil

open Codec RuntimeState

/-! ## Preimages -/

/-- The preimage of a node's commitment of a round. -/
def commitPreimage (Γ : Crypto) (agents : Agents) (salt : Bytes 32) (n : NodeId) (r : RoundId) : Option (List UInt8) :=
  agents[n]?.bind fun agent =>
    match agent.role with
    | .requester => agent.requester.bind fun i => (buildRequesterPreimage i (deriveTestNonce Γ n r salt) r).toOption
    | .provider => agent.provider.bind fun i => (buildProviderPreimage i (deriveTestNonce Γ n r salt) r).toOption

/-- The preimages of all agents' commitments of the first rounds, whether they are made or not. -/
def commitPreimages (Γ : Crypto) (agents : Agents) (salt : Bytes 32) (rounds : UInt64) : List (List UInt8) :=
  agents.keys.flatMap fun n =>
    (List.range rounds.toNat).filterMap fun r => commitPreimage Γ agents salt n (UInt64.ofNat r)

/-- The hash has no collision among all agents' commitments of the first rounds. -/
def CollisionFree (Γ : Crypto) (agents : Agents) (salt : Bytes 32) (rounds : UInt64) : Prop :=
  ∀ p ∈ commitPreimages Γ agents salt rounds, ∀ q ∈ commitPreimages Γ agents salt rounds,
    Γ.blake2s256 p = Γ.blake2s256 q → p = q

/-- Without collisions in some rounds there are none in fewer. -/
theorem CollisionFree.mono {Γ : Crypto} {agents : Agents} {salt : Bytes 32} {rounds rounds' : UInt64}
    (h : CollisionFree Γ agents salt rounds) (hle : rounds' ≤ rounds) : CollisionFree Γ agents salt rounds' := by
  have hmem : ∀ p ∈ commitPreimages Γ agents salt rounds', p ∈ commitPreimages Γ agents salt rounds := by
    intro p hp
    obtain ⟨n, hn, hp⟩ := List.mem_flatMap.mp hp
    obtain ⟨r, hr, hp⟩ := List.mem_filterMap.mp hp
    have hr := Nat.lt_of_lt_of_le (List.mem_range.mp hr) (UInt64.le_iff_toNat_le.mp hle)
    exact List.mem_flatMap.mpr ⟨n, hn, List.mem_filterMap.mpr ⟨r, List.mem_range.mpr hr, hp⟩⟩
  intro p hp q hq he
  exact h p (hmem p hp) q (hmem q hq) he

/-- The tags and claim counts of a topology fit the slots of the preimages. -/
def FitsLimits (t : TopologyConfig) : Prop :=
  ∀ n ∈ t.nodes, (∀ cap ∈ n.requiredCapability, (asBytes cap.asStr).length ≤ maxCapabilityBytes) ∧
    n.capabilityClaims.length ≤ maxCapabilityClaims ∧
    ∀ cap ∈ n.capabilityClaims, (asBytes cap.asStr).length ≤ maxCapabilityBytes

section

variable {Γ : Crypto} {s₀ s s' : RuntimeState} {round rounds : RoundId}

theorem mem_commitPreimages {n : NodeId} {r : RoundId} {p : List UInt8} (hn : n ∈ s₀.agents) (hr : r < rounds)
    (h : commitPreimage Γ s₀.agents s₀.runSalt n r = some p) : p ∈ commitPreimages Γ s₀.agents s₀.runSalt rounds := by
  refine List.mem_flatMap.mpr ⟨n, Std.TreeMap.mem_keys.mpr hn, List.mem_filterMap.mpr ⟨r.toNat, ?_, ?_⟩⟩
  · exact List.mem_range.mpr (UInt64.lt_iff_toNat_lt.mp hr)
  · rw [UInt64.ofNat_toNat]
    exact h

/-- A commitment is the digest of its preimage. -/
theorem preimage_of_builds {n : NodeId} {r : RoundId} {c : CommitmentRecord} (h : Builds Γ s₀ n r c) :
    ∃ p, commitPreimage Γ s₀.agents s₀.runSalt n r = some p ∧ c.commitmentHex = hexEncode (Γ.blake2s256 p).toList := by
  cases h with
  | requester ha _ hrole hi hcommit _ =>
    obtain ⟨p, hp, hd⟩ := Except.bind_eq_ok hcommit
    simp only [pure, Except.pure, Except.ok.injEq] at hd
    refine ⟨p, ?_, by rw [hd]⟩
    simp only [commitPreimage, ha, Option.bind_some, hrole, hi, hp]
    rfl
  | provider ha _ hrole hi hcommit =>
    obtain ⟨p, hp, hd⟩ := Except.bind_eq_ok hcommit
    simp only [pure, Except.pure, Except.ok.injEq] at hd
    refine ⟨p, ?_, by rw [hd]⟩
    simp only [commitPreimage, ha, Option.bind_some, hrole, hi, hp]
    rfl

/-- A preimage spells the round and the node, after a domain tag of one length for requesters and another for providers. -/
theorem spells_of_preimage (ha : AgentsOf Γ s₀.topology s₀.agents) {n : NodeId} {r : RoundId} {p : List UInt8}
    (h : commitPreimage Γ s₀.agents s₀.runSalt n r = some p) :
    (p.length = requesterPreimageLen ∧ sliceAt p 36 8 = beBytes 8 r.toNat ∧ sliceAt p 44 32 = n.bytes.toList) ∨
      (p.length = providerPreimageLen ∧ sliceAt p 35 8 = beBytes 8 r.toNat ∧ sliceAt p 43 32 = n.bytes.toList) := by
  obtain ⟨agent, hagent, h⟩ := Option.bind_eq_some_iff.mp h
  obtain ⟨node, hnode, hacts⟩ := ha n agent hagent
  have hid := (TopologyConfig.findNode_some hnode).2
  cases hacts with
  | requester i _ hi _ _ =>
    simp only [AgentState.ofRequester, Option.bind_some] at h
    cases hb : buildRequesterPreimage i (deriveTestNonce Γ n r s₀.runSalt) r with
    | error e =>
      rw [hb] at h
      simp [Except.toOption] at h
    | ok q =>
      rw [hb] at h
      obtain rfl : q = p := Option.some.inj h
      obtain ⟨h1, h2, h3⟩ := buildRequesterPreimage_spells hb
      exact Or.inl ⟨h1, h2, by rw [h3, hi, hid]⟩
  | provider i _ hi _ _ =>
    simp only [AgentState.ofProvider, Option.bind_some] at h
    cases hb : buildProviderPreimage i (deriveTestNonce Γ n r s₀.runSalt) r with
    | error e =>
      rw [hb] at h
      simp [Except.toOption] at h
    | ok q =>
      rw [hb] at h
      obtain rfl : q = p := Option.some.inj h
      obtain ⟨h1, h2, h3⟩ := buildProviderPreimage_spells hb
      exact Or.inr ⟨h1, h2, by rw [h3, hi, hid]⟩

/-- A preimage determines its node and its round. -/
theorem commitPreimage_inj (ha : AgentsOf Γ s₀.topology s₀.agents) {n n' : NodeId} {r r' : RoundId} {p : List UInt8}
    (h : commitPreimage Γ s₀.agents s₀.runSalt n r = some p) (h' : commitPreimage Γ s₀.agents s₀.runSalt n' r' = some p) :
    n = n' ∧ r = r' := by
  have hlen : requesterPreimageLen ≠ providerPreimageLen := by decide
  rcases spells_of_preimage ha h with ⟨hl, hr, hn⟩ | ⟨hl, hr, hn⟩ <;>
    rcases spells_of_preimage ha h' with ⟨hl', hr', hn'⟩ | ⟨hl', hr', hn'⟩
  · exact ⟨NodeId.ext_bytes (hn.symm.trans hn'), RoundId.ext_bytes (hr.symm.trans hr')⟩
  · exact absurd (hl.symm.trans hl') hlen
  · exact absurd (hl'.symm.trans hl) hlen
  · exact ⟨NodeId.ext_bytes (hn.symm.trans hn'), RoundId.ext_bytes (hr.symm.trans hr')⟩

/-- Without collisions a digest determines the node and the round of an own commitment. -/
theorem own_of_hex (ha : AgentsOf Γ s₀.topology s₀.agents) (hcf : CollisionFree Γ s₀.agents s₀.runSalt rounds) {n n' : NodeId}
    {r r' : RoundId} {c c' : CommitmentRecord} (hr : r < rounds) (hr' : r' < rounds) (h : Own Γ s₀ n r c)
    (h' : Own Γ s₀ n' r' c') (he : c.commitmentHex = c'.commitmentHex) : n = n' ∧ r = r' := by
  obtain ⟨p, hp, hc⟩ := preimage_of_builds h.builds
  obtain ⟨p', hp', hc'⟩ := preimage_of_builds h'.builds
  have hpp : p = p' := hcf p (mem_commitPreimages h.builds.mem_agents hr hp) p'
    (mem_commitPreimages h'.builds.mem_agents hr' hp')
    (List.Vector.toList_injective (hexEncode_inj (hc.symm.trans (he.trans hc'))))
  exact commitPreimage_inj ha hp (hpp ▸ hp')

/-! ## Commitments that are built -/

theorem asBytes_ne_nil {s : Text} (h : s ≠ []) : asBytes s ≠ [] := by
  obtain ⟨c, cs, rfl⟩ := List.exists_cons_of_ne_nil h
  intro h0
  have hl := congrArg List.length h0
  simp only [asBytes, List.flatMap_cons, List.length_append, String.length_utf8EncodeChar, List.length_nil] at hl
  have := c.utf8Size_pos
  omega

theorem checkClaims_of_fits {claims : List CapabilityTag} (hne : ∀ c ∈ claims, c.asStr ≠ [])
    (hfit : ∀ c ∈ claims, (asBytes c.asStr).length ≤ maxCapabilityBytes) : checkClaims claims = .ok () := by
  induction claims with
  | nil => rfl
  | cons c cs ih =>
    have h1 := asBytes_ne_nil (hne c List.mem_cons_self)
    have h2 := Nat.not_lt.mpr (hfit c List.mem_cons_self)
    simp only [checkClaims, h1, if_false, gt_iff_lt, h2]
    exact ih (fun d hd => hne d (List.mem_cons_of_mem _ hd)) (fun d hd => hfit d (List.mem_cons_of_mem _ hd))

/-- Every agent's commitments are built. -/
def Buildable (Γ : Crypto) (s : RuntimeState) : Prop := ∀ n ∈ s.agents, ∀ r, ∃ c, s.buildCommitment Γ n r = .ok c

/-- Where the limits are kept, every agent's commitments are built. -/
theorem FitsLimits.buildable (hfit : FitsLimits s₀.topology) (ht : s₀.topology.WellFormed Γ)
    (ha : AgentsOf Γ s₀.topology s₀.agents) : Buildable Γ s₀ := by
  intro n hn r
  obtain ⟨agent, hagent⟩ := Option.isSome_iff_exists.mp (Std.TreeMap.mem_iff_isSome_getElem?.mp hn)
  obtain ⟨node, hnode, hacts⟩ := ha n agent hagent
  obtain ⟨hmem, -⟩ := TopologyConfig.findNode_some hnode
  obtain ⟨hreq, hcount, hclaims⟩ := hfit node hmem
  cases hacts with
  | requester i hrole _ hcap _ =>
    obtain ⟨tag, -, htag, hne⟩ := ht.required node hmem hrole
    rw [hcap, Option.some.injEq] at htag
    have h1 := asBytes_ne_nil (htag ▸ hne : i.requiredCapability.asStr ≠ [])
    have h2 := Nat.not_lt.mpr (hreq _ hcap)
    simp only [buildCommitment, hagent, hnode, AgentState.ofRequester, commitRequester, buildRequesterPreimage, h1, if_false,
      gt_iff_lt, h2, hcap]
    exact ⟨_, rfl⟩
  | provider i hrole _ hcap _ =>
    obtain ⟨hne, htags⟩ := ht.claims node hmem hrole
    rw [hcap] at hne htags hcount hclaims
    have h1 := Nat.not_lt.mpr hcount
    have h2 := checkClaims_of_fits (fun c hc => (htags c hc).2) hclaims
    simp only [buildCommitment, hagent, hnode, AgentState.ofProvider, commitProvider, buildProviderPreimage, hne, if_false,
      gt_iff_lt, h1, h2]
    exact ⟨_, rfl⟩

theorem broadcastCommitmentsOf_of_buildable (hbuild : Buildable Γ s₀) {nodes : List NodeId} (hn : ∀ n ∈ nodes, n ∈ s₀.agents)
    (hconf : SameConfig s₀ s) :
    ∃ msgs s', s.broadcastCommitmentsOf Γ round nodes = (msgs, .ok s') := by
  induction nodes generalizing s with
  | nil => exact ⟨[], s, rfl⟩
  | cons n nodes ih =>
    have hstep : ∃ msgs s₁, s.broadcastCommitment Γ round n = (msgs, .ok s₁) ∧ SameConfig s₀ s₁ := by
      unfold broadcastCommitment
      split
      · exact ⟨_, _, rfl, ⟨hconf.1, hconf.2, hconf.3, hconf.4, hconf.5⟩⟩
      · obtain ⟨c, hc⟩ := hbuild n (hn n List.mem_cons_self) round
        simp only [hconf.buildCommitment Γ n round, hc]
        exact ⟨_, _, rfl, ⟨hconf.1, hconf.2, hconf.3, hconf.4, hconf.5⟩⟩
    obtain ⟨msgs, s₁, h₁, hs₁⟩ := hstep
    obtain ⟨msgs', s', h'⟩ := ih (fun k hk => hn k (List.mem_cons_of_mem _ hk)) hs₁
    exact ⟨msgs ++ msgs', s', by simp only [broadcastCommitmentsOf, Emit.andThen, h₁, h']⟩

/-! ## Rounds that return -/

namespace Runtime

theorem emit_inProcess {α : Type} {e : Emit α} {msgs : List CoordinationMessage} {a : α} (h : e = (msgs, .ok a)) :
    emit ({ queue := [] } : OrderedBus) e = .ok (a, { queue := msgs }) := by
  simp only [emit, h, OrderedBus.broadcastAll_eq, List.nil_append]

theorem receive_inProcess (phase : Phase) (msgs : List CoordinationMessage) :
    receive round phase ({ queue := msgs } : OrderedBus) = (msgs, { queue := [] }) :=
  OrderedBus.deliver_eq _ _ _

theorem receiptPhase_returns (p : ProposalRecord) (s : RuntimeState) :
    ∃ o rt', receiptPhase Γ round p ⟨s, ({ queue := [] } : OrderedBus)⟩ = .ok (o, rt') := by
  obtain ⟨msgs, h⟩ : ∃ msgs, s.broadcastReceipt Γ round p = (msgs, .ok ()) := by
    unfold broadcastReceipt
    dsimp only
    split
    · exact ⟨_, rfl⟩
    · exact ⟨_, rfl⟩
  simp only [receiptPhase, emit_inProcess h, bind, Except.bind]
  exact ⟨_, _, rfl⟩

theorem proofPhase_returns (hloc : AllLocal s₀) (ht : s₀.topology.WellFormed Γ) (h : InRound Γ s₀ round s)
    {p : ProposalRecord} (hp : Picked s₀ s.roundMachine p) :
    ∃ o rt', proofPhase Γ round p ⟨s, ({ queue := [] } : OrderedBus)⟩ = .ok (o, rt') := by
  obtain ⟨n, hn, hpr, -⟩ := hp.requester
  obtain ⟨n', hn', hmem, -⟩ := ht.requester_unique
  obtain rfl : n' = n := Option.some.inj (hn'.symm.trans hn)
  obtain ⟨⟨node, hnode, hnid, -⟩, hin⟩ := hp.least.1
  have hloc' : ∀ k ∈ s₀.topology.nodes, k.id ∈ s.agents := fun k hk => h.config.agents ▸ hloc k hk
  obtain ⟨cr, hcr⟩ := Option.isSome_iff_exists.mp (Std.TreeMap.mem_iff_isSome_getElem?.mp hp.committed)
  obtain ⟨cp, hcp⟩ := Option.isSome_iff_exists.mp (Std.TreeMap.mem_iff_isSome_getElem?.mp hin)
  have hb := broadcastProofs_eq Γ round (hpr ▸ hloc' n' hmem) (hnid ▸ hloc' node hnode) hcr hcp
  simp only [proofPhase, emit_inProcess hb, bind, Except.bind, receive_inProcess]
  split
  · exact receiptPhase_returns p _
  · exact ⟨_, _, rfl⟩

theorem proposalPhase_returns (ht : s₀.topology.WellFormed Γ) (ha : AgentsOf Γ s₀.topology s₀.agents) (hloc : AllLocal s₀)
    (h : InRound Γ s₀ round s) (hr : RequesterIn s) (hp : s.roundMachine.proposal = none) :
    ∃ o rt', proposalPhase Γ round ⟨s, ({ queue := [] } : OrderedBus)⟩ = .ok (o, rt') := by
  obtain ⟨n, hn, hmem⟩ := id hr
  rw [h.config.topology] at hn
  obtain ⟨req, hreq⟩ := Option.isSome_iff_exists.mp (Std.TreeMap.mem_iff_isSome_getElem?.mp hmem)
  obtain ⟨cap, -, ⟨-, _, -, hb⟩ | ⟨p, -, -, -, -, hb⟩⟩ := h.broadcastProposal_eq ht ha hloc hn hreq hp
  · simp only [proposalPhase, emit_inProcess hb, bind, Except.bind, Bool.false_eq_true, not_false_eq_true, if_true]
    exact ⟨_, _, rfl⟩
  · have hdone := ProposalDone.intro (R := inProcess) (s := s) hb rfl
    obtain ⟨q, hq, -, hround, he⟩ := h.proposalDone ht ha hloc hr hp hdone
    have hin := h.of_same hdone.frame hdone.sameCommitments (h.ledger.proposalDone ht hdone)
    have hlast : (s.drainProposal round [{ origin := p.proposer, payload := .proposal p }]).log.proposalOf round = some q := by
      rw [he, ← hround]
      exact proposalOf_takeProposal s q
    simp only [proposalPhase, emit_inProcess hb, bind, Except.bind, not_true_eq_false, if_false, receive_inProcess, hlast]
    exact proofPhase_returns hloc ht hin (hq.of_commitments hdone.sameCommitments.machine)

/-- Every round of an in-process run returns, when its commitments are built. -/
theorem runOneRound_returns (ht : s₀.topology.WellFormed Γ) (ha : AgentsOf Γ s₀.topology s₀.agents) (hloc : AllLocal s₀)
    (hbuild : Buildable Γ s₀) (h : InProcess Γ s₀ s) :
    ∃ o rt', runOneRound Γ s.roundMachine.current ⟨s, ({ queue := [] } : OrderedBus)⟩ = .ok (o, rt') := by
  obtain ⟨msgs, s₁, hb⟩ : ∃ msgs s₁, s.broadcastCommitments Γ s.roundMachine.current = (msgs, .ok s₁) :=
    broadcastCommitmentsOf_of_buildable hbuild (fun n hn => h.config.agents ▸ Std.TreeMap.mem_keys.mp hn) h.config
  have hdone := CommitmentsDone.intro (R := inProcess) (s := s) hb rfl
  have hin := h.inRound ht ha hdone
  have hnone : (s₁.drainCommitments s.roundMachine.current msgs).roundMachine.proposal = none :=
    hdone.proposal.trans h.unproposed
  obtain ⟨n, hn, -⟩ := ht.requester_unique
  rw [← hin.config.topology] at hn
  simp only [runOneRound, emit_inProcess hb, bind, Except.bind, receive_inProcess, hn]
  split
  · exact ⟨_, _, rfl⟩
  · rename_i hmem
    exact proposalPhase_returns ht ha hloc hin ⟨n, hn, by simpa using hmem⟩ hnone

end Runtime

/-! ## Which rounds are finalized -/

/-- The providers that claim the requester's capability and have not dropped by a round. -/
def Willing (t : TopologyConfig) (scenario : Scenario) (cap : CapabilityTag) (r : RoundId) (k : NodeId) : Prop :=
  (∃ node ∈ t.nodes, node.id = k ∧ node.role = .provider ∧ cap ∈ node.capabilityClaims) ∧
    scenario.hasDropped k r = false

/-- Where some provider is willing there is a least one. -/
theorem exists_winner {t : TopologyConfig} {scenario : Scenario} {cap : CapabilityTag} {r : RoundId} {k : NodeId}
    (h : Willing t scenario cap r k) : ∃ winner, IsLeast {k | Willing t scenario cap r k} winner := by
  classical
  obtain ⟨S, hS⟩ : ∃ S, S = (t.nodes.map (·.id)).toFinset.filter (Willing t scenario cap r) := ⟨_, rfl⟩
  have hmem : ∀ k, k ∈ S ↔ Willing t scenario cap r k := by
    intro k
    rw [hS, Finset.mem_filter, List.mem_toFinset]
    refine ⟨fun hk => hk.2, fun hk => ⟨?_, hk⟩⟩
    obtain ⟨⟨node, hnode, rfl, -⟩, -⟩ := hk
    exact List.mem_map.mpr ⟨node, hnode, rfl⟩
  have hne : S.Nonempty := ⟨k, (hmem k).mpr h⟩
  exact ⟨S.min' hne, (hmem _).mp (S.min'_mem hne), fun j hj => S.min'_le j ((hmem j).mpr hj)⟩

/-- A round in which the requester has not dropped and neither it nor the least willing provider tampers with its proof. -/
def CleanRound (t : TopologyConfig) (scenario : Scenario) (r : RoundId) : Prop :=
  ∃ n cap winner, t.requester = some n ∧ n.requiredCapability = some cap ∧ scenario.hasDropped n.id r = false ∧
    IsLeast {k | Willing t scenario cap r k} winner ∧ ScenarioEvent.injectInvalidProof n.id r ∉ scenario.events ∧
    ScenarioEvent.injectInvalidProof winner r ∉ scenario.events

/-- A machine that holds in a round the nodes' own commitments, all of them. -/
def HoldsOwn (Γ : Crypto) (s₀ : RuntimeState) (round : RoundId) (m : RoundMachine) : Prop :=
  ∀ n c, m.commitments[n]? = some c ↔ Own Γ s₀ n round c

theorem HoldsOwn.congr {m m' : RoundMachine} (h : HoldsOwn Γ s₀ round m) (he : m'.commitments = m.commitments) :
    HoldsOwn Γ s₀ round m' := by
  intro n c
  rw [he]
  exact h n c

/-- The nodes with a commitment are those that have not dropped. -/
theorem HoldsOwn.mem_iff (hbuild : Buildable Γ s₀) {m : RoundMachine} (h : HoldsOwn Γ s₀ round m) {n : NodeId}
    (hn : n ∈ s₀.agents) : n ∈ m.commitments ↔ s₀.scenario.hasDropped n round = false := by
  rw [Std.TreeMap.mem_iff_isSome_getElem?, Option.isSome_iff_exists]
  constructor
  · rintro ⟨c, hc⟩
    exact ((h n c).mp hc).1
  · intro hd
    obtain ⟨c, hc⟩ := hbuild n hn round
    exact ⟨c, (h n c).mpr ⟨hd, hc⟩⟩

/-- The providers that may be matched are the willing ones. -/
theorem HoldsOwn.claimants_eq (hloc : AllLocal s₀) (hbuild : Buildable Γ s₀) {m : RoundMachine} (h : HoldsOwn Γ s₀ round m)
    (cap : CapabilityTag) :
    {k | Claimant s₀.topology cap m k} = {k | Willing s₀.topology s₀.scenario cap round k} := by
  ext k
  constructor
  · rintro ⟨⟨node, hnode, rfl, hr, hc⟩, hin⟩
    exact ⟨⟨node, hnode, rfl, hr, hc⟩, (h.mem_iff hbuild (hloc node hnode)).mp hin⟩
  · rintro ⟨⟨node, hnode, rfl, hr, hc⟩, hd⟩
    exact ⟨⟨node, hnode, rfl, hr, hc⟩, (h.mem_iff hbuild (hloc node hnode)).mpr hd⟩

/-- Without collisions the machine holds every node's own commitment after the commitment phase. -/
theorem InProcess.holdsOwn (ha : AgentsOf Γ s₀.topology s₀.agents) (hcf : CollisionFree Γ s₀.agents s₀.runSalt rounds)
    (h : InProcess Γ s₀ s) (hlt : s.roundMachine.current < rounds) : HoldsOwn Γ s₀ s.roundMachine.current
      (s₀.agents.keys.foldl (ownStep Γ s₀ s.roundMachine.current) s.roundMachine) := by
  intro n c
  constructor
  · intro hc
    rcases own_of_ownSteps hc with hc | hc
    · exact absurd (Std.TreeMap.mem_iff_isSome_getElem?.mpr (by rw [hc]; rfl)) (h.empty n)
    · exact hc
  · intro hown
    refine held_of_own (Std.TreeMap.nodup_keys (t := s₀.agents)) (Std.TreeMap.mem_keys.mpr hown.builds.mem_agents) hown ?_ ?_
    · intro hseen
      obtain ⟨k, r, d, hr, hd, hx⟩ := h.history _ hseen
      have := (own_of_hex ha hcf (UInt64.lt_trans hr hlt) hlt hd hown hx).2
      exact UInt64.ne_of_lt hr this
    · intro k d hd he
      exact (own_of_hex ha hcf hlt hlt hd hown he).1

theorem Ended.holdsOwn (ha : AgentsOf Γ s₀.topology s₀.agents) (hcf : CollisionFree Γ s₀.agents s₀.runSalt rounds)
    (h : InProcess Γ s₀ s) (hlt : s.roundMachine.current < rounds) {o : RoundOutcome}
    (he : Ended Γ s₀ s s.roundMachine.current o s') : HoldsOwn Γ s₀ s.roundMachine.current s'.roundMachine :=
  (h.holdsOwn ha hcf hlt).congr he.machine

/-- Without collisions a round is finalized exactly when it is clean. -/
theorem Ended.finalized_iff (ht : s₀.topology.WellFormed Γ) (ha : AgentsOf Γ s₀.topology s₀.agents) (hloc : AllLocal s₀)
    (hbuild : Buildable Γ s₀) (hcf : CollisionFree Γ s₀.agents s₀.runSalt rounds)
    (hsch : s₀.invalidProofSchedule = s₀.scenario.invalidProofs)
    (h : InProcess Γ s₀ s) (hlt : s.roundMachine.current < rounds) {o : RoundOutcome}
    (he : Ended Γ s₀ s s.roundMachine.current o s') :
    o = .finalized ↔ CleanRound s₀.topology s₀.scenario s.roundMachine.current := by
  have hown := he.holdsOwn ha hcf h hlt
  have hmem : ∀ node ∈ s₀.topology.nodes, node.id ∈ s'.roundMachine.commitments ↔
      s₀.scenario.hasDropped node.id s.roundMachine.current = false := fun node hnode =>
    hown.mem_iff hbuild (hloc node hnode)
  have hset := hown.claimants_eq hloc hbuild
  rw [he.outcome]
  constructor
  · rintro ⟨p, ⟨⟨n, hn, hpn, hcap⟩, hin, hleast⟩, h1, h2⟩
    obtain ⟨n', hn', hnmem, -⟩ := ht.requester_unique
    obtain rfl : n' = n := Option.some.inj (hn'.symm.trans hn)
    rw [hsch, Scenario.mem_invalidProofs] at h1 h2
    rw [hset] at hleast
    exact ⟨n', _, p.candidateProvider, hn, hcap, (hmem n' hnmem).mp (hpn ▸ hin), hleast, hpn ▸ h1, h2⟩
  · rintro ⟨n, cap, winner, hn, hcap, hd, hleast, h1, h2⟩
    obtain ⟨n', hn', hnmem, -⟩ := ht.requester_unique
    obtain rfl : n' = n := Option.some.inj (hn'.symm.trans hn)
    rw [← hset] at hleast
    refine ⟨⟨n'.id, s.roundMachine.current, n'.id, winner, cap⟩, ⟨⟨n', hn, rfl, hcap⟩, (hmem n' hnmem).mpr hd, hleast⟩, ?_⟩
    rw [hsch, Scenario.mem_invalidProofs, Scenario.mem_invalidProofs]
    exact ⟨h1, h2⟩

/-- The match of a round in a log: the requester, its capability, and the least willing provider. -/
def MatchedIn (t : TopologyConfig) (scenario : Scenario) (r : RoundId) (log : CoordinationLog) : Prop :=
  ∃ p n, log.proposalOf r = some p ∧ t.requester = some n ∧ p.candidateRequester = n.id ∧
    n.requiredCapability = some p.matchedCapability ∧
    IsLeast {k | Willing t scenario p.matchedCapability r k} p.candidateProvider

/-- When a round is not clean, the clean rounds from it on are those from the next one on. -/
theorem next_le_iff {t : TopologyConfig} {scenario : Scenario} {r next k : RoundId} (hnext : next.toNat = r.toNat + 1)
    (hdirty : ¬ CleanRound t scenario r) (hclean : CleanRound t scenario k) : next ≤ k ↔ r ≤ k := by
  have hne : r.toNat ≠ k.toNat := by
    intro he
    exact hdirty (UInt64.toNat_inj.mp he ▸ hclean)
  rw [UInt64.le_iff_toNat_le, UInt64.le_iff_toNat_le, hnext]
  omega

/-- The rounds of an in-process run without collisions return: finalized in the first clean round, with its match, or after the
last round when none is clean. -/
theorem runRounds_returns (rounds : UInt64) (fr : RoundId) (ht : s₀.topology.WellFormed Γ)
    (ha : AgentsOf Γ s₀.topology s₀.agents) (hloc : AllLocal s₀) (hbuild : Buildable Γ s₀)
    (hcf : CollisionFree Γ s₀.agents s₀.runSalt rounds) (hsch : s₀.invalidProofSchedule = s₀.scenario.invalidProofs)
    {k : Nat} (h : InProcess Γ s₀ s) (hk : s.roundMachine.current.toNat + k = rounds.toNat) :
    ∃ rt' fin fr', Runtime.runRounds Γ k fr ⟨s, ({ queue := [] } : OrderedBus)⟩ = .ok (rt', fin, fr') ∧
      ((fin = true ∧ MatchedIn s₀.topology s₀.scenario fr' rt'.state.log ∧
          IsLeast {r | s.roundMachine.current ≤ r ∧ r < rounds ∧ CleanRound s₀.topology s₀.scenario r} fr') ∨
        (fin = false ∧ (∀ r, s.roundMachine.current ≤ r → r < rounds → ¬ CleanRound s₀.topology s₀.scenario r) ∧
          (k = 0 ∧ fr' = fr ∨ fr'.toNat + 1 = rounds.toNat))) := by
  induction k generalizing s fr with
  | zero =>
    refine ⟨_, _, _, rfl, Or.inr ⟨rfl, fun r hr hlt => ?_, Or.inl ⟨rfl, rfl⟩⟩⟩
    rw [UInt64.le_iff_toNat_le] at hr
    rw [UInt64.lt_iff_toNat_lt] at hlt
    omega
  | succ k ih =>
    have hlt : s.roundMachine.current < rounds := by
      rw [UInt64.lt_iff_toNat_lt]
      omega
    obtain ⟨o, ⟨s₁, t₁⟩, h₁⟩ := Runtime.runOneRound_returns ht ha hloc hbuild h
    obtain ⟨hends, hq⟩ := Runtime.runOneRound_ends OrderedBus.delivers
      (show (⟨s, { queue := [] }⟩ : Runtime OrderedBus).transport.queue = [] from rfl) h₁
    have hend := h.ended ht ha hloc hends
    have hfin := hend.finalized_iff ht ha hloc hbuild hcf hsch h hlt
    cases o with
    | finalized =>
      obtain ⟨p, ⟨⟨n, hn, hpn, hcap⟩, -, hleast⟩, hlast, -⟩ := hend.final rfl
      rw [(hend.holdsOwn ha hcf h hlt).claimants_eq hloc hbuild] at hleast
      refine ⟨⟨s₁, t₁⟩, true, s.roundMachine.current, ?_, Or.inl ⟨rfl, ⟨p, n, hlast, hn, hpn, hcap, hleast⟩, ?_⟩⟩
      · simp only [Runtime.runRounds, bind, Except.bind, h₁]
      · exact ⟨⟨UInt64.le_refl _, hlt, hfin.mp rfl⟩, fun r hr => hr.1⟩
    | fallback =>
      have hcur : s₁.roundMachine.current = s.roundMachine.current := hend.inRound.ledger.2
      have hbound : s₁.roundMachine.current.toNat + 1 < 2 ^ 64 := by
        have := rounds.toNat_lt
        rw [hcur]
        omega
      have hadv := RoundMachine.advanceFallback_of_lt hbound
      have hnext : (s₁.roundMachine.current + 1).toNat = s.roundMachine.current.toNat + 1 := by
        rw [RoundId.toNat_succ hbound, hcur]
      have hdirty : ¬ CleanRound s₀.topology s₀.scenario s.roundMachine.current := by
        intro hclean
        simpa using hfin.mpr hclean
      have hfrom : ∀ r, CleanRound s₀.topology s₀.scenario r →
          (s₁.roundMachine.current + 1 ≤ r ↔ s.roundMachine.current ≤ r) := fun r => next_le_iff hnext hdirty
      obtain ⟨queue⟩ := t₁
      obtain rfl : queue = [] := hq
      obtain ⟨rt', fin, fr', hrun, hres⟩ := ih s.roundMachine.current (h.fallback ht ha hloc hends hadv)
        (by change (s₁.roundMachine.current + 1).toNat + k = rounds.toNat; omega)
      refine ⟨rt', fin, fr', ?_, ?_⟩
      · simp only [Runtime.runRounds, bind, Except.bind, h₁, Runtime.advanceFallback, hadv]
        exact hrun
      · rcases hres with ⟨rfl, hm, ⟨⟨hle, hr, hclean⟩, hleast⟩⟩ | ⟨rfl, hnone, hlast⟩
        · refine Or.inl ⟨rfl, hm, ⟨(hfrom fr' hclean).mp hle, hr, hclean⟩, ?_⟩
          rintro r ⟨hle', hr', hclean'⟩
          exact hleast ⟨(hfrom r hclean').mpr hle', hr', hclean'⟩
        · refine Or.inr ⟨rfl, ?_, Or.inr ?_⟩
          · intro r hle hr hclean
            exact hnone r ((hfrom r hclean).mpr hle) hr hclean
          · rcases hlast with ⟨rfl, rfl⟩ | hlast
            · omega
            · exact hlast

end

end VertexVeil
