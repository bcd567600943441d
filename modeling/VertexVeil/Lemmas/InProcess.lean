import VertexVeil.Lemmas.Layout
import VertexVeil.Lemmas.OwnCommitments

/-!
# Helpers about in-process runs: a round

All agents are local and the transport delivers what was broadcast. `InProcess` is what holds before each round, `InRound` what
holds from its commitment phase on; a phase that broadcasts is computed exactly, so that how a round ends can be read off.
-/

namespace VertexVeil

open Codec RuntimeState

/-- A log that keeps the commitments keeps the soundness of a proof. -/
theorem soundProof_mono {l m : CoordinationLog} {a : ProofArtifactRecord}
    (hmono : ∀ n r c, l.HasCommitment n r c → m.HasCommitment n r c) (h : SoundProof l a) : SoundProof m a := by
  obtain ⟨⟨c, digest, hc, he, hp⟩, hm⟩ := h
  exact ⟨⟨c, digest, hmono _ _ _ hc, he, hp⟩, hm⟩

namespace RuntimeState

/-! ## What the later phases leave alone -/

/-- The commitments of a state: in the log, in the machine, and remembered. -/
structure SameCommitments (s s' : RuntimeState) : Prop where
  log : s'.log.commitments = s.log.commitments
  machine : s'.roundMachine.commitments = s.roundMachine.commitments
  seen : s'.roundMachine.historyHex = s.roundMachine.historyHex
  remembered : s'.historicalCommitments = s.historicalCommitments

theorem SameCommitments.refl (s : RuntimeState) : SameCommitments s s := ⟨rfl, rfl, rfl, rfl⟩

theorem SameCommitments.trans {a b c : RuntimeState} (h : SameCommitments a b) (h' : SameCommitments b c) :
    SameCommitments a c :=
  ⟨h'.1.trans h.1, h'.2.trans h.2, h'.3.trans h.3, h'.4.trans h.4⟩

theorem SameCommitments.mono {s s' : RuntimeState} (h : SameCommitments s s') :
    ∀ n r c, s.log.HasCommitment n r c → s'.log.HasCommitment n r c := fun _ _ _ hc => ⟨h.log ▸ hc.1, hc.2⟩

theorem SameCommitments.of_rejects {round : RoundId} {s s' : RuntimeState} (h : Rejects round s s') :
    SameCommitments s s' := by
  obtain ⟨_, _, _, -, rfl⟩ := h
  exact ⟨rfl, rfl, rfl, rfl⟩

theorem sameCommitments_handleProposal (round : RoundId) (s : RuntimeState) (msg : CoordinationMessage) :
    SameCommitments s (handleProposal round s msg) := by
  rcases handleProposal_cases round s msg with ⟨p, -, -, -, h⟩ | h
  · rw [h]
    exact ⟨rfl, rfl, rfl, rfl⟩
  · exact .of_rejects h

theorem sameCommitments_handleProof (round : RoundId) (s : RuntimeState) (msg : CoordinationMessage) :
    SameCommitments s (handleProof round s msg) := by
  rcases handleProof_cases round s msg with ⟨a, c, -, -, -, -, -, h⟩ | h
  · rw [h]
    exact ⟨rfl, rfl, rfl, rfl⟩
  · exact .of_rejects h

theorem sameCommitments_handleReceipt (round : RoundId) (s : RuntimeState) (msg : CoordinationMessage) :
    SameCommitments s (handleReceipt round s msg) := by
  rcases handleReceipt_cases round s msg with ⟨r, -, -, -, -, h⟩ | ⟨-, h⟩
  · rw [h]
    exact ⟨rfl, rfl, rfl, rfl⟩
  · exact .of_rejects h

/-- A handler that keeps the commitments keeps them over a batch. -/
theorem sameCommitments_foldl {handle : RuntimeState → CoordinationMessage → RuntimeState}
    (h : ∀ s msg, SameCommitments s (handle s msg)) (batch : List CoordinationMessage) (s : RuntimeState) :
    SameCommitments s (batch.foldl handle s) := by
  induction batch generalizing s with
  | nil => exact .refl s
  | cons msg batch ih => exact (h s msg).trans (ih _)

end RuntimeState

section

variable {Γ : Crypto} {R : Delivery} {round : RoundId} {s s' : RuntimeState} {p : ProposalRecord}

theorem ProposalDone.sameCommitments (h : ProposalDone R round s s') : SameCommitments s s' := by
  obtain ⟨hb, -⟩ := h
  rcases broadcastProposal_cases hb with ⟨-, rfl⟩ | ⟨hf, -⟩
  · exact sameCommitments_foldl (sameCommitments_handleProposal round) _ _
  · simp at hf

theorem ProofsDone.sameCommitments (h : ProofsDone Γ R round p s s') : SameCommitments s s' := by
  obtain ⟨-, -⟩ := h
  exact sameCommitments_foldl (sameCommitments_handleProof round) _ _

theorem ReceiptsDone.sameCommitments (h : ReceiptsDone Γ R round p s s') : SameCommitments s s' := by
  obtain ⟨-, -⟩ := h
  exact sameCommitments_foldl (sameCommitments_handleReceipt round) _ _

/-- The commitment phase loses no logged commitment. -/
theorem CommitmentsDone.mono (h : CommitmentsDone Γ R round s s') :
    ∀ n r c, s.log.HasCommitment n r c → s'.log.HasCommitment n r c := by
  obtain ⟨hb, -⟩ := h
  have h₁ := broadcastCommitmentsOf_invariant (P := fun s' : RuntimeState => s'.log.commitments = s.log.commitments)
    (fun _ _ hs hr => (SameCommitments.of_rejects hr).log.trans hs) (fun _ _ _ hs _ _ => hs) rfl hb
  refine List.foldlRecOn
    (motive := fun (s' : RuntimeState) => ∀ n r c, s.log.HasCommitment n r c → s'.log.HasCommitment n r c) _ _
    (fun n r c hc => ⟨h₁ ▸ hc.1, hc.2⟩) (fun x hx msg _ n r c hc => ⟨?_, hc.2⟩)
  have htake : ∀ d, c ∈ (x.takeCommitment d).log.commitments := by
    intro d
    simp only [takeCommitment, CoordinationLog.appendCommitment]
    split
    · exact (hx n r c hc).1
    · exact List.mem_append_left _ (hx n r c hc).1
  rcases handleCommitment_cases round x msg with ⟨d, -, -, -, ⟨-, he⟩ | ⟨-, he⟩⟩ | ⟨_, _, _, -, he⟩
  · rw [he]
    exact htake d
  · rw [he]
    exact htake d
  · rw [he]
    exact (hx n r c hc).1

end

/-! ## Before and in a round -/

/-- What holds before each round of an in-process run that was configured as `s₀`. -/
structure InProcess (Γ : Crypto) (s₀ s : RuntimeState) : Prop where
  config : SameConfig s₀ s
  before : BeforeRound s₀.topology s
  unproposed : s.roundMachine.proposal = none
  empty : ∀ n, n ∉ s.roundMachine.commitments
  past : ∀ f ∈ s.roundMachine.past, ∀ n c, f.commitments[n]? = some c → Own Γ s₀ n f.round c
  seen : SeenBefore Γ s₀ s.roundMachine.current s.roundMachine
  history : ∀ x ∈ s.roundMachine.historyHex, ∃ n r c, r < s.roundMachine.current ∧ Own Γ s₀ n r c ∧ c.commitmentHex = x
  remembers : ∀ n, RemembersOwn Γ s₀ s.roundMachine.current s n
  proofs : ∀ a ∈ s.log.proofs, SoundProof s.log a ∧ a.round < s.roundMachine.current

/-- What holds from the end of a round's commitment phase on. -/
structure InRound (Γ : Crypto) (s₀ : RuntimeState) (round : RoundId) (s : RuntimeState) : Prop where
  config : SameConfig s₀ s
  ledger : Ledger.At s₀.topology round s
  past : ∀ f ∈ s.roundMachine.past, ∀ n c, f.commitments[n]? = some c → Own Γ s₀ n f.round c
  own : ∀ n c, s.roundMachine.commitments[n]? = some c → Own Γ s₀ n round c
  seen : ∀ n r c, r ≤ round → Own Γ s₀ n r c → c.commitmentHex ∈ s.roundMachine.historyHex
  history : ∀ x ∈ s.roundMachine.historyHex, ∃ n r c, r ≤ round ∧ Own Γ s₀ n r c ∧ c.commitmentHex = x
  remembers : ∀ n r c, s.historicalCommitments (n, r) = some c → r ≤ round ∧ Own Γ s₀ n r c

section

variable {Γ : Crypto} {s₀ s s' : RuntimeState} {round : RoundId}

/-- A phase that keeps frame and commitments keeps what holds in the round. -/
theorem InRound.of_same (h : InRound Γ s₀ round s) (hf : SameFrame s s') (hc : SameCommitments s s')
    (hl : Ledger.At s₀.topology round s') : InRound Γ s₀ round s' where
  config := h.config.trans hf.config
  ledger := hl
  past := hf.past ▸ h.past
  own := hc.machine ▸ h.own
  seen := hc.seen ▸ h.seen
  history := hc.seen ▸ h.history
  remembers := hc.remembered ▸ h.remembers

/-- The machine after the commitment phase. -/
theorem InProcess.machine (ht : s₀.topology.WellFormed Γ) (ha : AgentsOf Γ s₀.topology s₀.agents) (h : InProcess Γ s₀ s)
    (hd : CommitmentsDone Γ inProcess s.roundMachine.current s s') :
    s'.roundMachine = s₀.agents.keys.foldl (ownStep Γ s₀ s.roundMachine.current) s.roundMachine := by
  obtain ⟨hb, rfl⟩ := hd
  rename_i msgs s₁
  have hat := h.before.ledger.broadcastCommitments hb
  rw [broadcastCommitments, h.config.agents] at hb
  have hnd : s₀.agents.keys.Nodup := Std.TreeMap.nodup_keys
  rw [drainCommitments, drain_nodes ht ha hnd h.config (fun n _ => h.remembers n) hb hat.1 (hat.2 ▸ h.unproposed)
    (fun n _ => hat.2 ▸ h.empty n) (hat.2 ▸ h.seen), hat.2]

/-- Handling commitments changes nothing of what is remembered. -/
theorem historical_drainCommitments (round : RoundId) (batch : List CoordinationMessage) (s : RuntimeState) :
    (s.drainCommitments round batch).historicalCommitments = s.historicalCommitments := by
  refine foldl_keeps (f := fun s => s.historicalCommitments) (fun x msg => ?_) _ _
  rcases handleCommitment_cases round x msg with ⟨d, -, -, -, ⟨-, he⟩ | ⟨-, he⟩⟩ | ⟨_, _, _, -, he⟩ <;> rw [he] <;> rfl

/-- What the runtime remembers after the commitment phase. -/
theorem CommitmentsDone.remembers (hconf : SameConfig s₀ s) (hrem : ∀ n, RemembersOwn Γ s₀ round s n)
    (hd : CommitmentsDone Γ inProcess round s s') :
    ∀ n r c, s'.historicalCommitments (n, r) = some c → r ≤ round ∧ Own Γ s₀ n r c := by
  obtain ⟨hb, -⟩ := hd
  rename_i msgs batch s₁
  rw [historical_drainCommitments]
  refine (broadcastCommitmentsOf_invariant (P := fun s' : RuntimeState => SameConfig s₀ s' ∧
    ∀ n r c, s'.historicalCommitments (n, r) = some c → r ≤ round ∧ Own Γ s₀ n r c) (fun x y hP hr => ?_)
    (fun x n rec hP hdrop hrec => ?_) ⟨hconf, fun n r c hc => ?_⟩ hb).2
  · obtain ⟨_, _, _, -, rfl⟩ := hr
    exact ⟨⟨hP.1.1, hP.1.2, hP.1.3, hP.1.4, hP.1.5⟩, hP.2⟩
  · refine ⟨⟨hP.1.1, hP.1.2, hP.1.3, hP.1.4, hP.1.5⟩, ?_⟩
    intro k r c hc
    by_cases he : (k, r) = (n, round)
    · obtain ⟨rfl, rfl⟩ := Prod.mk.inj he
      rw [remember_self, Option.some.injEq] at hc
      rw [← hc]
      exact ⟨UInt64.le_refl _, hP.1.scenario ▸ hdrop, (hP.1.buildCommitment Γ k r).symm.trans hrec⟩
    · rw [remember_of_ne _ _ he] at hc
      exact hP.2 k r c hc
  · obtain ⟨hr, hown⟩ := hrem n r c hc
    exact ⟨UInt64.le_of_lt hr, hown⟩

/-- The commitment phase. -/
theorem InProcess.inRound (ht : s₀.topology.WellFormed Γ) (ha : AgentsOf Γ s₀.topology s₀.agents) (h : InProcess Γ s₀ s)
    (hd : CommitmentsDone Γ inProcess s.roundMachine.current s s') : InRound Γ s₀ s.roundMachine.current s' where
  config := h.config.trans hd.frame.config
  ledger := Ledger.At.commitmentsDone ⟨h.before.ledger, rfl⟩ hd
  past := hd.frame.past ▸ h.past
  own n c hc := by
    rw [h.machine ht ha hd] at hc
    rcases own_of_ownSteps hc with hc | hc
    · exact absurd (Std.TreeMap.mem_iff_isSome_getElem?.mpr (by rw [hc]; rfl)) (h.empty n)
    · exact hc
  seen n r c hr hown := by
    rw [h.machine ht ha hd]
    by_cases he : r = s.roundMachine.current
    · subst he
      exact seen_ownSteps (Std.TreeMap.mem_keys.mpr hown.builds.mem_agents) hown
    · exact historyHex_ownSteps (h.seen n r c (UInt64.lt_of_le_of_ne hr he) hown)
  history x hx := by
    rw [h.machine ht ha hd] at hx
    rcases seen_of_ownSteps _ hx with hx | ⟨n, -, c, hown, he⟩
    · obtain ⟨n, r, c, hr, hown, he⟩ := h.history x hx
      exact ⟨n, r, c, UInt64.le_of_lt hr, hown, he⟩
    · exact ⟨n, _, c, UInt64.le_refl _, hown, he⟩
  remembers := hd.remembers h.config h.remembers

/-! ## Proofs -/

/-- The logged proofs are sound and of no later round. -/
def ProofsSound (round : RoundId) (s : RuntimeState) : Prop := ∀ a ∈ s.log.proofs, SoundProof s.log a ∧ a.round ≤ round

theorem ProofsSound.of_same (h : ProofsSound round s) (hp : s'.log.proofs = s.log.proofs)
    (hmono : ∀ n r c, s.log.HasCommitment n r c → s'.log.HasCommitment n r c) : ProofsSound round s' := by
  intro a ha
  rw [hp] at ha
  exact ⟨soundProof_mono hmono (h a ha).1, (h a ha).2⟩

/-- The artifact a node broadcasts for a commitment. -/
def RuntimeState.artifact (Γ : Crypto) (s : RuntimeState) (round : RoundId) (n : NodeId) (c : CommitmentRecord) :
    ProofArtifactRecord :=
  let built := buildProofArtifact Γ c n round
  if (n, round) ∈ s.invalidProofSchedule then { built with publicInputsHex := tamperPublicInputs built.publicInputsHex }
  else built

/-- The proof broadcast of a local node that has committed. -/
theorem broadcastProof_eq {n : NodeId} {c : CommitmentRecord} (hn : n ∈ s.agents)
    (hc : s.roundMachine.commitments[n]? = some c) : s.broadcastProof Γ round n =
      ([{ origin := n, payload := .proof (s.artifact Γ round n c) }], .ok ()) := by
  have hcont : s.agents.contains n = true := Std.TreeMap.contains_iff_mem.mpr hn
  simp only [broadcastProof, hcont, not_true_eq_false, if_false, hc, artifact]

theorem broadcastProofs_eq (Γ : Crypto) (round : RoundId) {p : ProposalRecord} {cr cp : CommitmentRecord}
    (hr : p.candidateRequester ∈ s.agents) (hp : p.candidateProvider ∈ s.agents) (hcr : s.roundMachine.commitments[p.candidateRequester]? = some cr)
    (hcp : s.roundMachine.commitments[p.candidateProvider]? = some cp) :
    s.broadcastProofs Γ round p =
      ([{ origin := p.candidateRequester, payload := .proof (s.artifact Γ round p.candidateRequester cr) },
        { origin := p.candidateProvider, payload := .proof (s.artifact Γ round p.candidateProvider cp) }], .ok ()) := by
  simp only [broadcastProofs, Emit.andThen, broadcastProof_eq hr hcr, broadcastProof_eq hp hcp, List.singleton_append]

/-- A node's artifact is taken unless it was tampered with. -/
theorem handleProof_artifact (round : RoundId) {x : RuntimeState} {n : NodeId} {c : CommitmentRecord} (hd : c.HasDigest)
    (hc : x.roundMachine.commitments[n]? = some c) :
    handleProof round x { origin := n, payload := .proof (s.artifact Γ round n c) } =
      if (n, round) ∈ s.invalidProofSchedule then x.reject round n "proof" "public_inputs_mismatch"
      else { x with log := x.log.appendProof (buildProofArtifact Γ c n round) } := by
  obtain ⟨d, hd⟩ := hd
  unfold artifact
  split
  · have := extractCommitmentHashHex_tamper Γ c n round
    simp only [handleProof, buildProofArtifact] at this ⊢
    simp [hc, this]
  · have := extractCommitmentHashHex_build (Γ := Γ) (n := n) (r := round) hd
    simp only [handleProof, buildProofArtifact] at this ⊢
    simp [hc, this]

/-- A built proof of a logged commitment is sound. -/
theorem soundProof_build {log : CoordinationLog} {n : NodeId} {c : CommitmentRecord} (hd : c.HasDigest)
    (hc : log.HasCommitment n round c) : SoundProof log (buildProofArtifact Γ c n round) := by
  obtain ⟨d, hd⟩ := hd
  exact ⟨⟨c, d, hc, hd.symm, parsePublicInputs_build hd⟩, ⟨1, _, hexDecode_hexEncode _, Or.inl rfl⟩⟩

/-- The proof phase: each participant's proof is logged, in order, unless it was tampered with. -/
theorem ProofsDone.eq {p : ProposalRecord} {cr cp : CommitmentRecord} (hr : p.candidateRequester ∈ s.agents)
    (hp : p.candidateProvider ∈ s.agents) (hcr : s.roundMachine.commitments[p.candidateRequester]? = some cr)
    (hcp : s.roundMachine.commitments[p.candidateProvider]? = some cp) (hdr : cr.HasDigest) (hdp : cp.HasDigest)
    (h : ProofsDone Γ inProcess round p s s') :
    s'.log.proofs = s.log.proofs ++
      ((if (p.candidateRequester, round) ∈ s.invalidProofSchedule then []
        else [buildProofArtifact Γ cr p.candidateRequester round]) ++
       if (p.candidateProvider, round) ∈ s.invalidProofSchedule then []
        else [buildProofArtifact Γ cp p.candidateProvider round]) := by
  obtain ⟨hb, rfl⟩ := h
  rw [broadcastProofs_eq Γ round hr hp hcr hcp] at hb
  obtain ⟨rfl, -⟩ := Prod.mk.inj hb
  have h₁ := handleProof_artifact (Γ := Γ) (s := s) round hdr hcr
  simp only [drainProofs, List.foldl_cons, List.foldl_nil, h₁]
  split
  · rw [handleProof_artifact round hdp (by exact hcp)]
    split <;> simp [reject, CoordinationLog.appendRejection, CoordinationLog.appendProof]
  · rw [handleProof_artifact round hdp (by exact hcp)]
    split <;> simp [reject, CoordinationLog.appendRejection, CoordinationLog.appendProof]

/-! ## Proposals -/

/-- Every node of the topology has a local agent. -/
def AllLocal (s : RuntimeState) : Prop := ∀ n ∈ s.topology.nodes, n.id ∈ s.agents

/-- The providers that can be matched in a round: they claim the capability and have committed. -/
def Claimant (t : TopologyConfig) (cap : CapabilityTag) (m : RoundMachine) (k : NodeId) : Prop :=
  (∃ node ∈ t.nodes, node.id = k ∧ node.role = .provider ∧ cap ∈ node.capabilityClaims) ∧ k ∈ m.commitments

/-- In a round the feasible providers are the claimants of the requester's capability. -/
theorem InRound.mem_feasibleProviders (ht : s₀.topology.WellFormed Γ) (ha : AgentsOf Γ s₀.topology s₀.agents)
    (h : InRound Γ s₀ round s) {n : NodeConfig} (hn : s₀.topology.requester = some n) {req : CommitmentRecord}
    (hreq : s.roundMachine.commitments[n.id]? = some req) :
    ∃ cap, n.requiredCapability = some cap ∧ cap.asStr ≠ [] ∧ req.publicIntent = .requester n.id round cap ∧
      ∀ k, k ∈ feasibleProviders round req (s.roundMachine.providersSnapshot n.id) ↔
        Claimant s₀.topology cap s.roundMachine k := by
  obtain ⟨n', hn', hmem, hrole, huniq⟩ := ht.requester_unique
  obtain rfl : n' = n := Option.some.inj (hn'.symm.trans hn)
  obtain ⟨cap, -, hcap, hne⟩ := ht.required n' hmem hrole
  have hown := h.own _ _ hreq
  have hi : req.publicIntent = .requester n'.id round cap := by
    rcases hown.builds.intent ht ha hmem with ⟨-, cap', hcap', hi⟩ | ⟨hr, -⟩
    · rw [hcap, Option.some.injEq] at hcap'
      rw [hi, hcap']
    · rw [hrole] at hr
      simp at hr
  refine ⟨cap, hcap, hne, hi, ?_⟩
  intro k
  rw [VertexVeil.mem_feasibleProviders]
  constructor
  · rintro ⟨d, hd, rfl, hf⟩
    obtain ⟨k, hk, hkd⟩ := RoundMachine.mem_providersSnapshot.mp hd
    have hownd := h.own _ _ hkd
    obtain ⟨node, hnode, hnid, hnrole⟩ := (h.ledger.1.machine.held k d hkd).sound.node
    rw [h.ledger.1.machine.topology] at hnode
    rw [hownd.builds.nodeId] at hnid ⊢
    subst hnid
    refine ⟨⟨node, hnode, rfl, ?_⟩, Std.TreeMap.mem_iff_isSome_getElem?.mpr (by rw [hkd]; rfl)⟩
    rcases hownd.builds.intent ht ha hnode with ⟨-, _, -, hdi⟩ | ⟨hr, hdi⟩
    · rw [hdi] at hf
      obtain ⟨_, _, _, _, -, he, -⟩ := hf
      simp at he
    · rw [hi, hdi, feasible_iff] at hf
      exact ⟨hr, hf.2.2⟩
  · rintro ⟨⟨node, hnode, rfl, hr, hclaim⟩, hin⟩
    rw [Std.TreeMap.mem_iff_isSome_getElem?, Option.isSome_iff_exists] at hin
    obtain ⟨d, hd⟩ := hin
    have hownd := h.own _ _ hd
    have hne' : node.id ≠ n'.id := by
      intro he
      rw [ht.node_eq hnode hmem he, hrole] at hr
      simp at hr
    refine ⟨d, RoundMachine.mem_providersSnapshot.mpr ⟨_, hne', hd⟩, hownd.builds.nodeId, ?_⟩
    rcases hownd.builds.intent ht ha hnode with ⟨hr', -⟩ | ⟨-, hdi⟩
    · rw [hr] at hr'
      simp at hr'
    · rw [hi, hdi, feasible_iff]
      exact ⟨rfl, rfl, hclaim⟩

/-- The proposal broadcast of a round whose requester has committed: the round is given up when there is no claimant, else the
proposer proposes the least one, and the machine will accept it. -/
theorem InRound.broadcastProposal_eq (ht : s₀.topology.WellFormed Γ) (ha : AgentsOf Γ s₀.topology s₀.agents)
    (hloc : AllLocal s₀) (h : InRound Γ s₀ round s) {n : NodeConfig} (hn : s₀.topology.requester = some n)
    {req : CommitmentRecord} (hreq : s.roundMachine.commitments[n.id]? = some req) (hp : s.roundMachine.proposal = none) :
    ∃ cap, n.requiredCapability = some cap ∧
      (((∀ k, ¬ Claimant s₀.topology cap s.roundMachine k) ∧ ∃ q, deterministicProposer s₀.topology round = .ok q ∧
          s.broadcastProposal round = ([], .ok (false, s.reject round q "proposal" "no_feasible_provider"))) ∨
        ∃ p, RoundMachine.Proposable s.roundMachine p ∧ p.candidateRequester = n.id ∧ p.matchedCapability = cap ∧
          IsLeast {k | Claimant s₀.topology cap s.roundMachine k} p.candidateProvider ∧
          s.broadcastProposal round = ([{ origin := p.proposer, payload := .proposal p }], .ok (true, s))) := by
  obtain ⟨cap, hcap, hne, hi, hfeas⟩ := h.mem_feasibleProviders ht ha hn hreq
  refine ⟨cap, hcap, ?_⟩
  obtain ⟨hl, hcur⟩ := h.ledger
  -- the proposer is a node of the topology, so its agent is here
  obtain ⟨q, hq, hprop⟩ := ht.deterministicProposer_eq round
  have hcp : s.roundMachine.currentProposer = .ok q := by
    rw [RoundMachine.currentProposer_eq_ok, hl.machine.topology, hcur]
    exact hprop
  have hqa : s.agents.contains q = true := by
    obtain ⟨node, hnode, rfl⟩ := List.mem_map.mp hq
    rw [Std.TreeMap.contains_iff_mem, h.config.agents]
    exact hloc _ (TopologyConfig.mem_providersStableOrder.mp hnode).1
  have htopo : s.topology.requester = some n := h.config.topology ▸ hn
  have hheld := hl.machine.held _ _ hreq
  rcases hd : deriveCandidate round req (s.roundMachine.providersSnapshot n.id) with e | _ | cand
  · exfalso
    simp only [deriveCandidate, hi, ne_eq, not_true_eq_false, if_false, hne] at hd
    split at hd <;> simp at hd
  · refine Or.inl ⟨fun k hk => ?_, q, hprop, ?_⟩
    · rw [← hfeas, (deriveCandidate_eq_none hi hne).mp hd] at hk
      exact absurd hk List.not_mem_nil
    · simp only [broadcastProposal, hcp, hqa, not_true_eq_false, if_false, htopo, hreq, hd]
  · obtain ⟨h1, h2, h3⟩ := (deriveCandidate_eq_some hi hne).mp hd
    have hset : {m | m ∈ feasibleProviders round req (s.roundMachine.providersSnapshot n.id)} =
        {k | Claimant s₀.topology cap s.roundMachine k} := Set.ext hfeas
    rw [hset] at h3
    refine Or.inr ⟨⟨q, round, cand.requester, cand.provider, cand.matchedCapability⟩, ?_, ?_, h2, h3, ?_⟩
    · obtain ⟨⟨node, hnode, hnid, hr, hclaim⟩, hin⟩ := h3.1
      rw [Std.TreeMap.mem_iff_isSome_getElem?, Option.isSome_iff_exists] at hin
      obtain ⟨d, hd⟩ := hin
      have hownd := h.own _ _ hd
      refine ⟨hp, hcur.symm, hcp, ⟨req, round, ?_, ?_⟩, ⟨d, round, node.capabilityClaims, hd, ?_, ?_⟩⟩
      · rw [h1, hheld.node]
        exact hreq
      · rw [hi, h1, hheld.node, h2]
      · rw [← hnid] at hownd ⊢
        rcases hownd.builds.intent ht ha hnode with ⟨hr', -⟩ | ⟨-, hdi⟩
        · rw [hr] at hr'
          simp at hr'
        · exact hdi
      · rw [h2]
        exact hclaim
    · exact h1.trans hheld.node
    · simp only [broadcastProposal, hcp, hqa, not_true_eq_false, if_false, htopo, hreq, hd]

/-! ## How a round ends -/

/-- A proposal for the match of a round: the requester, its capability, and the least claimant of it. -/
structure Picked (s₀ : RuntimeState) (m : RoundMachine) (p : ProposalRecord) : Prop where
  requester : ∃ n, s₀.topology.requester = some n ∧ p.candidateRequester = n.id ∧ n.requiredCapability = some p.matchedCapability
  committed : p.candidateRequester ∈ m.commitments
  least : IsLeast {k | Claimant s₀.topology p.matchedCapability m k} p.candidateProvider

theorem Picked.unique {m : RoundMachine} {p q : ProposalRecord} (hp : Picked s₀ m p) (hq : Picked s₀ m q) :
    q.candidateRequester = p.candidateRequester ∧ q.candidateProvider = p.candidateProvider := by
  obtain ⟨n, hn, hpn, hpc⟩ := hp.requester
  obtain ⟨n', hn', hqn, hqc⟩ := hq.requester
  obtain rfl : n = n' := Option.some.inj (hn.symm.trans hn')
  have hcap : q.matchedCapability = p.matchedCapability := Option.some.inj (hqc.symm.trans hpc)
  exact ⟨hqn.trans hpn.symm, (hcap ▸ hq.least).unique hp.least⟩

/-- The match of a round with a machine has both its proofs. -/
def Completes (s₀ : RuntimeState) (round : RoundId) (m : RoundMachine) : Prop :=
  ∃ p, Picked s₀ m p ∧ (p.candidateRequester, round) ∉ s₀.invalidProofSchedule ∧
    (p.candidateProvider, round) ∉ s₀.invalidProofSchedule

theorem proposalOf_takeProposal (s : RuntimeState) (p : ProposalRecord) :
    (s.takeProposal p).log.proposalOf p.round = some p := by
  simp [takeProposal, CoordinationLog.appendProposal, CoordinationLog.proposalOf]

/-- The proposal phase of a round whose requester has committed. -/
theorem InRound.proposalDone (ht : s₀.topology.WellFormed Γ) (ha : AgentsOf Γ s₀.topology s₀.agents) (hloc : AllLocal s₀)
    (h : InRound Γ s₀ round s) (hr : RequesterIn s) (hp : s.roundMachine.proposal = none)
    (hd : ProposalDone inProcess round s s') : ∃ p, Picked s₀ s.roundMachine p ∧ RoundMachine.Proposable s.roundMachine p ∧
      p.round = round ∧ s' = s.takeProposal p := by
  obtain ⟨n, hn, hin⟩ := hr
  rw [h.config.topology] at hn
  obtain ⟨req, hreq⟩ := Option.isSome_iff_exists.mp (Std.TreeMap.mem_iff_isSome_getElem?.mp hin)
  obtain ⟨cap, hcap, ⟨-, _, -, hb⟩ | ⟨p, hprop, hpr, hpc, hleast, hb⟩⟩ := h.broadcastProposal_eq ht ha hloc hn hreq hp
  · obtain ⟨hb', -⟩ := hd
    rw [hb] at hb'
    simp at hb'
  · obtain ⟨hb', rfl⟩ := hd
    rw [hb] at hb'
    simp only [Prod.mk.injEq, Except.ok.injEq, true_and] at hb'
    obtain ⟨rfl, rfl⟩ := hb'
    refine ⟨p, ⟨⟨n, hn, hpr, hpc ▸ hcap⟩, hpr ▸ hin, hpc ▸ hleast⟩, hprop, hprop.round.trans h.ledger.2, ?_⟩
    simp only [drainProposal, List.foldl_cons, List.foldl_nil, handleProposal, ne_eq, not_true_eq_false, if_false,
      RoundMachine.acceptProposal_of_proposable hprop, takeProposal]

/-- The logged proofs of a round are those of the two participants of a proposal. -/
def LogsPair (Γ : Crypto) (round : RoundId) (p : ProposalRecord) (s : RuntimeState) : Prop :=
  ∃ cr cp, s.log.proofs.filter (fun a => a.round = round) =
    [buildProofArtifact Γ cr p.candidateRequester round, buildProofArtifact Γ cp p.candidateProvider round]

/-- Where each participant's proof is logged unless it was tampered with, both are exactly when neither was. -/
theorem bothProofs_iff_of_proofs {p : ProposalRecord} {cr cp : CommitmentRecord} (hne : p.candidateProvider ≠ p.candidateRequester)
    (hold : ∀ a ∈ s.log.proofs, a.round ≠ round) {tr tp : Prop} [Decidable tr] [Decidable tp]
    (he : s'.log.proofs = s.log.proofs ++ ((if tr then [] else [buildProofArtifact Γ cr p.candidateRequester round]) ++
      if tp then [] else [buildProofArtifact Γ cp p.candidateProvider round])) :
    BothProofs round p s' ↔ ¬ tr ∧ ¬ tp := by
  simp only [BothProofs, CoordinationLog.hasProof_iff, he, List.mem_append]
  constructor
  · rintro ⟨⟨a, ha, har, han⟩, ⟨b, hb, hbr, hbn⟩⟩
    refine ⟨fun htr => ?_, fun htp => ?_⟩
    · rw [if_pos htr] at ha
      rcases ha with ha | ha | ha
      · exact hold a ha har
      · exact absurd ha List.not_mem_nil
      · split at ha
        · exact absurd ha List.not_mem_nil
        · rw [List.mem_singleton.mp ha] at han
          exact hne han
    · rw [if_pos htp] at hb
      rcases hb with hb | hb | hb
      · exact hold b hb hbr
      · split at hb
        · exact absurd hb List.not_mem_nil
        · rw [List.mem_singleton.mp hb] at hbn
          exact hne hbn.symm
      · exact absurd hb List.not_mem_nil
  · rintro ⟨htr, htp⟩
    rw [if_neg htr, if_neg htp]
    exact ⟨⟨_, Or.inr (Or.inl (List.mem_singleton.mpr rfl)), rfl, rfl⟩,
      ⟨_, Or.inr (Or.inr (List.mem_singleton.mpr rfl)), rfl, rfl⟩⟩

/-- The proof phase of a match: a participant's proof is logged exactly when it was not tampered with. -/
theorem InRound.proofsDone (ht : s₀.topology.WellFormed Γ) (hloc : AllLocal s₀) (h : InRound Γ s₀ round s)
    {p : ProposalRecord} (hp : Picked s₀ s.roundMachine p) (hs : ProofsSound round s)
    (hold : ∀ a ∈ s.log.proofs, a.round ≠ round) (hd : ProofsDone Γ inProcess round p s s') :
    ProofsSound round s' ∧ (BothProofs round p s' ↔ (p.candidateRequester, round) ∉ s₀.invalidProofSchedule ∧
      (p.candidateProvider, round) ∉ s₀.invalidProofSchedule) ∧ (BothProofs round p s' → LogsPair Γ round p s') := by
  obtain ⟨n, hn, hpr, -⟩ := hp.requester
  obtain ⟨n', hn', hmem, hrole, -⟩ := ht.requester_unique
  obtain rfl : n' = n := Option.some.inj (hn'.symm.trans hn)
  obtain ⟨⟨node, hnode, hnid, hnrole, -⟩, hin⟩ := hp.least.1
  have hne : p.candidateProvider ≠ p.candidateRequester := by
    intro he
    rw [hpr, ← hnid] at he
    rw [ht.node_eq hnode hmem he, hrole] at hnrole
    simp at hnrole
  have hloc' : ∀ k ∈ s₀.topology.nodes, k.id ∈ s.agents := fun k hk => h.config.agents ▸ hloc k hk
  obtain ⟨cr, hcr⟩ := Option.isSome_iff_exists.mp (Std.TreeMap.mem_iff_isSome_getElem?.mp hp.committed)
  obtain ⟨cp, hcp⟩ := Option.isSome_iff_exists.mp (Std.TreeMap.mem_iff_isSome_getElem?.mp hin)
  have hdr := (h.own _ _ hcr).builds.hasDigest
  have hdp := (h.own _ _ hcp).builds.hasDigest
  have hlr : s.log.HasCommitment p.candidateRequester round cr := h.ledger.2 ▸ (h.ledger.1.held_iff _ _).mp hcr
  have hlp : s.log.HasCommitment p.candidateProvider round cp := h.ledger.2 ▸ (h.ledger.1.held_iff _ _).mp hcp
  have he := ProofsDone.eq (hpr ▸ hloc' n' hmem) (hnid ▸ hloc' node hnode) hcr hcp hdr hdp hd
  rw [h.config.schedule] at he
  have hmono := hd.sameCommitments.mono
  have hiff : BothProofs round p s' ↔ (p.candidateRequester, round) ∉ s₀.invalidProofSchedule ∧
      (p.candidateProvider, round) ∉ s₀.invalidProofSchedule := bothProofs_iff_of_proofs hne hold he
  refine ⟨fun a ha => ?_, hiff, fun hb => ?_⟩
  · rw [he] at ha
    simp only [List.mem_append] at ha
    rcases ha with ha | ha | ha
    · exact ⟨soundProof_mono hmono (hs a ha).1, (hs a ha).2⟩
    · split at ha
      · exact absurd ha List.not_mem_nil
      · rw [List.mem_singleton.mp ha]
        exact ⟨soundProof_mono hmono (soundProof_build hdr hlr), UInt64.le_refl _⟩
    · split at ha
      · exact absurd ha List.not_mem_nil
      · rw [List.mem_singleton.mp ha]
        exact ⟨soundProof_mono hmono (soundProof_build hdp hlp), UInt64.le_refl _⟩
  · obtain ⟨h1, h2⟩ := hiff.mp hb
    rw [if_neg h1, if_neg h2] at he
    have hnone : s.log.proofs.filter (fun a => a.round = round) = [] := by
      rw [List.filter_eq_nil_iff]
      intro a ha
      simpa using hold a ha
    refine ⟨cr, cp, ?_⟩
    rw [he, List.filter_append, hnone]
    simp [buildProofArtifact]

theorem receiptSignatureHex_ne_nil (s : RuntimeState) (n : NodeId) (round : RoundId) (cap : Text) :
    s.receiptSignatureHex Γ n round cap ≠ [] := by
  intro h0
  have hl := congrArg List.length h0
  unfold receiptSignatureHex at hl
  split at hl <;> simp [hexEncode_length] at hl

/-- A provider with a signing seed signs. -/
theorem receiptSignatureHex_seed {n : NodeId} {seed : SigningSecretSeed}
    (h : (s.agents[n]?.bind (·.provider)).bind (·.signingSecretKey) = some seed) (round : RoundId) (cap : Text) :
    s.receiptSignatureHex Γ n round cap = hexEncode (signReceiptEd25519 Γ seed n round cap).toList := by
  unfold receiptSignatureHex
  rw [h]

/-- Without a seed the receipt carries the legacy tag. -/
theorem receiptSignatureHex_legacy {n : NodeId}
    (h : (s.agents[n]?.bind (·.provider)).bind (·.signingSecretKey) = none) (round : RoundId) (cap : Text) :
    s.receiptSignatureHex Γ n round cap = hexEncode (legacySignature Γ n round cap).toList := by
  unfold receiptSignatureHex
  rw [h]

/-- The receipt phase of a local provider: its receipt is logged. -/
theorem ReceiptsDone.eq {p : ProposalRecord} (hp : p.candidateProvider ∈ s.agents)
    (h : ReceiptsDone Γ inProcess round p s s') :
    s' = { s with log := s.log.appendReceipt {
      provider := p.candidateProvider, round
      signatureHex := s.receiptSignatureHex Γ p.candidateProvider round p.matchedCapability.asStr } } := by
  obtain ⟨hb, rfl⟩ := h
  have hcont : s.agents.contains p.candidateProvider = true := Std.TreeMap.contains_iff_mem.mpr hp
  simp only [broadcastReceipt, hcont, not_true_eq_false, if_false, Prod.mk.injEq, and_true] at hb
  rw [← hb]
  simp only [drainReceipts, List.foldl_cons, List.foldl_nil, handleReceipt, ne_eq, not_true_eq_false, if_false,
    receiptSignatureHex_ne_nil]

theorem Picked.of_commitments {m m' : RoundMachine} {p : ProposalRecord} (h : Picked s₀ m p)
    (he : m'.commitments = m.commitments) : Picked s₀ m' p := by
  refine ⟨h.requester, he ▸ h.committed, ?_⟩
  simp only [Claimant, he]
  exact h.least

theorem completes_congr {m m' : RoundMachine} (he : m'.commitments = m.commitments) :
    Completes s₀ round m' ↔ Completes s₀ round m :=
  ⟨fun ⟨p, hp, h⟩ => ⟨p, hp.of_commitments he.symm, h⟩, fun ⟨p, hp, h⟩ => ⟨p, hp.of_commitments he, h⟩⟩

/-- The receipt that the matched provider's agent signs. -/
def RuntimeState.ownReceipt (Γ : Crypto) (s : RuntimeState) (round : RoundId) (p : ProposalRecord) :
    CompletionReceiptRecord where
  provider := p.candidateProvider
  round := round
  signatureHex := s.receiptSignatureHex Γ p.candidateProvider round p.matchedCapability.asStr

theorem receiptSignatureHex_eq (h : SameConfig s s') (n : NodeId) (cap : Text) :
    s'.receiptSignatureHex Γ n round cap = s.receiptSignatureHex Γ n round cap := by
  simp only [receiptSignatureHex, h.agents]

/-- A round of an in-process run that has ended. -/
structure Ended (Γ : Crypto) (s₀ s : RuntimeState) (round : RoundId) (o : RoundOutcome) (s' : RuntimeState) : Prop where
  inRound : InRound Γ s₀ round s'
  proofs : ProofsSound round s'
  machine : s'.roundMachine.commitments =
    (s₀.agents.keys.foldl (ownStep Γ s₀ round) s.roundMachine).commitments
  outcome : o = .finalized ↔ Completes s₀ round s'.roundMachine
  final : o = .finalized → ∃ p, Picked s₀ s'.roundMachine p ∧ s'.log.proposalOf round = some p ∧ BothProofs round p s' ∧
    s'.log.receipts = s.log.receipts ++ [s₀.ownReceipt Γ round p]
  pair : o = .finalized → ∃ p, s'.log.proposalOf round = some p ∧ LogsPair Γ round p s'

/-- A round of an in-process run whose commitments are made and whose proofs are not. -/
structure BeforeProofs (Γ : Crypto) (s₀ s s' : RuntimeState) : Prop where
  inRound : InRound Γ s₀ s.roundMachine.current s'
  proofs : ProofsSound s.roundMachine.current s'
  unproved : ∀ a ∈ s'.log.proofs, a.round ≠ s.roundMachine.current
  machine : s'.roundMachine.commitments =
    (s₀.agents.keys.foldl (ownStep Γ s₀ s.roundMachine.current) s.roundMachine).commitments

/-- What the commitment phase leaves. -/
theorem InProcess.committed (ht : s₀.topology.WellFormed Γ) (ha : AgentsOf Γ s₀.topology s₀.agents) (h : InProcess Γ s₀ s)
    {s₁ : RuntimeState} (h₁ : CommitmentsDone Γ inProcess s.roundMachine.current s s₁) :
    BeforeProofs Γ s₀ s s₁ ∧ s₁.roundMachine.proposal = none := by
  have hout : s₁.log.proofs = s.log.proofs := congrArg Prod.fst h₁.outputs
  have hm := h.machine ht ha h₁
  refine ⟨⟨h.inRound ht ha h₁, ?_, ?_, by rw [hm]⟩, h₁.proposal.trans h.unproposed⟩
  · refine ProofsSound.of_same (s := s) (fun a hmem => ?_) hout h₁.mono
    exact ⟨(h.proofs a hmem).1, UInt64.le_of_lt (h.proofs a hmem).2⟩
  · intro a hmem
    rw [hout] at hmem
    exact UInt64.ne_of_lt (h.proofs a hmem).2

/-- What the proposal phase leaves: the pick of the round is proposed. -/
theorem InProcess.proposed (ht : s₀.topology.WellFormed Γ) (ha : AgentsOf Γ s₀.topology s₀.agents) (hloc : AllLocal s₀)
    (h : InProcess Γ s₀ s) {s₁ s₂ : RuntimeState} (h₁ : CommitmentsDone Γ inProcess s.roundMachine.current s s₁)
    (hreq : RequesterIn s₁) (h₂ : ProposalDone inProcess s.roundMachine.current s₁ s₂) :
    BeforeProofs Γ s₀ s s₂ ∧ ∃ p, Picked s₀ s₂.roundMachine p ∧ s₂.log.proposalOf s.roundMachine.current = some p := by
  obtain ⟨hb, hnone⟩ := h.committed ht ha h₁
  obtain ⟨p, hp, -, hround, rfl⟩ := hb.inRound.proposalDone ht ha hloc hreq hnone h₂
  refine ⟨⟨hb.inRound.of_same h₂.frame h₂.sameCommitments (hb.inRound.ledger.proposalDone ht h₂),
    hb.proofs.of_same rfl h₂.sameCommitments.mono, hb.unproved, hb.machine⟩, p, hp.of_commitments rfl, ?_⟩
  rw [← hround]
  exact proposalOf_takeProposal s₁ p

/-- A round whose pick is proposed and has both its proofs ends with the pick's receipt. -/
theorem BeforeProofs.finalized (ht : s₀.topology.WellFormed Γ) (hloc : AllLocal s₀) {s₂ s₃ s₄ : RuntimeState}
    {p : ProposalRecord} (h : BeforeProofs Γ s₀ s s₂) (hreceipts : s₂.log.receipts = s.log.receipts)
    (hpick : Picked s₀ s₂.roundMachine p) (hp : s₂.log.proposalOf s.roundMachine.current = some p)
    (h₃ : ProofsDone Γ inProcess s.roundMachine.current p s₂ s₃) (hboth : BothProofs s.roundMachine.current p s₃)
    (h₄ : ReceiptsDone Γ inProcess s.roundMachine.current p s₃ s₄) :
    Ended Γ s₀ s s.roundMachine.current .finalized s₄ := by
  obtain ⟨hs₃, hiff, hpair⟩ := h.inRound.proofsDone ht hloc hpick h.proofs h.unproved h₃
  have hin₃ := h.inRound.of_same h₃.frame h₃.sameCommitments (h.inRound.ledger.proofsDone h₃)
  have hcm := h₄.sameCommitments.machine.trans h₃.sameCommitments.machine
  have hprov : p.candidateProvider ∈ s₃.agents := by
    obtain ⟨⟨node, hnode, hnid, -⟩, -⟩ := hpick.least.1
    rw [hin₃.config.agents, ← hnid]
    exact hloc node hnode
  have heq := ReceiptsDone.eq hprov h₄
  have hlast : s₄.log.proposalOf s.roundMachine.current = some p := by
    rw [heq]
    simp only [CoordinationLog.appendReceipt, CoordinationLog.proposalOf, h₃.proposals]
    exact hp
  refine ⟨hin₃.of_same h₄.frame h₄.sameCommitments (hin₃.ledger.receiptsDone h₄), ?_, hcm.trans h.machine,
    ⟨fun _ => (completes_congr hcm).mpr ⟨p, hpick, hiff.mp hboth⟩, fun _ => rfl⟩,
    fun _ => ⟨p, hpick.of_commitments hcm, hlast, ?_, ?_⟩, fun _ => ⟨p, hlast, ?_⟩⟩
  · refine hs₃.of_same ?_ h₄.sameCommitments.mono
    rw [heq]
    rfl
  · rw [heq]
    exact hboth
  · rw [heq]
    simp only [CoordinationLog.appendReceipt, receiptSignatureHex_eq hin₃.config]
    rw [h₃.receipts.trans hreceipts]
    rfl
  · obtain ⟨cr, cp, hpair⟩ := hpair hboth
    rw [heq]
    exact ⟨cr, cp, hpair⟩

/-- Every round of an in-process run ends so. -/
theorem InProcess.ended (ht : s₀.topology.WellFormed Γ) (ha : AgentsOf Γ s₀.topology s₀.agents) (hloc : AllLocal s₀)
    (h : InProcess Γ s₀ s) {o : RoundOutcome} (he : RoundEnds Γ inProcess s.roundMachine.current s o s') :
    Ended Γ s₀ s s.roundMachine.current o s' := by
  cases he with
  | @requesterMissing s₁ n h₁ hn hmiss =>
    obtain ⟨hb, -⟩ := h.committed ht ha h₁
    have hr : Rejects s.roundMachine.current s₁ (s₁.reject s.roundMachine.current n.id "round" "requester_missing") :=
      ⟨_, _, _, by simp [ProperLabels], rfl⟩
    refine ⟨hb.inRound.of_same (.of_rejects hr) (.of_rejects hr) (hb.inRound.ledger.rejects hr),
      hb.proofs.of_same rfl (fun _ _ _ hc => hc), hb.machine, ⟨fun hf => by simp at hf, fun hc => ?_⟩, fun hf => by simp at hf,
      fun hf => by simp at hf⟩
    obtain ⟨p, hp, -⟩ := hc
    obtain ⟨n', hn', hpn, -⟩ := hp.requester
    obtain rfl : n = n' := Option.some.inj (hn.symm.trans (hb.inRound.config.topology ▸ hn'))
    exact absurd (hpn ▸ hp.committed) hmiss
  | @noCandidate s₁ s₂ msgs h₁ hreq hprop =>
    obtain ⟨hb, hnone⟩ := h.committed ht ha h₁
    obtain ⟨n, hn, hmem⟩ := hreq
    rw [hb.inRound.config.topology] at hn
    obtain ⟨req, hreq⟩ := Option.isSome_iff_exists.mp (Std.TreeMap.mem_iff_isSome_getElem?.mp hmem)
    obtain ⟨cap, hcap, ⟨hno, _, -, hprop'⟩ | ⟨p, -, -, -, -, hprop'⟩⟩ :=
      hb.inRound.broadcastProposal_eq ht ha hloc hn hreq hnone
    · rcases broadcastProposal_cases hprop with ⟨hf, -⟩ | ⟨-, -, hr⟩
      · simp at hf
      · refine ⟨hb.inRound.of_same (.of_rejects hr) (.of_rejects hr) (hb.inRound.ledger.rejects hr),
          hb.proofs.of_same (congrArg Prod.fst (outputs_of_rejects hr)) (SameCommitments.of_rejects hr).mono,
          (SameCommitments.of_rejects hr).machine.trans hb.machine, ⟨fun hf => by simp at hf, fun hc => ?_⟩,
          fun hf => by simp at hf, fun hf => by simp at hf⟩
        obtain ⟨p, hp, -⟩ := (completes_congr (SameCommitments.of_rejects hr).machine).mp hc
        obtain ⟨n', hn', -, hpc⟩ := hp.requester
        obtain rfl : n = n' := Option.some.inj (hn.symm.trans hn')
        obtain rfl : cap = p.matchedCapability := Option.some.inj (hcap.symm.trans hpc)
        exact absurd hp.least.1 (hno _)
    · rw [hprop'] at hprop
      simp at hprop
  | @noProposal s₁ s₂ h₁ hreq h₂ hnone =>
    obtain ⟨-, p, -, hp⟩ := h.proposed ht ha hloc h₁ hreq h₂
    rw [hnone] at hp
    simp at hp
  | @missingProof s₁ s₂ s₃ p h₁ hreq h₂ hp h₃ hmissing =>
    obtain ⟨hb, q, hpick, hq⟩ := h.proposed ht ha hloc h₁ hreq h₂
    obtain rfl : p = q := Option.some.inj (hp.symm.trans hq)
    obtain ⟨hs₃, hiff, -⟩ := hb.inRound.proofsDone ht hloc hpick hb.proofs hb.unproved h₃
    refine ⟨hb.inRound.of_same h₃.frame h₃.sameCommitments (hb.inRound.ledger.proofsDone h₃), hs₃,
      h₃.sameCommitments.machine.trans hb.machine, ⟨fun hf => by simp at hf, fun hc => ?_⟩, fun hf => by simp at hf,
      fun hf => by simp at hf⟩
    obtain ⟨q, hq, hclean⟩ := (completes_congr h₃.sameCommitments.machine).mp hc
    obtain ⟨hr, hpv⟩ := hpick.unique hq
    rw [hr, hpv] at hclean
    exact absurd (hiff.mpr hclean) hmissing
  | @finalized s₁ s₂ s₃ s₄ p h₁ hreq h₂ hp h₃ hboth h₄ =>
    obtain ⟨hb, q, hpick, hq⟩ := h.proposed ht ha hloc h₁ hreq h₂
    obtain rfl : p = q := Option.some.inj (hp.symm.trans hq)
    exact hb.finalized ht hloc (congrArg Prod.snd (h₂.outputs.trans h₁.outputs)) hpick hp h₃ hboth h₄

/-! ## What is logged -/

/-- A logged commitment is held in a round of the machine. -/
theorem Ledger.held_of_logged {t : TopologyConfig} (h : Ledger t s) {c : CommitmentRecord} (hc : c ∈ s.log.commitments) :
    ∃ f ∈ s.roundMachine.rounds, f.round = c.round ∧ f.commitments[c.nodeId]? = some c := by
  obtain ⟨f, hf, hr⟩ := h.commitmentRounds c hc
  exact ⟨f, hf, hr, ((h.agrees f hf).commitments c.nodeId c).mpr ⟨hc, rfl, hr.symm⟩⟩

/-- In a round, every logged commitment is its node's own. -/
theorem InRound.logged_own (h : InRound Γ s₀ round s) :
    ∀ c ∈ s.log.commitments, Own Γ s₀ c.nodeId c.round c := by
  intro c hc
  obtain ⟨f, hf, hr, hheld⟩ := h.ledger.1.held_of_logged hc
  rw [← hr]
  rcases RoundMachine.mem_rounds.mp hf with hf | rfl
  · exact h.past f hf _ _ hheld
  · exact h.ledger.2.symm ▸ h.own _ _ hheld

/-- Before a round, every logged commitment is its node's own. -/
theorem InProcess.logged_own (h : InProcess Γ s₀ s) :
    ∀ c ∈ s.log.commitments, Own Γ s₀ c.nodeId c.round c := by
  intro c hc
  obtain ⟨f, hf, hr, hheld⟩ := h.before.ledger.held_of_logged hc
  rw [← hr]
  rcases RoundMachine.mem_rounds.mp hf with hf | rfl
  · exact h.past f hf _ _ hheld
  · exact absurd (Std.TreeMap.mem_iff_isSome_getElem?.mpr (by rw [hheld]; rfl)) (h.empty c.nodeId)

/-! ## Runs -/

/-- The state in which a run starts. -/
def RuntimeState.starting (t : TopologyConfig) (agents : Agents) (scenario : Scenario) (maxRounds : UInt64) (salt : Bytes 32)
    (runId : String) : RuntimeState :=
  { RuntimeState.initial t agents scenario maxRounds with runSalt := salt, log := .new runId }

theorem InProcess.start (t : TopologyConfig) (agents : Agents) (scenario : Scenario) (maxRounds : UInt64) (salt : Bytes 32)
    (runId : String) : InProcess Γ (.starting t agents scenario maxRounds salt runId)
      (.starting t agents scenario maxRounds salt runId) where
  config := .refl _
  before := .start
  unproposed := rfl
  empty n := Std.TreeMap.not_mem_emptyc
  past f hf := absurd hf List.not_mem_nil
  seen n r c hr _ := absurd hr UInt64.not_lt_zero
  history x hx := absurd hx (Finset.notMem_empty x)
  remembers n r c hc := by simp [starting, initial] at hc
  proofs a ha := absurd ha List.not_mem_nil

/-- A round that falls back leads to the next one. -/
theorem InProcess.fallback (ht : s₀.topology.WellFormed Γ) (ha : AgentsOf Γ s₀.topology s₀.agents) (hloc : AllLocal s₀)
    (h : InProcess Γ s₀ s) (he : RoundEnds Γ inProcess s.roundMachine.current s .fallback s') {m' : RoundMachine}
    (hadv : s'.roundMachine.advanceFallback = some (.ok (), m')) : InProcess Γ s₀ { s' with roundMachine := m' } := by
  have hend := h.ended ht ha hloc he
  have hbefore := h.before.fallback ht he hadv
  obtain ⟨rfl, hnext⟩ := RoundMachine.advanceFallback_ok hadv
  have hcur := hend.inRound.ledger.2
  have hlt : ∀ r, r < s'.roundMachine.current + 1 ↔ r ≤ s.roundMachine.current := by
    intro r
    rw [UInt64.lt_iff_toNat_lt, UInt64.le_iff_toNat_le, hnext, hcur]
    exact Nat.lt_succ_iff
  have hconf := hend.inRound.config
  exact {
    config := ⟨hconf.1, hconf.2, hconf.3, hconf.4, hconf.5⟩
    before := hbefore
    unproposed := rfl
    empty := fun n => Std.TreeMap.not_mem_emptyc
    past := fun f hf n c hc => by
      rcases List.mem_append.mp hf with hf | hf
      · exact hend.inRound.past f hf n c hc
      · rw [List.mem_singleton.mp hf] at hc ⊢
        exact hcur ▸ hend.inRound.own n c hc
    seen := fun n r c hr hown => hend.inRound.seen n r c ((hlt r).mp hr) hown
    history := fun x hx => by
      obtain ⟨n, r, c, hr, hown, hxc⟩ := hend.inRound.history x hx
      exact ⟨n, r, c, (hlt r).mpr hr, hown, hxc⟩
    remembers := fun n r c hc => by
      obtain ⟨hr, hown⟩ := hend.inRound.remembers n r c hc
      exact ⟨(hlt r).mpr hr, hown⟩
    proofs := fun a hmem => ⟨(hend.proofs a hmem).1, (hlt _).mpr (hend.proofs a hmem).2⟩ }

/-- The rounds of an in-process run: the last one is finalized, or none is and the run stands before the next one. -/
theorem inProcess_runRounds (ht : s₀.topology.WellFormed Γ) (ha : AgentsOf Γ s₀.topology s₀.agents) (hloc : AllLocal s₀)
    {n : Nat} {fr fr' : RoundId} {rt rt' : Runtime OrderedBus} {fin : Bool} (hq : rt.transport.queue = [])
    (h : InProcess Γ s₀ rt.state) (hrun : Runtime.runRounds Γ n fr rt = .ok (rt', fin, fr')) :
    (fin = true ∧ ∃ s, InProcess Γ s₀ s ∧ s.roundMachine.current = fr' ∧ Ended Γ s₀ s fr' .finalized rt'.state) ∨
      (fin = false ∧ InProcess Γ s₀ rt'.state) := by
  rcases Runtime.runRounds_spec OrderedBus.delivers (P := InProcess Γ s₀)
      (fun _ _ _ hP he hadv => hP.fallback ht ha hloc he hadv) hq h hrun with ⟨hf, s, hs, rfl, he⟩ | ⟨hf, hs, -⟩
  · exact Or.inl ⟨hf, s, hs, rfl, hs.ended ht ha hloc he⟩
  · exact Or.inr ⟨hf, hs⟩

/-- An in-process run of a loaded bundle: the state it ends in. -/
theorem inProcess_run (T : LoadedTopology Γ) (L : LoadedAgents Γ T.config) (scenario : Scenario) (maxRounds : UInt64)
    (salt : Bytes 32) (runId : String) {rt : Runtime OrderedBus} {out : RuntimeOutcome}
    (hnew : Runtime.new T.config OrderedBus.new L.agents scenario maxRounds = .ok rt)
    (hrun : (rt.withRunSalt salt).run Γ runId = .ok out) :
    ∃ s', out.log = Runtime.closeLog s'.log out.finalized out.finalRound ∧
      (∀ rj ∈ s'.log.rejections, rj.round ≤ out.finalRound) ∧
      ((out.finalized = true ∧ ∃ s, InProcess Γ (.starting T.config L.agents scenario maxRounds salt runId) s ∧
          Ended Γ (.starting T.config L.agents scenario maxRounds salt runId) s out.finalRound .finalized s') ∨
        (out.finalized = false ∧ InProcess Γ (.starting T.config L.agents scenario maxRounds salt runId) s')) := by
  obtain ⟨rt', hrounds, hlog⟩ := Runtime.run_eq_ok hrun
  obtain rfl := Runtime.new_eq_ok hnew
  obtain ⟨-, -, hspan⟩ := BeforeRound.ends (delivers_any OrderedBus) T.wellFormed trivial .start rfl hrounds
  have hloc : AllLocal (.starting T.config L.agents scenario maxRounds salt runId) := fun n hn =>
    L.mem_agents.mpr ⟨n, hn, rfl⟩
  refine ⟨rt'.state, hlog, hspan, ?_⟩
  rcases inProcess_runRounds T.wellFormed L.agentsOf hloc rfl (.start T.config L.agents scenario maxRounds salt runId)
    hrounds with ⟨hf, s, hs, -, hend⟩ | ⟨hf, hs⟩
  · exact Or.inl ⟨hf, s, hs, hend⟩
  · exact Or.inr ⟨hf, hs⟩

end

end VertexVeil
