import VertexVeil.Lemmas.Alike

/-!
# Helpers for `Theorems/Deliveries.lean`: deliveries without messages that were rejected

`Twin` states agree on all but the rejections. A broadcast does the same in both, a message that is handled in both keeps them
so, and a message that is rejected in one need not be handled in the other: `Twin.thins` is that step over a batch, and
`runRounds_thinned` the induction over the rounds.
-/

namespace VertexVeil

open Codec RuntimeState

/-- What a runtime is configured with, and what it remembers of its own commitments. -/
def RuntimeState.settings (s : RuntimeState) :
    Agents × Scenario × Finset (NodeId × RoundId) × (NodeId × RoundId → Option CommitmentRecord) × UInt64 × Bytes 32 :=
  (s.agents, s.scenario, s.invalidProofSchedule, s.historicalCommitments, s.maxRounds, s.runSalt)

/-- States that differ in the rejections of their logs at most. -/
structure Twin (s s' : RuntimeState) : Prop where
  alike : Alike s s'
  settings : s'.settings = s.settings

/-- A batch without some of the messages that are rejected when it is handled in a state. -/
inductive Thins (round : RoundId) (phase : Phase) : RuntimeState → List CoordinationMessage → List CoordinationMessage → Prop where
  | nil (s : RuntimeState) : Thins round phase s [] []
  | keep {s msg batch batch'} : Thins round phase (phase.handle round s msg) batch batch' →
      Thins round phase s (msg :: batch) (msg :: batch')
  | drop {s msg batch batch'} : (phase.handle round s msg).log.rejections ≠ s.log.rejections →
      Thins round phase (phase.handle round s msg) batch batch' → Thins round phase s (msg :: batch) batch'

/-- Deliveries without some of the messages that a run from `s₀` over them rejects: in every phase it drains. -/
def Thinned (Γ : Crypto) (d d' : Deliveries) (s₀ : RuntimeState) (maxRounds : UInt64) : Prop :=
  ∀ s, Enters Γ d.delivery s₀ s → s.roundMachine.current < maxRounds → ∀ phase s₁,
    Drains Γ d.delivery s.roundMachine.current s phase s₁ → Thins s.roundMachine.current phase s₁
      (d.schedule s.roundMachine.current phase) (d'.schedule s.roundMachine.current phase)

theorem Thins.refl (round : RoundId) (phase : Phase) (s : RuntimeState) (batch : List CoordinationMessage) :
    Thins round phase s batch batch := by
  induction batch generalizing s with
  | nil => exact .nil s
  | cons msg batch ih => exact .keep (ih _)

section

variable {Γ : Crypto} {t : TopologyConfig} {round : RoundId} {s s' s₁ : RuntimeState} {msgs : List CoordinationMessage}

theorem settings_of_rejects (h : Rejects round s s') : s'.settings = s.settings := by
  obtain ⟨_, _, _, -, rfl⟩ := h
  rfl

/-- No message changes what a runtime is configured with or remembers. -/
theorem settings_handle (phase : Phase) (msg : CoordinationMessage) : (phase.handle round s msg).settings = s.settings := by
  cases phase with
  | commitments =>
    rcases handleCommitment_cases round s msg with ⟨c, -, -, -, ⟨-, he⟩ | ⟨-, he⟩⟩ | hr
    · rw [Phase.handle, he]
      rfl
    · rw [Phase.handle, he]
      rfl
    · exact settings_of_rejects hr
  | proposal =>
    rcases handleProposal_cases round s msg with ⟨p, -, -, -, he⟩ | hr
    · rw [Phase.handle, he]
      rfl
    · exact settings_of_rejects hr
  | proofs =>
    rcases handleProof_cases round s msg with ⟨a, c, -, -, -, -, -, he⟩ | hr
    · rw [Phase.handle, he]
      rfl
    · exact settings_of_rejects hr
  | receipts =>
    rcases handleReceipt_cases round s msg with ⟨r, -, -, -, -, he⟩ | ⟨-, hr⟩
    · rw [Phase.handle, he]
      rfl
    · exact settings_of_rejects hr

/-- A message whose handling logs a rejection does nothing else. -/
theorem rejects_of_logged (hl : Ledger.At t round s) {phase : Phase} {msg : CoordinationMessage}
    (h : (phase.handle round s msg).log.rejections ≠ s.log.rejections) : Rejects round s (phase.handle round s msg) := by
  cases phase with
  | commitments =>
    rcases handleCommitment_cases round s msg with ⟨c, -, -, hc, ⟨hk, he⟩ | ⟨hk, -⟩⟩ | hr
    · refine absurd ?_ h
      rw [Phase.handle, he, hl.1.log_takeCommitment hc]
    · exact absurd hk (hl.1.key_notMem hc)
    · exact hr
  | proposal =>
    rcases handleProposal_cases round s msg with ⟨p, -, -, -, he⟩ | hr
    · refine absurd ?_ h
      rw [Phase.handle, he]
      rfl
    · exact hr
  | proofs =>
    rcases handleProof_cases round s msg with ⟨a, c, -, -, -, -, -, he⟩ | hr
    · refine absurd ?_ h
      rw [Phase.handle, he]
      rfl
    · exact hr
  | receipts =>
    rcases handleReceipt_cases round s msg with ⟨r, -, -, -, -, he⟩ | ⟨-, hr⟩
    · refine absurd ?_ h
      rw [Phase.handle, he]
      rfl
    · exact hr

theorem Ledger.At.handle {Γ : Crypto} (ht : t.WellFormed Γ) (hl : Ledger.At t round s) (phase : Phase)
    (msg : CoordinationMessage) : Ledger.At t round (phase.handle round s msg) := by
  cases phase with
  | commitments => exact hl.handleCommitment msg
  | proposal => exact hl.handleProposal ht msg
  | proofs => exact hl.handleProof msg
  | receipts => exact hl.handleReceipt msg

namespace Twin

theorem of_rejects (h : Rejects round s s') : Twin s s' := ⟨.of_rejects h, settings_of_rejects h⟩

theorem symm (h : Twin s s') : Twin s' s := ⟨h.alike.symm, h.settings.symm⟩

theorem trans (h : Twin s s') (h' : Twin s' s₁) : Twin s s₁ := ⟨h.alike.trans h'.alike, h'.settings.trans h.settings⟩

/-- A twin is the state itself with another log. -/
theorem eq (h : Twin s s') : s' = { s with log := s'.log } := by
  obtain ⟨⟨ht, hm, -⟩, hs⟩ := h
  obtain ⟨t, log, agents, m, scenario, schedule, historical, rounds, salt⟩ := s
  obtain ⟨t', log', agents', m', scenario', schedule', historical', rounds', salt'⟩ := s'
  simp only [RuntimeState.settings, Prod.mk.injEq] at ht hm hs
  obtain ⟨rfl, rfl, rfl, rfl, rfl, rfl⟩ := hs
  subst ht hm
  rfl

theorem handle (h : Twin s s') (phase : Phase) (msg : CoordinationMessage) :
    Twin (phase.handle round s msg) (phase.handle round s' msg) :=
  ⟨h.alike.handle phase msg, (settings_handle phase msg).trans (h.settings.trans (settings_handle phase msg).symm)⟩

/-- Over a batch and the batch without messages that were rejected, twins stay twins. -/
theorem thins {Γ : Crypto} (ht : t.WellFormed Γ) (hl : Ledger.At t round s) {phase : Phase}
    {batch batch' : List CoordinationMessage} (hthin : Thins round phase s batch batch') (h : Twin s s') :
    Twin (batch.foldl (phase.handle round) s) (batch'.foldl (phase.handle round) s') := by
  induction hthin generalizing s' with
  | nil => exact h
  | keep _ ih => exact ih (hl.handle ht phase _) (h.handle phase _)
  | drop hrej _ ih => exact ih (hl.handle ht phase _) ((of_rejects (rejects_of_logged hl hrej)).symm.trans h)

/-! ## What twins broadcast -/

theorem broadcastCommitmentsOf {nodes : List NodeId} (h : Twin s s')
    (hb : s.broadcastCommitmentsOf Γ round nodes = (msgs, .ok s₁)) :
    ∃ msgs' s₁', s'.broadcastCommitmentsOf Γ round nodes = (msgs', .ok s₁') ∧ Twin s₁ s₁' := by
  induction nodes generalizing s s' msgs with
  | nil =>
    simp only [RuntimeState.broadcastCommitmentsOf, Prod.mk.injEq, Except.ok.injEq] at hb
    exact ⟨[], s', rfl, hb.2 ▸ h⟩
  | cons n nodes ih =>
    obtain ⟨s₂, h₂, h₁, -⟩ := andThen_eq_ok hb
    have hrest : s₂.broadcastCommitmentsOf Γ round nodes = ((s₂.broadcastCommitmentsOf Γ round nodes).1, .ok s₁) :=
      Prod.ext rfl h₁
    have hstep : ∃ msgs' s₂', s'.broadcastCommitment Γ round n = (msgs', .ok s₂') ∧ Twin s₂ s₂' := by
      have hs' := h.eq
      rcases broadcastCommitment_cases h₂ with ⟨hd, rfl⟩ | ⟨hd, c, hc, rfl⟩
      · have hd' : s'.scenario.hasDropped n round = true := by
          rw [hs']
          exact hd
        refine ⟨_, _, if_pos hd', ⟨h.alike.reject _ _ _ _, ?_⟩⟩
        exact h.settings
      · have hd' : s'.scenario.hasDropped n round = false := by
          rw [hs']
          exact hd
        have hc' : s'.buildCommitment Γ n round = .ok c := by
          rw [hs']
          exact hc
        simp only [broadcastCommitment, hd', Bool.false_eq_true, if_false, hc']
        refine ⟨_, _, rfl, ⟨h.alike.topology, h.alike.machine, h.alike.record⟩, ?_⟩
        rw [hs']
        rfl
    obtain ⟨msgs₁, s₂', hb', ht⟩ := hstep
    obtain ⟨msgs₂, s₁', hb₂, ht₂⟩ := ih ht hrest
    exact ⟨msgs₁ ++ msgs₂, s₁', by simp only [RuntimeState.broadcastCommitmentsOf, Emit.andThen, hb', hb₂], ht₂⟩

theorem broadcastCommitments (h : Twin s s') (hb : s.broadcastCommitments Γ round = (msgs, .ok s₁)) :
    ∃ msgs' s₁', s'.broadcastCommitments Γ round = (msgs', .ok s₁') ∧ Twin s₁ s₁' := by
  have hk : s'.agents = s.agents := congrArg Prod.fst h.settings
  unfold RuntimeState.broadcastCommitments
  rw [hk]
  exact h.broadcastCommitmentsOf hb

theorem broadcastProposal {ok : Bool} (h : Twin s s') (hb : s.broadcastProposal round = (msgs, .ok (ok, s₁))) :
    ∃ s₁', s'.broadcastProposal round = (msgs, .ok (ok, s₁')) ∧ Twin s₁ s₁' := by
  have hm := h.alike.machine
  have ha : s'.agents = s.agents := congrArg Prod.fst h.settings
  unfold RuntimeState.broadcastProposal at hb ⊢
  rw [hm, ha, h.alike.topology]
  split at hb
  · simp at hb
  · rename_i proposer _
    split at hb
    · rename_i hl
      simp only [Prod.mk.injEq, Except.ok.injEq] at hb
      obtain ⟨rfl, rfl, rfl⟩ := hb
      exact ⟨s', if_pos hl, h⟩
    · rename_i hl
      rw [if_neg hl]
      split at hb
      · simp at hb
      · split at hb
        · simp only [Prod.mk.injEq, Except.ok.injEq] at hb
          obtain ⟨rfl, rfl, rfl⟩ := hb
          exact ⟨_, rfl, h.alike.reject _ _ _ _, h.settings⟩
        · split at hb
          · simp only [Prod.mk.injEq, Except.ok.injEq] at hb
            obtain ⟨rfl, rfl, rfl⟩ := hb
            exact ⟨s', rfl, h⟩
          · simp only [Prod.mk.injEq, Except.ok.injEq] at hb
            obtain ⟨rfl, rfl, rfl⟩ := hb
            exact ⟨_, rfl, h.alike.reject _ _ _ _, h.settings⟩
          · simp only [Prod.mk.injEq, Except.ok.injEq] at hb
            obtain ⟨rfl, rfl, rfl⟩ := hb
            exact ⟨_, rfl, h.alike.reject _ _ _ _, h.settings⟩

theorem broadcastProofs (h : Twin s s') (p : ProposalRecord) :
    s'.broadcastProofs Γ round p = s.broadcastProofs Γ round p := by
  rw [h.eq]
  rfl

theorem broadcastReceipt (h : Twin s s') (p : ProposalRecord) :
    s'.broadcastReceipt Γ round p = s.broadcastReceipt Γ round p := by
  rw [h.eq]
  rfl

theorem requesterIn (h : Twin s s') (hr : RequesterIn s) : RequesterIn s' := by
  obtain ⟨n, hn, hm⟩ := hr
  refine ⟨n, (congrArg TopologyConfig.requester h.alike.topology).trans hn, ?_⟩
  rw [h.alike.machine]
  exact hm

theorem bothProofs (h : Twin s s') {p : ProposalRecord} : BothProofs round p s' ↔ BothProofs round p s := by
  simp only [BothProofs, h.alike.hasProof]

end Twin

/-! ## Rounds -/

section

variable {d d' : Deliveries} {p : ProposalRecord}

theorem CommitmentsDone.thinned (ht : t.WellFormed Γ) (hl : Ledger.At t round s) (htw : Twin s s')
    (hthin : ∀ msgs x, s.broadcastCommitments Γ round = (msgs, .ok x) →
      Thins round .commitments x (d.schedule round .commitments) (d'.schedule round .commitments))
    (h : CommitmentsDone Γ d.delivery round s s₁) :
    ∃ s₁', CommitmentsDone Γ d'.delivery round s' s₁' ∧ Twin s₁ s₁' := by
  obtain ⟨hb, hd⟩ := h
  obtain ⟨msgs', x', hb', htw'⟩ := htw.broadcastCommitments hb
  refine ⟨_, .intro hb' rfl, ?_⟩
  rw [show _ = _ from hd]
  exact htw'.thins ht ((Ledger.At.kept ht).commitments hl hb) (hthin _ _ hb)

theorem ProposalDone.thinned (ht : t.WellFormed Γ) (hl : Ledger.At t round s) (htw : Twin s s')
    (hthin : ∀ msgs x, s.broadcastProposal round = (msgs, .ok (true, x)) →
      Thins round .proposal x (d.schedule round .proposal) (d'.schedule round .proposal))
    (h : ProposalDone d.delivery round s s₁) : ∃ s₁', ProposalDone d'.delivery round s' s₁' ∧ Twin s₁ s₁' := by
  obtain ⟨hb, hd⟩ := h
  obtain ⟨x', hb', htw'⟩ := htw.broadcastProposal hb
  refine ⟨_, .intro hb' rfl, ?_⟩
  rw [show _ = _ from hd]
  exact htw'.thins ht ((Ledger.At.kept ht).broadcastProposal hl hb) (hthin _ _ hb)

theorem ProofsDone.thinned (ht : t.WellFormed Γ) (hl : Ledger.At t round s) (htw : Twin s s')
    (hthin : Thins round .proofs s (d.schedule round .proofs) (d'.schedule round .proofs))
    (h : ProofsDone Γ d.delivery round p s s₁) : ∃ s₁', ProofsDone Γ d'.delivery round p s' s₁' ∧ Twin s₁ s₁' := by
  obtain ⟨hb, hd⟩ := h
  refine ⟨_, .intro ((htw.broadcastProofs p).trans hb) rfl, ?_⟩
  rw [show _ = _ from hd]
  exact htw.thins ht hl hthin

theorem ReceiptsDone.thinned (ht : t.WellFormed Γ) (hl : Ledger.At t round s) (htw : Twin s s')
    (hthin : Thins round .receipts s (d.schedule round .receipts) (d'.schedule round .receipts))
    (h : ReceiptsDone Γ d.delivery round p s s₁) : ∃ s₁', ReceiptsDone Γ d'.delivery round p s' s₁' ∧ Twin s₁ s₁' := by
  obtain ⟨hb, hd⟩ := h
  refine ⟨_, .intro ((htw.broadcastReceipt p).trans hb) rfl, ?_⟩
  rw [show _ = _ from hd]
  exact htw.thins ht hl hthin

/-- A round ends over the thinned deliveries as over all of them. -/
theorem RoundEnds.thinned (ht : t.WellFormed Γ) (hl : Ledger.At t round s) (htw : Twin s s')
    (hthin : ∀ phase x, Drains Γ d.delivery round s phase x →
      Thins round phase x (d.schedule round phase) (d'.schedule round phase)) {o : RoundOutcome}
    (h : RoundEnds Γ d.delivery round s o s₁) : ∃ s₁', RoundEnds Γ d'.delivery round s' o s₁' ∧ Twin s₁ s₁' := by
  have hk := Ledger.At.kept ht
  cases h with
  | @requesterMissing s₁ n h₁ hn hmiss =>
    obtain ⟨s₁', h₁', ht₁⟩ := h₁.thinned ht hl htw fun _ _ hb => hthin _ _ (.commitments hb)
    refine ⟨_, .requesterMissing h₁' ?_ ?_, ht₁.alike.reject _ _ _ _, ht₁.settings⟩
    · rw [ht₁.alike.topology]
      exact hn
    · rw [ht₁.alike.machine]
      exact hmiss
  | @noCandidate s₁ s₂ msgs h₁ hreq hb =>
    obtain ⟨s₁', h₁', ht₁⟩ := h₁.thinned ht hl htw fun _ _ hb => hthin _ _ (.commitments hb)
    obtain ⟨s₂', hb', ht₂⟩ := ht₁.broadcastProposal hb
    exact ⟨s₂', .noCandidate h₁' (ht₁.requesterIn hreq) hb', ht₂⟩
  | @noProposal s₁ s₂ h₁ hreq h₂ hnone =>
    obtain ⟨s₁', h₁', ht₁⟩ := h₁.thinned ht hl htw fun _ _ hb => hthin _ _ (.commitments hb)
    obtain ⟨s₂', h₂', ht₂⟩ := h₂.thinned ht (hk.commitmentsDone hl h₁) ht₁ fun _ _ hb => hthin _ _ (.proposal h₁ hreq hb)
    exact ⟨s₂', .noProposal h₁' (ht₁.requesterIn hreq) h₂' ((ht₂.alike.proposalOf round).trans hnone), ht₂⟩
  | @missingProof s₁ s₂ s₃ p h₁ hreq h₂ hlast h₃ hboth =>
    obtain ⟨s₁', h₁', ht₁⟩ := h₁.thinned ht hl htw fun _ _ hb => hthin _ _ (.commitments hb)
    have hl₁ := hk.commitmentsDone hl h₁
    obtain ⟨s₂', h₂', ht₂⟩ := h₂.thinned ht hl₁ ht₁ fun _ _ hb => hthin _ _ (.proposal h₁ hreq hb)
    have hl₂ := hk.proposalDone hl₁ h₂
    obtain ⟨s₃', h₃', ht₃⟩ := h₃.thinned ht hl₂ ht₂ (hthin _ _ (.proofs h₁ hreq h₂ hlast))
    exact ⟨s₃', .missingProof h₁' (ht₁.requesterIn hreq) h₂' ((ht₂.alike.proposalOf round).trans hlast) h₃'
      (fun hb => hboth (ht₃.bothProofs.mp hb)), ht₃⟩
  | @finalized s₁ s₂ s₃ s₄ p h₁ hreq h₂ hlast h₃ hboth h₄ =>
    obtain ⟨s₁', h₁', ht₁⟩ := h₁.thinned ht hl htw fun _ _ hb => hthin _ _ (.commitments hb)
    have hl₁ := hk.commitmentsDone hl h₁
    obtain ⟨s₂', h₂', ht₂⟩ := h₂.thinned ht hl₁ ht₁ fun _ _ hb => hthin _ _ (.proposal h₁ hreq hb)
    have hl₂ := hk.proposalDone hl₁ h₂
    obtain ⟨s₃', h₃', ht₃⟩ := h₃.thinned ht hl₂ ht₂ (hthin _ _ (.proofs h₁ hreq h₂ hlast))
    have hl₃ := hk.proofsDone hl₂ h₃
    obtain ⟨s₄', h₄', ht₄⟩ := h₄.thinned ht hl₃ ht₃ (hthin _ _ (.receipts h₁ hreq h₂ hlast h₃ hboth))
    exact ⟨s₄', .finalized h₁' (ht₁.requesterIn hreq) h₂' ((ht₂.alike.proposalOf round).trans hlast) h₃'
      (ht₃.bothProofs.mpr hboth) h₄', ht₄⟩

end

/-! ## Runs -/

namespace Runtime

variable {d d' : Deliveries}

theorem emit_deliveries {α : Type} {e : Emit α} {a : α} (h : e = (msgs, .ok a)) : emit d e = .ok (a, d) := by
  simp only [emit, h, Deliveries.broadcastAll_eq]

theorem receiptPhase_eq {p : ProposalRecord} (h : ReceiptsDone Γ d.delivery round p s s₁) :
    receiptPhase Γ round p ⟨s, d⟩ = .ok (.finalized, ⟨s₁, d⟩) := by
  obtain ⟨hb, hd⟩ := h
  rw [show _ = _ from hd]
  simp only [receiptPhase, emit_deliveries hb, bind, Except.bind]
  rfl

theorem proofPhase_eq {p : ProposalRecord} (h : ProofsDone Γ d.delivery round p s s₁) : proofPhase Γ round p ⟨s, d⟩ =
    if s₁.log.hasProof p.candidateRequester round ∧ s₁.log.hasProof p.candidateProvider round then
      receiptPhase Γ round p ⟨s₁, d⟩ else .ok (.fallback, ⟨s₁, d⟩) := by
  obtain ⟨hb, hd⟩ := h
  rw [show _ = _ from hd]
  simp only [proofPhase, emit_deliveries hb, bind, Except.bind]
  rfl

theorem proposalPhase_of_none (h : ProposalDone d.delivery round s s₁) (hp : s₁.log.proposalOf round = none) :
    proposalPhase Γ round ⟨s, d⟩ = .ok (.fallback, ⟨s₁, d⟩) := by
  obtain ⟨hb, hd⟩ := h
  rw [show _ = _ from hd] at hp ⊢
  simp only [proposalPhase, emit_deliveries hb, bind, Except.bind, not_true_eq_false, if_false, receive,
    CoordinationTransport.deliver, CoordinationTransport.flush, hp]
  rfl

theorem proposalPhase_of_some {p : ProposalRecord} (h : ProposalDone d.delivery round s s₁)
    (hp : s₁.log.proposalOf round = some p) : proposalPhase Γ round ⟨s, d⟩ = proofPhase Γ round p ⟨s₁, d⟩ := by
  obtain ⟨hb, hd⟩ := h
  rw [show _ = _ from hd] at hp ⊢
  simp only [proposalPhase, emit_deliveries hb, bind, Except.bind, not_true_eq_false, if_false, receive,
    CoordinationTransport.deliver, CoordinationTransport.flush, hp]

theorem runOneRound_eq {n : NodeConfig} (h : CommitmentsDone Γ d.delivery round s s₁)
    (hn : s₁.topology.requester = some n) : runOneRound Γ round ⟨s, d⟩ =
      if ¬ s₁.roundMachine.commitments.contains n.id then
        .ok (.fallback, ⟨s₁.reject round n.id "round" "requester_missing", d⟩)
      else proposalPhase Γ round ⟨s₁, d⟩ := by
  obtain ⟨hb, hd⟩ := h
  rw [show _ = _ from hd] at hn ⊢
  simp only [runOneRound, emit_deliveries hb, bind, Except.bind, receive, CoordinationTransport.deliver,
    CoordinationTransport.flush, hn]
  rfl

/-- With the requester committed the round goes on to its proposal phase. -/
theorem runOneRound_of_requesterIn (h : CommitmentsDone Γ d.delivery round s s₁) (hr : RequesterIn s₁) :
    runOneRound Γ round ⟨s, d⟩ = proposalPhase Γ round ⟨s₁, d⟩ := by
  obtain ⟨n, hn, hm⟩ := hr
  rw [runOneRound_eq h hn, if_neg (not_not.mpr (Std.TreeMap.contains_iff_mem.mpr hm))]

/-- A round that ends in one of the ways over a schedule is one that the runtime runs. -/
theorem runOneRound_of_ends {o : RoundOutcome} (h : RoundEnds Γ d.delivery round s o s₁) :
    runOneRound Γ round ⟨s, d⟩ = .ok (o, ⟨s₁, d⟩) := by
  cases h with
  | requesterMissing h₁ hn hmiss =>
    rw [runOneRound_eq h₁ hn, if_pos (fun hm => hmiss (Std.TreeMap.contains_iff_mem.mp hm))]
  | noCandidate h₁ hreq hb =>
    rw [runOneRound_of_requesterIn h₁ hreq]
    simp only [proposalPhase, emit_deliveries hb, bind, Except.bind, Bool.false_eq_true, not_false_eq_true, if_true]
    rfl
  | noProposal h₁ hreq h₂ hnone => rw [runOneRound_of_requesterIn h₁ hreq, proposalPhase_of_none h₂ hnone]
  | missingProof h₁ hreq h₂ hlast h₃ hboth =>
    unfold BothProofs at hboth
    rw [runOneRound_of_requesterIn h₁ hreq, proposalPhase_of_some h₂ hlast, proofPhase_eq h₃, if_neg hboth]
  | finalized h₁ hreq h₂ hlast h₃ hboth h₄ =>
    unfold BothProofs at hboth
    rw [runOneRound_of_requesterIn h₁ hreq, proposalPhase_of_some h₂ hlast, proofPhase_eq h₃, if_pos hboth,
      receiptPhase_eq h₄]

/-- The rounds of a run end over the thinned deliveries as over all of them. -/
theorem runRounds_thinned (ht : t.WellFormed Γ) {s₀ : RuntimeState} {maxRounds : UInt64} {n : Nat} {fr fr' : RoundId}
    {rt' : Runtime Deliveries} {fin : Bool} (hthin : Thinned Γ d d' s₀ maxRounds) (hl : Ledger t s)
    (he : Enters Γ d.delivery s₀ s) (hn : s.roundMachine.current.toNat + n ≤ maxRounds.toNat) (htw : Twin s s')
    (h : runRounds Γ n fr ⟨s, d⟩ = .ok (rt', fin, fr')) :
    ∃ rt'' : Runtime Deliveries, runRounds Γ n fr ⟨s', d'⟩ = .ok (rt'', fin, fr') ∧ Twin rt'.state rt''.state := by
  induction n generalizing fr s s' with
  | zero =>
    simp only [runRounds, Except.ok.injEq, Prod.mk.injEq] at h
    obtain ⟨rfl, rfl, rfl⟩ := h
    exact ⟨⟨s', d'⟩, rfl, htw⟩
  | succ n ih =>
    obtain ⟨⟨o, ⟨s₁, d₁⟩⟩, h₁, h⟩ := Except.bind_eq_ok h
    obtain ⟨hends, hd⟩ := runOneRound_ends d.delivers (show (⟨s, d⟩ : Runtime Deliveries).transport = d from rfl) h₁
    obtain rfl : d₁ = d := hd
    have hlt : s.roundMachine.current < maxRounds := by
      rw [UInt64.lt_iff_toNat_lt]
      omega
    obtain ⟨s₁', hends', ht₁⟩ := hends.thinned ht ⟨hl, rfl⟩ htw (hthin s he hlt)
    have hcur : s'.roundMachine.current = s.roundMachine.current := congrArg RoundMachine.current htw.alike.machine
    simp only [runRounds, hcur, bind, Except.bind, runOneRound_of_ends hends']
    cases o with
    | finalized =>
      simp only [Except.ok.injEq, Prod.mk.injEq] at h
      obtain ⟨rfl, rfl, rfl⟩ := h
      exact ⟨⟨s₁', d'⟩, rfl, ht₁⟩
    | fallback =>
      obtain ⟨rt₂, h₂, h⟩ := Except.bind_eq_ok h
      obtain ⟨m', hm', rfl⟩ := advanceFallback_ok h₂
      have hl₁ := ((Ledger.At.kept ht).roundEnds ⟨hl, rfl⟩ hends).1
      have hm'' : s₁'.roundMachine.advanceFallback = some (.ok (), m') := by
        rw [ht₁.alike.machine]
        exact hm'
      simp only [advanceFallback, hm'']
      refine ih (hl₁.advance hm') (.next he hends hm') ?_ ⟨⟨ht₁.alike.topology, rfl, ht₁.alike.record⟩, ht₁.settings⟩ h
      obtain ⟨rfl, hnext⟩ := RoundMachine.advanceFallback_ok hm'
      have hframe : s₁.roundMachine.current = s.roundMachine.current := hends.frame.current
      change (s₁.roundMachine.current + 1).toNat + n ≤ maxRounds.toNat
      change (s₁.roundMachine.current + 1).toNat = s₁.roundMachine.current.toNat + 1 at hnext
      rw [hnext, hframe]
      omega

end Runtime

end

end VertexVeil
