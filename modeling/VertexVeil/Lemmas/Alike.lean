import VertexVeil.Lemmas.Ledger

/-!
# Helpers for `Theorems/Deliveries.lean`: what a run makes of its deliveries

Of a state, what is delivered meets the topology, the round machine and the record of the log alone; agents, scenario and
rejections only decide what is broadcast. `Alike` says that two states agree on these parts; every handler keeps it, and how a
round ends depends on nothing else.
-/

namespace VertexVeil

open Codec RuntimeState

/-- The record of a log: all but its name and its rejections. -/
def CoordinationLog.record (log : CoordinationLog) : CoordinationLog := { log with runId := "", rejections := [] }

/-- States with the same topology, round machine and record. -/
structure Alike (s s' : RuntimeState) : Prop where
  topology : s'.topology = s.topology
  machine : s'.roundMachine = s.roundMachine
  record : s'.log.record = s.log.record

/-- How a message is handled in a phase. -/
def Phase.handle (round : RoundId) : Phase → RuntimeState → CoordinationMessage → RuntimeState
  | .commitments => handleCommitment round
  | .proposal => handleProposal round
  | .proofs => handleProof round
  | .receipts => handleReceipt round

namespace Alike

variable {round : RoundId} {s s' s₁ : RuntimeState}

theorem refl (s : RuntimeState) : Alike s s := ⟨rfl, rfl, rfl⟩

theorem symm (h : Alike s s') : Alike s' s := ⟨h.topology.symm, h.machine.symm, h.record.symm⟩

theorem trans (h : Alike s s') (h' : Alike s' s₁) : Alike s s₁ :=
  ⟨h'.topology.trans h.topology, h'.machine.trans h.machine, h'.record.trans h.record⟩

theorem of_rejects (h : Rejects round s s') : Alike s s' := by
  obtain ⟨_, _, _, -, rfl⟩ := h
  exact ⟨rfl, rfl, rfl⟩

theorem reject (h : Alike s s') (round : RoundId) (node : NodeId) (kind reasonCode : String) :
    Alike (s.reject round node kind reasonCode) (s'.reject round node kind reasonCode) :=
  ⟨h.topology, h.machine, h.record⟩

theorem commitmentKeys (h : Alike s s') : s'.log.commitmentKeys = s.log.commitmentKeys := by
  have := congrArg CoordinationLog.commitmentKeys h.record
  exact this

theorem takeCommitment (h : Alike s s') (c : CommitmentRecord) : Alike (s.takeCommitment c) (s'.takeCommitment c) := by
  refine ⟨h.topology, congrArg (·.addCommitment c) h.machine, ?_⟩
  simp only [RuntimeState.takeCommitment, CoordinationLog.appendCommitment, h.commitmentKeys]
  split
  · exact h.record
  · exact congrArg (fun log : CoordinationLog => { log with
      commitmentKeys := insert (c.nodeId, c.round) s.log.commitmentKeys, commitments := log.commitments ++ [c] }) h.record

theorem handleCommitment (h : Alike s s') (msg : CoordinationMessage) :
    Alike (handleCommitment round s msg) (handleCommitment round s' msg) := by
  obtain ⟨origin, payload⟩ := msg
  cases payload with
  | commitment c =>
    simp only [RuntimeState.handleCommitment, h.machine]
    by_cases ho : origin ≠ c.nodeId
    · rw [if_pos ho, if_pos ho]
      exact h.reject _ _ _ _
    · rw [if_neg ho, if_neg ho]
      have ht := h.takeCommitment c
      simp only [RuntimeState.takeCommitment, h.machine] at ht
      rcases RoundMachine.acceptCommitment_cases s.roundMachine c with ⟨-, ha⟩ | ⟨-, e, ha⟩
      · simp only [ha]
        by_cases hk : (c.nodeId, c.round) ∈ s.log.commitmentKeys
        · have hk' := h.commitmentKeys ▸ hk
          simp only [CoordinationLog.appendCommitment, if_pos hk, if_pos hk'] at ht ⊢
          exact ht.reject _ _ _ _
        · have hk' := h.commitmentKeys ▸ hk
          simp only [CoordinationLog.appendCommitment, if_neg hk, if_neg hk'] at ht ⊢
          exact ht
      · simp only [ha]
        exact ⟨h.topology, rfl, h.record⟩
  | proposal p => exact h.reject _ _ _ _
  | proof a => exact h.reject _ _ _ _
  | receipt r => exact h.reject _ _ _ _

theorem handleProposal (h : Alike s s') (msg : CoordinationMessage) :
    Alike (handleProposal round s msg) (handleProposal round s' msg) := by
  obtain ⟨origin, payload⟩ := msg
  cases payload with
  | proposal p =>
    simp only [RuntimeState.handleProposal, h.machine]
    by_cases ho : origin ≠ p.proposer
    · rw [if_pos ho, if_pos ho]
      exact h.reject _ _ _ _
    · rw [if_neg ho, if_neg ho]
      rcases RoundMachine.acceptProposal_cases s.roundMachine p with ⟨-, ha⟩ | ⟨-, e, ha⟩
      · simp only [ha]
        exact ⟨h.topology, rfl, congrArg (·.appendProposal p) h.record⟩
      · simp only [ha]
        exact ⟨h.topology, rfl, h.record⟩
  | commitment c => exact h.reject _ _ _ _
  | proof a => exact h.reject _ _ _ _
  | receipt r => exact h.reject _ _ _ _

theorem handleProof (h : Alike s s') (msg : CoordinationMessage) :
    Alike (handleProof round s msg) (handleProof round s' msg) := by
  obtain ⟨origin, payload⟩ := msg
  cases payload with
  | proof a =>
    simp only [RuntimeState.handleProof, h.machine]
    by_cases ho : origin ≠ a.nodeId
    · rw [if_pos ho, if_pos ho]
      exact h.reject _ _ _ _
    · rw [if_neg ho, if_neg ho]
      by_cases hr : a.round ≠ round
      · rw [if_pos hr, if_pos hr]
        exact h.reject _ _ _ _
      · rw [if_neg hr, if_neg hr]
        cases s.roundMachine.commitments[a.nodeId]? with
        | none => exact h.reject _ _ _ _
        | some c =>
          by_cases hx : extractCommitmentHashHex a.publicInputsHex ≠ some c.commitmentHex
          · simp only [if_pos hx]
            exact h.reject _ _ _ _
          · simp only [if_neg hx]
            exact ⟨h.topology, rfl, congrArg (·.appendProof a) h.record⟩
  | commitment c => exact h.reject _ _ _ _
  | proposal p => exact h.reject _ _ _ _
  | receipt r => exact h.reject _ _ _ _

theorem handleReceipt (h : Alike s s') (msg : CoordinationMessage) :
    Alike (handleReceipt round s msg) (handleReceipt round s' msg) := by
  obtain ⟨origin, payload⟩ := msg
  cases payload with
  | receipt r =>
    simp only [RuntimeState.handleReceipt]
    by_cases ho : origin ≠ r.provider
    · rw [if_pos ho, if_pos ho]
      exact h.reject _ _ _ _
    · rw [if_neg ho, if_neg ho]
      by_cases hr : r.round ≠ round
      · rw [if_pos hr, if_pos hr]
        exact h.reject _ _ _ _
      · rw [if_neg hr, if_neg hr]
        by_cases hx : r.signatureHex = []
        · rw [if_pos hx, if_pos hx]
          exact h.reject _ _ _ _
        · rw [if_neg hx, if_neg hx]
          exact ⟨h.topology, h.machine, congrArg (·.appendReceipt r) h.record⟩
  | commitment c => exact h.reject _ _ _ _
  | proposal p => exact h.reject _ _ _ _
  | proof a => exact h.reject _ _ _ _

/-- Alike states stay so when the same message is handled. -/
theorem handle (h : Alike s s') (phase : Phase) (msg : CoordinationMessage) :
    Alike (phase.handle round s msg) (phase.handle round s' msg) := by
  cases phase with
  | commitments => exact h.handleCommitment msg
  | proposal => exact h.handleProposal msg
  | proofs => exact h.handleProof msg
  | receipts => exact h.handleReceipt msg

theorem foldl (h : Alike s s') (phase : Phase) (batch : List CoordinationMessage) :
    Alike (batch.foldl (phase.handle round) s) (batch.foldl (phase.handle round) s') := by
  induction batch generalizing s s' with
  | nil => exact h
  | cons msg batch ih => exact ih (h.handle phase msg)

end Alike

/-! ## What a round broadcasts does not matter to what it is delivered -/

section

variable {Γ : Crypto} {R : Delivery} {round : RoundId} {t : TopologyConfig} {s s' s₁ x : RuntimeState}
  {msgs : List CoordinationMessage}

theorem alike_broadcastCommitments (h : s.broadcastCommitments Γ round = (msgs, .ok s')) : Alike s s' :=
  broadcastCommitmentsOf_invariant (P := Alike s) (fun _ _ hP hr => hP.trans (.of_rejects hr))
    (fun _ _ _ hP _ _ => ⟨hP.topology, hP.machine, hP.record⟩) (.refl s) h

/-- Where the requester has committed and the proposer finds no candidate, no proposal passes the machine's checks. -/
theorem not_proposable (T : LoadedTopology Γ) (hl : Ledger.At T.config round s) (hr : RequesterIn s)
    (hb : s.broadcastProposal round = (msgs, .ok (false, s'))) (p : ProposalRecord) :
    ¬ RoundMachine.Proposable s.roundMachine p := by
  intro hp
  obtain ⟨n, hn, hmem⟩ := hr
  obtain ⟨req, hreq⟩ := Option.isSome_iff_exists.mp (Std.TreeMap.mem_iff_isSome_getElem?.mp hmem)
  obtain ⟨-, c, hc, -⟩ := RoundMachine.feasible_of_proposable T hl.1.machine (hl.1.topology ▸ hn) hreq hp
  unfold broadcastProposal at hb
  rw [hl.2] at hc
  simp only [hn, hreq, hc] at hb
  split at hb
  · simp at hb
  · split at hb
    · simp at hb
    · simp at hb

/-- Messages leave a state alike in which no proposal passes the machine's checks. -/
theorem alike_drainProposal (round : RoundId) (h : ∀ p, ¬ RoundMachine.Proposable s.roundMachine p)
    (batch : List CoordinationMessage) :
    Alike s (s.drainProposal round batch) := by
  refine List.foldlRecOn (motive := Alike s) batch _ (.refl s) ?_
  intro x hx msg _
  rcases handleProposal_cases round x msg with ⟨p, -, -, hp, -⟩ | hr
  · exact absurd (hx.machine ▸ hp) (h p)
  · exact hx.trans (.of_rejects hr)

/-! ## Listening -/

theorem record_closeLog (log : CoordinationLog) (fin : Bool) (fr : RoundId) :
    (Runtime.closeLog log fin fr).record = Runtime.closeLog log.record fin fr := by
  cases fin <;> rfl

/-- A round of a process that only listens: it drains each phase and ends as the log and the machine say. -/
def listen (d : Deliveries) (round : RoundId) (s : RuntimeState) : RoundOutcome × RuntimeState :=
  let s₁ := s.drainCommitments round (d.schedule round .commitments)
  match s₁.topology.requester with
  | none => (.fallback, s₁)
  | some n =>
    if n.id ∉ s₁.roundMachine.commitments then (.fallback, s₁)
    else
      let s₂ := s₁.drainProposal round (d.schedule round .proposal)
      match s₂.log.proposalOf round with
      | none => (.fallback, s₂)
      | some p =>
        let s₃ := s₂.drainProofs round (d.schedule round .proofs)
        if s₃.log.hasProof p.candidateRequester round ∧ s₃.log.hasProof p.candidateProvider round then
          (.finalized, s₃.drainReceipts round (d.schedule round .receipts))
        else (.fallback, s₃)

theorem Alike.proposalOf (h : Alike s s') (r : RoundId) : s'.log.proposalOf r = s.log.proposalOf r := by
  have := congrArg (·.proposalOf r) h.record
  exact this

theorem Alike.hasProof (h : Alike s s') (n : NodeId) (r : RoundId) : s'.log.hasProof n r = s.log.hasProof n r := by
  have := congrArg (·.hasProof n r) h.record
  exact this

theorem CommitmentsDone.alike {d : Deliveries} (h : CommitmentsDone Γ d.delivery round s s') (hx : Alike s x) :
    Alike s' (x.drainCommitments round (d.schedule round .commitments)) := by
  obtain ⟨hb, hd⟩ := h
  rw [show _ = _ from hd]
  exact ((alike_broadcastCommitments hb).symm.trans hx).foldl .commitments _

theorem ProposalDone.alike {d : Deliveries} (h : ProposalDone d.delivery round s s') (hx : Alike s x) :
    Alike s' (x.drainProposal round (d.schedule round .proposal)) := by
  obtain ⟨hb, hd⟩ := h
  rw [show _ = _ from hd]
  rcases broadcastProposal_cases hb with ⟨-, rfl⟩ | ⟨hf, -⟩
  · exact hx.foldl .proposal _
  · simp at hf

theorem ProofsDone.alike {d : Deliveries} {p : ProposalRecord} (h : ProofsDone Γ d.delivery round p s s') (hx : Alike s x) :
    Alike s' (x.drainProofs round (d.schedule round .proofs)) := by
  obtain ⟨-, hd⟩ := h
  rw [show _ = _ from hd]
  exact hx.foldl .proofs _

theorem ReceiptsDone.alike {d : Deliveries} {p : ProposalRecord} (h : ReceiptsDone Γ d.delivery round p s s')
    (hx : Alike s x) : Alike s' (x.drainReceipts round (d.schedule round .receipts)) := by
  obtain ⟨-, hd⟩ := h
  rw [show _ = _ from hd]
  exact hx.foldl .receipts _

/-- Before the proposal phase of a round nothing is proposed in it. -/
theorem Ledger.At.proposalOf_eq_none (h : Ledger.At t round s) (hp : s.roundMachine.proposal = none) :
    s.log.proposalOf round = none := by
  have hin := h.1.proposalsIn_current
  rw [h.2, hp, Option.toList_none] at hin
  rw [CoordinationLog.proposalOf_eq_none]
  intro p hmem hr
  have := CoordinationLog.mem_proposalsIn.mpr ⟨hmem, hr⟩
  rw [hin] at this
  exact absurd this List.not_mem_nil

/-- A round ends as it ends for a process that only listens: neither the agents nor the scenario of the process that runs it
matter, except to what is broadcast. -/
theorem RoundEnds.listen (T : LoadedTopology Γ) {d : Deliveries} {o : RoundOutcome} (hl : Ledger.At T.config round s)
    (hp : s.roundMachine.proposal = none) (h : RoundEnds Γ d.delivery round s o s') (hx : Alike s x) :
    (listen d round x).1 = o ∧ Alike s' (listen d round x).2 := by
  cases h with
  | @requesterMissing s₁ n h₁ hn hmiss =>
    have ha := h₁.alike hx
    have hn' := (congrArg TopologyConfig.requester ha.topology).trans hn
    simp only [VertexVeil.listen, hn', ha.machine, hmiss, not_false_eq_true, if_true, true_and]
    exact ⟨ha.topology, ha.machine, ha.record⟩
  | @noCandidate s₁ s₂ msgs h₁ hreq hb =>
    have ha := h₁.alike hx
    have hl₁ := hl.commitmentsDone h₁
    have hno := not_proposable T hl₁ hreq hb
    obtain ⟨n, hn, hmem⟩ := hreq
    have hn' := (congrArg TopologyConfig.requester ha.topology).trans hn
    have ha₂ := ha.trans (alike_drainProposal round (fun p => ha.machine ▸ hno p)
      (d.schedule round .proposal))
    have hlast := (ha₂.proposalOf round).trans (hl₁.proposalOf_eq_none (h₁.proposal.trans hp))
    simp only [VertexVeil.listen, hn', ha.machine, hmem, not_true_eq_false, if_false, hlast, true_and]
    rcases broadcastProposal_cases hb with ⟨hf, -⟩ | ⟨-, -, hr⟩
    · simp at hf
    · exact (Alike.of_rejects hr).symm.trans ha₂
  | @noProposal s₁ s₂ h₁ hreq h₂ hnone =>
    have ha := h₁.alike hx
    obtain ⟨n, hn, hmem⟩ := hreq
    have hn' := (congrArg TopologyConfig.requester ha.topology).trans hn
    have ha₂ := h₂.alike ha
    have hlast := (ha₂.proposalOf round).trans hnone
    simp only [VertexVeil.listen, hn', ha.machine, hmem, not_true_eq_false, if_false, hlast, true_and]
    exact ha₂
  | @missingProof s₁ s₂ s₃ p h₁ hreq h₂ hlast h₃ hboth =>
    have ha := h₁.alike hx
    obtain ⟨n, hn, hmem⟩ := hreq
    have hn' := (congrArg TopologyConfig.requester ha.topology).trans hn
    have ha₂ := h₂.alike ha
    have hlast := (ha₂.proposalOf round).trans hlast
    have ha₃ := h₃.alike ha₂
    unfold BothProofs at hboth
    simp only [VertexVeil.listen, hn', ha.machine, hmem, not_true_eq_false, if_false, hlast, ha₃.hasProof, hboth, true_and]
    exact ha₃
  | @finalized s₁ s₂ s₃ s₄ p h₁ hreq h₂ hlast h₃ hboth h₄ =>
    have ha := h₁.alike hx
    obtain ⟨n, hn, hmem⟩ := hreq
    have hn' := (congrArg TopologyConfig.requester ha.topology).trans hn
    have ha₂ := h₂.alike ha
    have hlast := (ha₂.proposalOf round).trans hlast
    have ha₃ := h₃.alike ha₂
    unfold BothProofs at hboth
    simp only [VertexVeil.listen, hn', ha.machine, hmem, not_true_eq_false, if_false, hlast, ha₃.hasProof, hboth, and_self,
      if_true, true_and]
    exact h₄.alike ha₃

/-- The rounds of a process that only listens: the state after them, whether one was finalized and the last one attempted. -/
def listenRounds (d : Deliveries) : Nat → RoundId → RuntimeState → RuntimeState × Bool × RoundId
  | 0, finalRound, s => (s, false, finalRound)
  | rounds + 1, _, s =>
    let round := s.roundMachine.current
    match VertexVeil.listen d round s with
    | (.finalized, s) => (s, true, round)
    | (.fallback, s) =>
      match s.roundMachine.advanceFallback with
      | some (.ok (), roundMachine) => listenRounds d rounds round { s with roundMachine }
      | _ => (s, false, round)

/-- A run over a delivery schedule ends as that of a process that only listens. -/
theorem runRounds_listen (T : LoadedTopology Γ) {d : Deliveries} {n : Nat} {fr fr' : RoundId} {rt' : Runtime Deliveries}
    {fin : Bool} (hl : Ledger T.config s) (hp : s.roundMachine.proposal = none) (hx : Alike s x)
    (h : Runtime.runRounds Γ n fr ⟨s, d⟩ = .ok (rt', fin, fr')) :
    (listenRounds d n fr x).2 = (fin, fr') ∧ Alike rt'.state (listenRounds d n fr x).1 := by
  induction n generalizing fr s x with
  | zero =>
    simp only [Runtime.runRounds, Except.ok.injEq, Prod.mk.injEq] at h
    obtain ⟨rfl, rfl, rfl⟩ := h
    exact ⟨rfl, hx⟩
  | succ n ih =>
    obtain ⟨⟨o, ⟨s₁, d₁⟩⟩, h₁, h⟩ := Except.bind_eq_ok h
    obtain ⟨hends, hd⟩ := Runtime.runOneRound_ends d.delivers (show (⟨s, d⟩ : Runtime Deliveries).transport = d from rfl) h₁
    obtain rfl : d₁ = d := hd
    have hcur := congrArg RoundMachine.current hx.machine
    obtain ⟨ho, ha⟩ := hends.listen T ⟨hl, rfl⟩ hp hx
    have hlis : VertexVeil.listen d₁ s.roundMachine.current x = (o, (VertexVeil.listen d₁ s.roundMachine.current x).2) := by
      rw [← ho]
    cases o with
    | finalized =>
      simp only [Except.ok.injEq, Prod.mk.injEq] at h
      obtain ⟨rfl, rfl, rfl⟩ := h
      rw [listenRounds, hcur, hlis]
      exact ⟨rfl, ha⟩
    | fallback =>
      obtain ⟨rt₂, h₂, h⟩ := Except.bind_eq_ok h
      obtain ⟨m', hm', rfl⟩ := Runtime.advanceFallback_ok h₂
      have hl₁ := ((Ledger.At.kept T.wellFormed).roundEnds ⟨hl, rfl⟩ hends).1
      have hm'' := ha.machine ▸ hm'
      rw [listenRounds, hcur, hlis]
      simp only [hm'']
      have hadv := hl₁.advance hm'
      obtain ⟨rfl, -⟩ := RoundMachine.advanceFallback_ok hm'
      exact ih hadv rfl ⟨ha.topology, rfl, ha.record⟩ h

end

end VertexVeil
