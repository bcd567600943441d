import VertexVeil.Fixtures
import VertexVeil.Lemmas.Ledger
import VertexVeil.Lemmas.Verifier

/-!
# Finalized runs and receipts

A round is finalized once both proofs are in; the receipt phase that follows is drained, but what it brought is not looked at.
-/

namespace VertexVeil

open Codec CoordinationLog

/-! ## When a finalized run has a valid receipt -/

/-- The log holds, in its final round, a receipt of the proposed provider that the verifier's check accepts. -/
def Certified (Γ : Crypto) (t : TopologyConfig) (log : CoordinationLog) (p : ProposalRecord) : Prop :=
  ∃ r ∈ log.receipts, r.round = log.finalRound ∧ r.provider = p.candidateProvider ∧
    receiptSignatureOk Γ t r.signatureHex p.candidateProvider log.finalRound p.matchedCapability.asStr = true

/-- A batch delivers a receipt of the proposed provider, from that provider, of the round, that the verifier's check accepts. -/
def DeliversReceipt (Γ : Crypto) (t : TopologyConfig) (round : RoundId) (p : ProposalRecord)
    (batch : List CoordinationMessage) : Prop :=
  ∃ r, { origin := p.candidateProvider, payload := .receipt r } ∈ batch ∧ r.round = round ∧
    r.provider = p.candidateProvider ∧
    receiptSignatureOk Γ t r.signatureHex p.candidateProvider round p.matchedCapability.asStr = true

namespace RuntimeState

variable {Γ : Crypto} {t : TopologyConfig} {round : RoundId} {s : RuntimeState} {batch : List CoordinationMessage}

/-- The receipts logged by a drain: those that were there, and those delivered by their provider, of the round, signed. -/
theorem mem_receipts_drain {r : CompletionReceiptRecord} : r ∈ (s.drainReceipts round batch).log.receipts ↔
    r ∈ s.log.receipts ∨
      ({ origin := r.provider, payload := .receipt r } ∈ batch ∧ r.round = round ∧ r.signatureHex ≠ []) := by
  induction batch generalizing s with
  | nil => simp [drainReceipts]
  | cons msg batch ih =>
    change r ∈ ((handleReceipt round s msg).drainReceipts round batch).log.receipts ↔ _
    rw [ih]
    rcases handleReceipt_cases round s msg with ⟨d, hpay, horigin, hround, hsig, he⟩ | ⟨hno, hr⟩
    · have hmsg : msg = { origin := d.provider, payload := .receipt d } := by
        cases msg
        simp only at hpay horigin
        rw [hpay, horigin]
      rw [he, hmsg]
      simp only [CoordinationLog.appendReceipt, List.mem_append, List.mem_cons, List.not_mem_nil, or_false,
        CoordinationMessage.mk.injEq, MessagePayload.receipt.injEq]
      constructor
      · rintro ((h | rfl) | h)
        · exact Or.inl h
        · exact Or.inr ⟨Or.inl ⟨rfl, rfl⟩, hround, hsig⟩
        · exact Or.inr ⟨Or.inr h.1, h.2⟩
      · rintro (h | ⟨⟨-, rfl⟩ | h, h'⟩)
        · exact Or.inl (Or.inl h)
        · exact Or.inl (Or.inr rfl)
        · exact Or.inr ⟨h, h'⟩
    · rw [show (handleReceipt round s msg).log.receipts = s.log.receipts from congrArg Prod.snd (outputs_of_rejects hr),
        List.mem_cons]
      constructor
      · rintro (h | ⟨h, h'⟩)
        · exact Or.inl h
        · exact Or.inr ⟨Or.inr h, h'⟩
      · rintro (h | ⟨h | h, h'⟩)
        · exact Or.inl h
        · exact absurd (hno r (by rw [← h]) (by rw [← h]) h'.1) h'.2
        · exact Or.inr ⟨h, h'⟩

end RuntimeState

/-- The state in which the receipt phase of a finalized run starts. -/
structure AwaitsReceipt (D : Deliveries) (out : RuntimeOutcome) (s : RuntimeState) (p : ProposalRecord) : Prop where
  proposal : s.log.proposalOf out.finalRound = some p ∧ s.roundMachine.proposal = some p
  proofs : BothProofs out.finalRound p s
  receipts : s.log.receipts = []
  log : out.log = Runtime.closeLog (s.drainReceipts out.finalRound (D.schedule out.finalRound .receipts)).log true
    out.finalRound

/-- The receipt phase of a run that is finalized. -/
theorem awaitsReceipt_of_finalized {Γ : Crypto} (T : LoadedTopology Γ) (D : Deliveries) (agents : Agents)
    (scenario : Scenario) (maxRounds : UInt64) (salt : Bytes 32) (runId : String) {rt : Runtime Deliveries}
    {out : RuntimeOutcome} (hnew : Runtime.new T.config D agents scenario maxRounds = .ok rt)
    (hrun : (rt.withRunSalt salt).run Γ runId = .ok out) (hfin : out.finalized = true) :
    ∃ s p, AwaitsReceipt D out s p := by
  obtain ⟨rt', hrounds, hlog⟩ := Runtime.run_eq_ok hrun
  obtain rfl := Runtime.new_eq_ok hnew
  rcases Runtime.runRounds_spec D.delivers (P := BeforeRound T.config) (fun _ _ _ => BeforeRound.fallback T.wellFormed) rfl
    .start hrounds with ⟨-, s, hs, hcur, he⟩ | ⟨hf, -⟩
  · cases he with
    | @finalized s₁ s₂ s₃ _ p h₁ _ h₂ hp h₃ hboth h₄ =>
      have hat : Ledger.At T.config out.finalRound s₃ :=
        ((Ledger.At.commitmentsDone ⟨hs.ledger, hcur⟩ h₁).proposalDone T.wellFormed h₂).proofsDone h₃
      have hlast : s₃.log.proposalOf out.finalRound = some p := by
        rw [CoordinationLog.proposalOf, h₃.proposals]
        exact hp
      have hheld : s₃.roundMachine.proposal = some p := by
        have hin := hat.1.proposalsIn_current ▸ hat.2.symm ▸ mem_proposalsIn.mpr (proposalOf_some hlast)
        simpa using hin
      refine ⟨s₃, p, ⟨hlast, hheld⟩, hboth, ?_, ?_⟩
      · rw [h₃.receipts.trans (congrArg Prod.snd (h₂.outputs.trans h₁.outputs))]
        exact hs.receipts
      · obtain ⟨msgs, batch, hbatch, he⟩ := h₄.drained
        rw [hlog, hfin, he, hbatch]
  · rw [hfin] at hf
    simp at hf

/-- The run of the requester's own process is finalized, whether it is delivered a receipt or not. -/
theorem requesterRun_finalized (receipts : List CompletionReceiptRecord) (h : receipts = [] ∨ receipts = [Sample.receipt]) :
    ∃ out, Runtime.run Sample.crypto "run" ((Sample.requesterRuntime receipts).withRunSalt Sample.salt) = .ok out ∧
      (out.finalized, out.finalRound, out.log.proposals, out.log.receipts) =
        (true, 0, [Sample.proposal Sample.provider₁], receipts) := by
  rcases h with rfl | rfl
  · exact Sample.of_outcome (f := fun out => (out.finalized, out.finalRound, out.log.proposals, out.log.receipts))
      (by decide +kernel)
  · exact Sample.of_outcome (f := fun out => (out.finalized, out.finalRound, out.log.proposals, out.log.receipts))
      (by decide +kernel)

/-- A finalized run need not have a valid receipt: here the receipt phase delivers nothing. -/
theorem finalized_not_certified : ¬ ∀ (Γ : Crypto) (T : LoadedTopology Γ) (L : LoadedAgents Γ T.config)
    (keep : NodeId → Bool) (D : Deliveries) (scenario : Scenario) (maxRounds : UInt64) (salt : Bytes 32) (runId : String)
    (rt : Runtime Deliveries) (out : RuntimeOutcome),
    Runtime.new T.config D (L.agents.filter fun id _ => keep id) scenario maxRounds = .ok rt →
      (rt.withRunSalt salt).run Γ runId = .ok out → out.finalized = true →
        ∀ p, out.log.proposalOf out.finalRound = some p → Certified Γ T.config out.log p := by
  intro h
  obtain ⟨out, hrun, he⟩ := requesterRun_finalized [] (Or.inl rfl)
  simp only [Prod.mk.injEq] at he
  obtain ⟨hfin, hfr, hps, hrec⟩ := he
  have hp : out.log.proposalOf out.finalRound = some (Sample.proposal Sample.provider₁) := by
    rw [CoordinationLog.proposalOf, hps, hfr]
    rfl
  obtain ⟨r, hr, -⟩ := h Sample.crypto Sample.topology Sample.agents (fun id => id = Sample.requester) (Sample.deliveries [])
    .empty 1 Sample.salt "run" _ out (Sample.new_requesterRuntime []) hrun hfin _ hp
  rw [hrec] at hr
  exact List.not_mem_nil hr

/-- **When a finalized run is certified.** In a run that is finalized, the receipt phase starts with the accepted proposal of
the round and both proofs, and the log ends with a valid receipt of the proposed provider exactly when the phase delivers
one. -/
theorem finalized_certified_iff {Γ : Crypto} (T : LoadedTopology Γ) (D : Deliveries) (agents : Agents)
    (scenario : Scenario) (maxRounds : UInt64) (salt : Bytes 32) (runId : String) {rt : Runtime Deliveries}
    {out : RuntimeOutcome} (hnew : Runtime.new T.config D agents scenario maxRounds = .ok rt)
    (hrun : (rt.withRunSalt salt).run Γ runId = .ok out) (hfin : out.finalized = true) :
    ∃ s p, AwaitsReceipt D out s p ∧ out.log.proposalOf out.finalRound = some p ∧
      (Certified Γ T.config out.log p ↔
        DeliversReceipt Γ T.config out.finalRound p (D.schedule out.finalRound .receipts)) := by
  obtain ⟨s, p, h⟩ := awaitsReceipt_of_finalized T D agents scenario maxRounds salt runId hnew hrun hfin
  have hreceipts : out.log.receipts = (s.drainReceipts out.finalRound (D.schedule out.finalRound .receipts)).log.receipts := by
    rw [h.log]
    rfl
  have hround : out.log.finalRound = out.finalRound := by
    rw [h.log]
    rfl
  refine ⟨s, p, h, ?_, ?_⟩
  · have hkeep : (s.drainReceipts out.finalRound (D.schedule out.finalRound .receipts)).log.proposals = s.log.proposals :=
      RuntimeState.foldl_keeps (f := fun s => s.log.proposals) (RuntimeState.proposals_handleReceipt _) _ _
    have hprops : out.log.proposals = s.log.proposals := by
      rw [← hkeep, h.log]
      rfl
    rw [CoordinationLog.proposalOf, hprops]
    exact h.proposal.1
  · simp only [Certified, DeliversReceipt, hreceipts, hround, RuntimeState.mem_receipts_drain, h.receipts, List.not_mem_nil,
      false_or]
    constructor
    · rintro ⟨r, ⟨hmem, -, -⟩, hr, hprov, hsig⟩
      exact ⟨r, hprov ▸ hmem, hr, hprov, hsig⟩
    · rintro ⟨r, hmem, hr, hprov, hsig⟩
      have hne := VerifierAux.receiptSigned_ne_nil ((VerifierAux.receiptSignatureOk_iff T.wellFormed).mp hsig)
      exact ⟨r, ⟨hprov ▸ hmem, hr, hne⟩, hr, hprov, hsig⟩

/-- The requester's own process that is delivered the provider's receipt ends with a valid one. -/
theorem finalized_certified_sample : ∃ (out : RuntimeOutcome) (p : ProposalRecord),
    out.log.proposalOf out.finalRound = some p ∧ Certified Sample.crypto Sample.topology.config out.log p := by
  obtain ⟨out, hrun, he⟩ := requesterRun_finalized [Sample.receipt] (Or.inr rfl)
  simp only [Prod.mk.injEq] at he
  obtain ⟨hfin, hfr, hps, -⟩ := he
  obtain ⟨s, p, -, hp, hiff⟩ := finalized_certified_iff Sample.topology (Sample.deliveries [Sample.receipt])
    Sample.requesterOnly .empty 1 Sample.salt "run" (Sample.new_requesterRuntime _) hrun hfin
  refine ⟨out, p, hp, hiff.mpr ?_⟩
  rw [CoordinationLog.proposalOf, hps, hfr] at hp
  obtain rfl := Option.some.inj hp
  rw [hfr]
  exact ⟨Sample.receipt, List.mem_singleton.mpr rfl, rfl, rfl, by decide +kernel⟩

end VertexVeil
