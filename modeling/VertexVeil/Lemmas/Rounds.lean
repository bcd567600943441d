import VertexVeil.Lemmas.Handlers

/-!
# Helpers about the runtime: how a round ends, and how a run does

`RoundEnds` is a round without its transport: what each phase broadcast and what it delivered are related by a `Delivery`,
and nothing else about the transport matters. `runRounds_spec` is the induction over the rounds of a run.
-/

namespace VertexVeil

open Codec RuntimeState

/-- How the batch a phase delivers relates to what was broadcast in it. -/
abbrev Delivery : Type := RoundId → Phase → List CoordinationMessage → List CoordinationMessage → Prop

/-- A transport in a state with `I` delivers, after some broadcasts, a batch related to them by `R`, and keeps `I`. -/
def Delivers (τ : Type) [CoordinationTransport τ] (I : τ → Prop) (R : Delivery) : Prop :=
  ∀ t t' msgs round phase, I t → broadcastAll msgs t = .ok t' →
    R round phase msgs (Runtime.receive round phase t').1 ∧ I (Runtime.receive round phase t').2

/-- Of an arbitrary transport nothing is known. -/
def anyDelivery : Delivery := fun _ _ _ _ => True

theorem delivers_any (τ : Type) [CoordinationTransport τ] : Delivers τ (fun _ => True) anyDelivery :=
  fun _ _ _ _ _ _ _ => ⟨trivial, trivial⟩

/-- The in-process bus delivers what was broadcast. -/
def inProcess : Delivery := fun _ _ msgs batch => batch = msgs

theorem OrderedBus.delivers : Delivers OrderedBus (fun b => b.queue = []) inProcess := by
  intro b b' msgs round phase hb h
  rw [OrderedBus.broadcastAll_eq, hb, List.nil_append, Except.ok.injEq] at h
  subst h
  have : Runtime.receive round phase ({ queue := msgs } : OrderedBus) = (msgs, { queue := [] }) :=
    OrderedBus.deliver_eq _ _ _
  rw [this]
  exact ⟨rfl, rfl⟩

/-- A schedule delivers its own messages. -/
def Deliveries.delivery (d : Deliveries) : Delivery := fun round phase _ batch => batch = d.schedule round phase

theorem Deliveries.delivers (d : Deliveries) : Delivers Deliveries (· = d) d.delivery := by
  intro t t' msgs round phase ht h
  rw [Deliveries.broadcastAll_eq, Except.ok.injEq] at h
  subst h ht
  exact ⟨rfl, rfl⟩

/-! ## A round -/

section

variable (Γ : Crypto) (R : Delivery) (round : RoundId)

/-- The commitment phase, from its start to the end of its drain. -/
inductive CommitmentsDone (s : RuntimeState) : RuntimeState → Prop where
  | intro {msgs batch s₁} : s.broadcastCommitments Γ round = (msgs, .ok s₁) → R round .commitments msgs batch →
      CommitmentsDone s (s₁.drainCommitments round batch)

/-- The proposal phase, when the round is not given up before it. -/
inductive ProposalDone (s : RuntimeState) : RuntimeState → Prop where
  | intro {msgs batch s₁} : s.broadcastProposal round = (msgs, .ok (true, s₁)) → R round .proposal msgs batch →
      ProposalDone s (s₁.drainProposal round batch)

/-- The proof phase. -/
inductive ProofsDone (p : ProposalRecord) (s : RuntimeState) : RuntimeState → Prop where
  | intro {msgs batch} : s.broadcastProofs Γ round p = (msgs, .ok ()) → R round .proofs msgs batch →
      ProofsDone p s (s.drainProofs round batch)

/-- The receipt phase. -/
inductive ReceiptsDone (p : ProposalRecord) (s : RuntimeState) : RuntimeState → Prop where
  | intro {msgs batch} : s.broadcastReceipt Γ round p = (msgs, .ok ()) → R round .receipts msgs batch →
      ReceiptsDone p s (s.drainReceipts round batch)

/-- The requester of the topology has an accepted commitment. -/
def RequesterIn (s : RuntimeState) : Prop :=
  ∃ n, s.topology.requester = some n ∧ n.id ∈ s.roundMachine.commitments

/-- Both participants of a proposal have a logged proof in the round. -/
def BothProofs (p : ProposalRecord) (s : RuntimeState) : Prop :=
  s.log.hasProof p.candidateRequester round = true ∧ s.log.hasProof p.candidateProvider round = true

/-- The ways a round ends. -/
inductive RoundEnds (s : RuntimeState) : RoundOutcome → RuntimeState → Prop where
  | requesterMissing {s₁ n} : CommitmentsDone Γ R round s s₁ → s₁.topology.requester = some n →
      n.id ∉ s₁.roundMachine.commitments →
      RoundEnds s .fallback (s₁.reject round n.id "round" "requester_missing")
  | noCandidate {s₁ s₂ msgs} : CommitmentsDone Γ R round s s₁ → RequesterIn s₁ →
      s₁.broadcastProposal round = (msgs, .ok (false, s₂)) → RoundEnds s .fallback s₂
  | noProposal {s₁ s₂} : CommitmentsDone Γ R round s s₁ → RequesterIn s₁ → ProposalDone R round s₁ s₂ →
      s₂.log.proposalOf round = none → RoundEnds s .fallback s₂
  | missingProof {s₁ s₂ s₃ p} : CommitmentsDone Γ R round s s₁ → RequesterIn s₁ → ProposalDone R round s₁ s₂ →
      s₂.log.proposalOf round = some p → ProofsDone Γ R round p s₂ s₃ → ¬ BothProofs round p s₃ → RoundEnds s .fallback s₃
  | finalized {s₁ s₂ s₃ s₄ p} : CommitmentsDone Γ R round s s₁ → RequesterIn s₁ → ProposalDone R round s₁ s₂ →
      s₂.log.proposalOf round = some p → ProofsDone Γ R round p s₂ s₃ → BothProofs round p s₃ →
      ReceiptsDone Γ R round p s₃ s₄ → RoundEnds s .finalized s₄

/-- The state in which a round drains a phase, when it comes to it. -/
inductive Drains (s : RuntimeState) : Phase → RuntimeState → Prop where
  | commitments {msgs s₁} : s.broadcastCommitments Γ round = (msgs, .ok s₁) → Drains s .commitments s₁
  | proposal {msgs s₁ s₂} : CommitmentsDone Γ R round s s₁ → RequesterIn s₁ →
      s₁.broadcastProposal round = (msgs, .ok (true, s₂)) → Drains s .proposal s₂
  | proofs {s₁ s₂ p} : CommitmentsDone Γ R round s s₁ → RequesterIn s₁ → ProposalDone R round s₁ s₂ →
      s₂.log.proposalOf round = some p → Drains s .proofs s₂
  | receipts {s₁ s₂ s₃ p} : CommitmentsDone Γ R round s s₁ → RequesterIn s₁ → ProposalDone R round s₁ s₂ →
      s₂.log.proposalOf round = some p → ProofsDone Γ R round p s₂ s₃ → BothProofs round p s₃ → Drains s .receipts s₃

end

/-- The states in which a run that starts in `s₀` enters a round. -/
inductive Enters (Γ : Crypto) (R : Delivery) (s₀ : RuntimeState) : RuntimeState → Prop where
  | start : Enters Γ R s₀ s₀
  | next {s s' m'} : Enters Γ R s₀ s → RoundEnds Γ R s.roundMachine.current s .fallback s' →
      s'.roundMachine.advanceFallback = some (.ok (), m') → Enters Γ R s₀ { s' with roundMachine := m' }

namespace Runtime

variable {τ : Type} [CoordinationTransport τ] {Γ : Crypto} {I : τ → Prop} {R : Delivery} {round : RoundId}

/-- A broadcasting step that succeeds: the transport took the messages. -/
theorem emit_eq_ok {α : Type} {t t' : τ} {e : Emit α} {a : α} (h : emit t e = .ok (a, t')) :
    e.2 = .ok a ∧ broadcastAll e.1 t = .ok t' := by
  unfold emit at h
  split at h
  · simp at h
  · rename_i t₁ ht
    split at h
    · simp at h
    · rename_i b hb
      simp only [Except.ok.injEq, Prod.mk.injEq] at h
      exact ⟨by rw [hb, h.1], by rw [ht, h.2]⟩

/-- A broadcasting step and the drain after it. -/
theorem emit_receive (round : RoundId) (hd : Delivers τ I R) {α : Type} {t t' : τ} {e : Emit α} {a : α} (hI : I t)
    (h : emit t e = .ok (a, t')) (phase : Phase) : e = (e.1, .ok a) ∧
      R round phase e.1 (receive round phase t').1 ∧ I (receive round phase t').2 := by
  obtain ⟨he, ht⟩ := emit_eq_ok h
  exact ⟨Prod.ext rfl he, hd t t' e.1 round phase hI ht⟩

/-- Every round that a runtime completes ends in one of the ways. -/
theorem runOneRound_ends (hd : Delivers τ I R) {rt rt' : Runtime τ} {o : RoundOutcome} (hI : I rt.transport)
    (h : runOneRound Γ round rt = .ok (o, rt')) : RoundEnds Γ R round rt.state o rt'.state ∧ I rt'.transport := by
  obtain ⟨⟨s₁, t₁⟩, h₁, h⟩ := Except.bind_eq_ok h
  obtain ⟨he₁, hr₁, hI₁⟩ := emit_receive round hd hI h₁ .commitments
  have hdone₁ := CommitmentsDone.intro he₁ hr₁
  dsimp only at h
  split at h
  · simp at h
  · rename_i n hn
    split at h
    · rename_i hmem
      simp only [pure, Except.pure, Except.ok.injEq, Prod.mk.injEq] at h
      obtain ⟨rfl, rfl⟩ := h
      exact ⟨.requesterMissing hdone₁ hn (by simpa using hmem), hI₁⟩
    · rename_i hmem
      have hreq : RequesterIn _ := ⟨n, hn, by simpa using hmem⟩
      obtain ⟨⟨⟨proposed, s₂⟩, t₂⟩, h₂, h⟩ := Except.bind_eq_ok h
      obtain ⟨he₂, hr₂, hI₂⟩ := emit_receive round hd hI₁ h₂ .proposal
      dsimp only at h
      cases proposed with
      | false =>
        simp only [Bool.false_eq_true, not_false_eq_true, if_true, pure, Except.pure, Except.ok.injEq, Prod.mk.injEq] at h
        obtain ⟨rfl, rfl⟩ := h
        refine ⟨.noCandidate hdone₁ hreq he₂, ?_⟩
        have ht := (emit_eq_ok h₂).2
        rcases RuntimeState.broadcastProposal_cases he₂ with ⟨hf, -⟩ | ⟨-, hmsgs, -⟩
        · simp at hf
        · rw [hmsgs, broadcastAll, Except.ok.injEq] at ht
          exact ht ▸ hI₁
      | true =>
        have hdone₂ := ProposalDone.intro he₂ hr₂
        simp only [not_true_eq_false, if_false] at h
        split at h
        · rename_i hp
          simp only [pure, Except.pure, Except.ok.injEq, Prod.mk.injEq] at h
          obtain ⟨rfl, rfl⟩ := h
          exact ⟨.noProposal hdone₁ hreq hdone₂ hp, hI₂⟩
        · rename_i p hp
          obtain ⟨⟨⟨⟩, t₃⟩, h₃, h⟩ := Except.bind_eq_ok h
          obtain ⟨he₃, hr₃, hI₃⟩ := emit_receive round hd hI₂ h₃ .proofs
          have hdone₃ := ProofsDone.intro he₃ hr₃
          dsimp only at h
          split at h
          · rename_i hb
            obtain ⟨⟨⟨⟩, t₄⟩, h₄, h⟩ := Except.bind_eq_ok h
            obtain ⟨he₄, hr₄, hI₄⟩ := emit_receive round hd hI₃ h₄ .receipts
            simp only [pure, Except.pure, Except.ok.injEq, Prod.mk.injEq] at h
            obtain ⟨rfl, rfl⟩ := h
            exact ⟨.finalized hdone₁ hreq hdone₂ hp hdone₃ hb (.intro he₄ hr₄), hI₄⟩
          · rename_i hb
            simp only [pure, Except.pure, Except.ok.injEq, Prod.mk.injEq] at h
            obtain ⟨rfl, rfl⟩ := h
            exact ⟨.missingProof hdone₁ hreq hdone₂ hp hdone₃ hb, hI₃⟩

end Runtime

/-! ## What a round leaves alone -/

section

variable {Γ : Crypto} {R : Delivery} {round : RoundId} {s s' : RuntimeState}

open RuntimeState

theorem CommitmentsDone.frame (h : CommitmentsDone Γ R round s s') : SameFrame s s' := by
  obtain ⟨hb, -⟩ := h
  exact (sameFrame_broadcastCommitments hb).trans (sameFrame_foldl (sameFrame_handleCommitment round) _ _)

theorem ProposalDone.frame (h : ProposalDone R round s s') : SameFrame s s' := by
  obtain ⟨hb, -⟩ := h
  rcases broadcastProposal_cases hb with ⟨-, rfl⟩ | ⟨hf, -⟩
  · exact sameFrame_foldl (sameFrame_handleProposal round) _ _
  · simp at hf

theorem ProofsDone.frame {p : ProposalRecord} (h : ProofsDone Γ R round p s s') : SameFrame s s' := by
  obtain ⟨-, -⟩ := h
  exact sameFrame_foldl (sameFrame_handleProof round) _ _

theorem ReceiptsDone.frame {p : ProposalRecord} (h : ReceiptsDone Γ R round p s s') : SameFrame s s' := by
  obtain ⟨-, -⟩ := h
  exact sameFrame_foldl (sameFrame_handleReceipt round) _ _

/-- A round changes neither the configuration nor the active round. -/
theorem RoundEnds.frame {o : RoundOutcome} (h : RoundEnds Γ R round s o s') : SameFrame s s' := by
  cases h with
  | requesterMissing h₁ _ _ => exact h₁.frame.trans ⟨rfl, rfl, rfl, rfl, rfl, rfl, rfl, rfl⟩
  | noCandidate h₁ _ hb =>
    rcases broadcastProposal_cases hb with ⟨hf, -⟩ | ⟨-, -, hr⟩
    · simp at hf
    · exact h₁.frame.trans (.of_rejects hr)
  | noProposal h₁ _ h₂ _ => exact h₁.frame.trans h₂.frame
  | missingProof h₁ _ h₂ _ h₃ _ => exact h₁.frame.trans (h₂.frame.trans h₃.frame)
  | finalized h₁ _ h₂ _ h₃ _ h₄ => exact h₁.frame.trans (h₂.frame.trans (h₃.frame.trans h₄.frame))

/-! ## What a round does to the proofs and the receipts -/

theorem CommitmentsDone.outputs (h : CommitmentsDone Γ R round s s') : s'.outputs = s.outputs := by
  obtain ⟨hb, -⟩ := h
  exact (foldl_keeps (outputs_handleCommitment round) _ _).trans (outputs_broadcastCommitments hb)

/-- The commitment phase leaves the round unproposed. -/
theorem CommitmentsDone.proposal (h : CommitmentsDone Γ R round s s') :
    s'.roundMachine.proposal = s.roundMachine.proposal := by
  obtain ⟨hb, -⟩ := h
  have hmachine := broadcastCommitmentsOf_invariant (P := fun x => x.roundMachine = s.roundMachine)
    (fun _ _ hP hr => by obtain ⟨_, _, _, -, rfl⟩ := hr; exact hP) (fun _ _ _ hP _ _ => hP) rfl hb
  have hfold : ∀ x msg, (handleCommitment round x msg).roundMachine.proposal = x.roundMachine.proposal := by
    intro x msg
    rcases handleCommitment_cases round x msg with ⟨c, -, -, -, ⟨-, he⟩ | ⟨-, he⟩⟩ | ⟨_, _, _, -, he⟩
    · rw [he]
      rfl
    · rw [he]
      rfl
    · rw [he]
      rfl
  rw [drainCommitments, foldl_keeps (f := fun s => s.roundMachine.proposal) hfold, hmachine]

theorem ProposalDone.outputs (h : ProposalDone R round s s') : s'.outputs = s.outputs := by
  obtain ⟨hb, -⟩ := h
  rcases broadcastProposal_cases hb with ⟨-, rfl⟩ | ⟨hf, -⟩
  · exact foldl_keeps (outputs_handleProposal round) _ _
  · simp at hf

theorem ProofsDone.receipts {p : ProposalRecord} (h : ProofsDone Γ R round p s s') : s'.log.receipts = s.log.receipts := by
  obtain ⟨-, -⟩ := h
  exact foldl_keeps (f := fun s => s.log.receipts) (receipts_handleProof round) _ _

theorem ProofsDone.proposals {p : ProposalRecord} (h : ProofsDone Γ R round p s s') :
    s'.log.proposals = s.log.proposals := by
  obtain ⟨-, -⟩ := h
  exact foldl_keeps (f := fun s => s.log.proposals) (proposals_handleProof round) _ _

theorem ReceiptsDone.drained {p : ProposalRecord} (h : ReceiptsDone Γ R round p s s') :
    ∃ msgs batch, R round .receipts msgs batch ∧ s' = s.drainReceipts round batch := by
  obtain ⟨-, hR⟩ := h
  exact ⟨_, _, hR, rfl⟩

/-- The receipt phase adds receipts of the round only. -/
theorem ReceiptsDone.receipts {p : ProposalRecord} (h : ReceiptsDone Γ R round p s s') :
    ∀ r ∈ s'.log.receipts, r ∈ s.log.receipts ∨ r.round = round := by
  obtain ⟨-, -⟩ := h
  refine List.foldlRecOn (motive := fun (s' : RuntimeState) => ∀ r ∈ s'.log.receipts, r ∈ s.log.receipts ∨ r.round = round) _ _
    (fun r hr => Or.inl hr) (fun s₁ hs₁ msg _ => ?_)
  rcases handleReceipt_cases round s₁ msg with ⟨r₀, -, -, hround, -, he⟩ | ⟨-, hr⟩
  · rw [he]
    intro r hr
    rcases List.mem_append.mp hr with hr | hr
    · exact hs₁ r hr
    · exact Or.inr (List.mem_singleton.mp hr ▸ hround)
  · intro r hmem
    rw [show (handleReceipt round s₁ msg).log.receipts = s₁.log.receipts from congrArg Prod.snd (outputs_of_rejects hr)]
      at hmem
    exact hs₁ r hmem

/-- A round that falls back adds no receipt. -/
theorem RoundEnds.receipts_fallback (h : RoundEnds Γ R round s .fallback s') : s'.log.receipts = s.log.receipts := by
  cases h with
  | requesterMissing h₁ _ _ => exact congrArg Prod.snd h₁.outputs
  | noCandidate h₁ _ hb =>
    rcases broadcastProposal_cases hb with ⟨hf, -⟩ | ⟨-, -, hr⟩
    · simp at hf
    · exact congrArg Prod.snd ((outputs_of_rejects hr).trans h₁.outputs)
  | noProposal h₁ _ h₂ _ => exact congrArg Prod.snd (h₂.outputs.trans h₁.outputs)
  | missingProof h₁ _ h₂ _ h₃ _ => exact h₃.receipts.trans (congrArg Prod.snd (h₂.outputs.trans h₁.outputs))

/-- A round that is finalized adds receipts of its own only. -/
theorem RoundEnds.receipts_finalized (h : RoundEnds Γ R round s .finalized s') :
    ∀ r ∈ s'.log.receipts, r ∈ s.log.receipts ∨ r.round = round := by
  cases h with
  | finalized h₁ _ h₂ _ h₃ _ h₄ =>
    intro r hr
    rcases h₄.receipts r hr with hr | hr
    · rw [h₃.receipts.trans (congrArg Prod.snd (h₂.outputs.trans h₁.outputs))] at hr
      exact Or.inl hr
    · exact Or.inr hr

end

/-! ## A run -/

/-- Closing a log sets its last three fields. -/
theorem closeLog_eq (log : CoordinationLog) (fin : Bool) (fr : RoundId) : ∃ reason,
    Runtime.closeLog log fin fr = { log with finalRound := fr, finalized := fin, abortReason := reason } := by
  unfold Runtime.closeLog
  cases fin
  · exact ⟨_, rfl⟩
  · exact ⟨_, rfl⟩

/-- The next round, as long as there is one. -/
theorem RoundId.toNat_succ {r : RoundId} (h : r.toNat + 1 < 2 ^ 64) : (r + 1).toNat = r.toNat + 1 := by
  rw [UInt64.toNat_add]
  exact Nat.mod_eq_of_lt h

namespace RoundMachine

/-- A fallback succeeds while the round number does not overflow. -/
theorem advanceFallback_of_lt {m : RoundMachine} (h : m.current.toNat + 1 < 2 ^ 64) :
    m.advanceFallback = some (.ok (), m.advanced (m.current + 1)) := by
  have hlt : ¬ m.current + 1 ≤ m.current := by
    rw [UInt64.le_iff_toNat_le, RoundId.toNat_succ h]
    exact Nat.not_succ_le_self _
  simp only [advanceFallback, RoundId.next, if_pos h, Option.map_some, advanceTo, if_neg hlt]
  rfl

/-- A fallback that succeeds goes one round on. -/
theorem advanceFallback_ok {m m' : RoundMachine} (h : m.advanceFallback = some (.ok (), m')) :
    m' = m.advanced (m.current + 1) ∧ (m.current + 1).toNat = m.current.toNat + 1 := by
  obtain ⟨next, hn, ha⟩ := Option.map_eq_some_iff.mp h
  unfold RoundId.next at hn
  split at hn
  · rename_i hlt
    rw [Option.some.injEq] at hn
    subst hn
    exact ⟨(advanceTo_ok ha).2, RoundId.toNat_succ hlt⟩
  · simp at hn

end RoundMachine

/-! ## The rule for what every step keeps -/

/-- What the steps of a round, and the step to the next one, keep of a state in its round. -/
structure Kept (Γ : Crypto) (P : RoundId → RuntimeState → Prop) : Prop where
  rejects : ∀ r s s', P r s → Rejects r s s' → P r s'
  remember : ∀ r s n c, P r s → s.buildCommitment Γ n r = .ok c → P r (s.remember n r c)
  commitment : ∀ r s msg, P r s → P r (handleCommitment r s msg)
  proposal : ∀ r s msg, P r s → P r (handleProposal r s msg)
  proof : ∀ r s msg, P r s → P r (handleProof r s msg)
  receipt : ∀ r s msg, P r s → P r (handleReceipt r s msg)
  advance : ∀ r s m', P r s → s.roundMachine.advanceFallback = some (.ok (), m') → P (r + 1) { s with roundMachine := m' }

namespace Kept

variable {Γ : Crypto} {R : Delivery} {P Q : RoundId → RuntimeState → Prop} {round : RoundId} {s s' : RuntimeState}

theorem commitments (hk : Kept Γ P) {msgs : List CoordinationMessage} (h : P round s)
    (hb : s.broadcastCommitments Γ round = (msgs, .ok s')) : P round s' :=
  broadcastCommitmentsOf_invariant (P := P round) (fun _ _ hP hr => hk.rejects _ _ _ hP hr)
    (fun _ _ _ hP _ hc => hk.remember _ _ _ _ hP hc) h hb

theorem commitmentsDone (hk : Kept Γ P) (h : P round s) (hd : CommitmentsDone Γ R round s s') : P round s' := by
  obtain ⟨hb, -⟩ := hd
  exact List.foldlRecOn _ _ (hk.commitments h hb) (fun _ hP msg _ => hk.commitment _ _ msg hP)

theorem broadcastProposal (hk : Kept Γ P) {msgs : List CoordinationMessage} {ok : Bool} (h : P round s)
    (hb : s.broadcastProposal round = (msgs, .ok (ok, s'))) : P round s' := by
  rcases broadcastProposal_cases hb with ⟨-, rfl⟩ | ⟨-, -, hr⟩
  · exact h
  · exact hk.rejects _ _ _ h hr

theorem proposalDone (hk : Kept Γ P) (h : P round s) (hd : ProposalDone R round s s') : P round s' := by
  obtain ⟨hb, -⟩ := hd
  exact List.foldlRecOn _ _ (hk.broadcastProposal h hb) (fun _ hP msg _ => hk.proposal _ _ msg hP)

theorem proofsDone (hk : Kept Γ P) {p : ProposalRecord} (h : P round s) (hd : ProofsDone Γ R round p s s') :
    P round s' := by
  obtain ⟨-, -⟩ := hd
  exact List.foldlRecOn _ _ h (fun _ hP msg _ => hk.proof _ _ msg hP)

theorem receiptsDone (hk : Kept Γ P) {p : ProposalRecord} (h : P round s) (hd : ReceiptsDone Γ R round p s s') :
    P round s' := by
  obtain ⟨-, -⟩ := hd
  exact List.foldlRecOn _ _ h (fun _ hP msg _ => hk.receipt _ _ msg hP)

/-- A round keeps what its steps keep. -/
theorem roundEnds (hk : Kept Γ P) {o : RoundOutcome} (h : P round s) (he : RoundEnds Γ R round s o s') : P round s' := by
  cases he with
  | requesterMissing h₁ _ _ => exact hk.rejects _ _ _ (hk.commitmentsDone h h₁) ⟨_, _, _, by simp [ProperLabels], rfl⟩
  | noCandidate h₁ _ hb => exact hk.broadcastProposal (hk.commitmentsDone h h₁) hb
  | noProposal h₁ _ h₂ _ => exact hk.proposalDone (hk.commitmentsDone h h₁) h₂
  | missingProof h₁ _ h₂ _ h₃ _ => exact hk.proofsDone (hk.proposalDone (hk.commitmentsDone h h₁) h₂) h₃
  | finalized h₁ _ h₂ _ h₃ _ h₄ =>
    exact hk.receiptsDone (hk.proofsDone (hk.proposalDone (hk.commitmentsDone h h₁) h₂) h₃) h₄

/-- What the steps of its rounds keep holds where a run drains a phase. -/
theorem drains (hk : Kept Γ P) {phase : Phase} (h : P round s) (hd : Drains Γ R round s phase s') : P round s' := by
  cases hd with
  | commitments hb => exact hk.commitments h hb
  | proposal h₁ _ hb => exact hk.broadcastProposal (hk.commitmentsDone h h₁) hb
  | proofs h₁ _ h₂ _ => exact hk.proposalDone (hk.commitmentsDone h h₁) h₂
  | receipts h₁ _ h₂ _ h₃ _ => exact hk.proofsDone (hk.proposalDone (hk.commitmentsDone h h₁) h₂) h₃

/-- What the steps of its rounds keep holds where a run enters a round. -/
theorem enters (hk : Kept Γ P) {s₀ : RuntimeState} (h : P s₀.roundMachine.current s₀) (he : Enters Γ R s₀ s) :
    P s.roundMachine.current s := by
  induction he with
  | start => exact h
  | next _ hends ha ih =>
    have := hk.advance _ _ _ (hk.roundEnds ih hends) ha
    obtain ⟨rfl, -⟩ := RoundMachine.advanceFallback_ok ha
    rwa [← hends.frame.current] at this

end Kept

namespace Runtime

variable {τ : Type} [CoordinationTransport τ] {Γ : Crypto} {I : τ → Prop} {R : Delivery}

omit [CoordinationTransport τ] in
theorem advanceFallback_ok {rt rt' : Runtime τ} (h : rt.advanceFallback = .ok rt') :
    ∃ m', rt.state.roundMachine.advanceFallback = some (.ok (), m') ∧
      rt' = { rt with state := { rt.state with roundMachine := m' } } := by
  unfold advanceFallback at h
  split at h
  · simp at h
  · simp at h
  · rename_i m' hm
    exact ⟨m', hm, (Except.ok.inj h).symm⟩

/-- A run that succeeds: its rounds, and its log closed. -/
theorem run_eq_ok {runId : String} {rt : Runtime τ} {out : RuntimeOutcome} (h : run Γ runId rt = .ok out) :
    ∃ rt', runRounds Γ rt.state.maxRounds.toNat 0 (rt.withLog runId) = .ok (rt', out.finalized, out.finalRound) ∧
      out.log = closeLog rt'.state.log out.finalized out.finalRound := by
  obtain ⟨⟨o, t⟩, h₁, h⟩ := Except.bind_eq_ok h
  obtain ⟨⟨rt', fin, fr⟩, h₂, h₁⟩ := Except.bind_eq_ok h₁
  simp only [pure, Except.pure, Except.ok.injEq, Prod.mk.injEq] at h h₁
  obtain ⟨rfl, -⟩ := h₁
  subst h
  exact ⟨rt', h₂, rfl⟩

/-- A run whose rounds succeed returns their outcome. -/
theorem run_of_rounds {runId : String} {rt rt' : Runtime τ} {fin : Bool} {fr : RoundId}
    (h : runRounds Γ rt.state.maxRounds.toNat 0 (rt.withLog runId) = .ok (rt', fin, fr)) :
    run Γ runId rt = .ok { log := closeLog rt'.state.log fin fr, finalized := fin, finalRound := fr } := by
  simp only [run, runWithTransport, h, bind, Except.bind]
  rfl

omit [CoordinationTransport τ] in
/-- A runtime that is built starts in the initial state. -/
theorem new_eq_ok {topology : TopologyConfig} {t : τ} {agents : Agents} {scenario : Scenario} {maxRounds : UInt64}
    {rt : Runtime τ} (h : Runtime.new topology t agents scenario maxRounds = .ok rt) :
    rt = { state := .initial topology agents scenario maxRounds, transport := t } := by
  unfold Runtime.new at h
  split at h
  · simp at h
  · split at h
    · simp at h
    · split at h
      · simp at h
      · split at h
        · simp at h
        · exact (Except.ok.inj h).symm

/-- Whether a runtime is built does not depend on its transport. -/
theorem new_transport {τ τ' : Type} {topology : TopologyConfig} {t : τ} {agents : Agents} {scenario : Scenario}
    {maxRounds : UInt64} {rt : Runtime τ} (h : Runtime.new topology t agents scenario maxRounds = .ok rt) (t' : τ') :
    Runtime.new topology t' agents scenario maxRounds = .ok { state := rt.state, transport := t' } := by
  unfold Runtime.new at h ⊢
  split at h
  · simp at h
  · rename_i h₁
    rw [if_neg h₁]
    split at h
    · simp at h
    · rename_i h₂
      rw [if_neg h₂]
      split at h
      · simp at h
      · split at h
        · simp at h
        · rename_i h₃
          rw [if_neg h₃, ← Except.ok.inj h]

omit [CoordinationTransport τ] in
/-- A loaded topology and some of its nodes' agents make a runtime. -/
theorem new_of_nodes (T : LoadedTopology Γ) {agents : Agents} (hnodes : ∀ id ∈ agents, ∃ n ∈ T.config.nodes, n.id = id)
    (hsome : ∃ id, id ∈ agents) (t : τ) (scenario : Scenario) (maxRounds : UInt64) :
    Runtime.new T.config t agents scenario maxRounds =
      .ok { state := .initial T.config agents scenario maxRounds, transport := t } := by
  have hempty : agents.isEmpty = false := Std.TreeMap.isEmpty_eq_false_iff_exists_mem.mpr hsome
  have hfind : agents.keys.find? (fun id => ¬ T.config.nodes.any (fun n => n.id = id)) = none := by
    rw [List.find?_eq_none]
    intro id hid
    obtain ⟨m, hm, hmid⟩ := hnodes id (Std.TreeMap.mem_keys.mp hid)
    simp only [decide_not, Bool.not_eq_true', decide_eq_false_iff_not, not_not]
    exact List.any_eq_true.mpr ⟨m, hm, by simpa using hmid⟩
  simp only [Runtime.new, T.wellFormed.oneRequester, ne_eq, not_true_eq_false, if_false, T.wellFormed.someProvider, hfind,
    hempty, Bool.false_eq_true]

omit [CoordinationTransport τ] in
/-- A loaded bundle for a loaded topology makes a runtime. -/
theorem new_of_loaded (T : LoadedTopology Γ) (L : LoadedAgents Γ T.config) (t : τ) (scenario : Scenario)
    (maxRounds : UInt64) : Runtime.new T.config t L.agents scenario maxRounds =
      .ok { state := .initial T.config L.agents scenario maxRounds, transport := t } := by
  obtain ⟨n, -, hn, -⟩ := T.wellFormed.requester_unique
  exact new_of_nodes T (fun _ hid => L.mem_agents.mp hid) ⟨n.id, L.mem_agents.mpr ⟨n, hn, rfl⟩⟩ t scenario maxRounds

/-- A run keeps what its transport keeps. -/
theorem runRounds_keeps (hd : Delivers τ I R) {n : Nat} {fr fr' : RoundId} {rt rt' : Runtime τ} {fin : Bool}
    (hI : I rt.transport) (h : runRounds Γ n fr rt = .ok (rt', fin, fr')) : I rt'.transport := by
  induction n generalizing fr rt with
  | zero =>
    simp only [runRounds, Except.ok.injEq, Prod.mk.injEq] at h
    exact h.1 ▸ hI
  | succ n ih =>
    obtain ⟨⟨o, rt₁⟩, h₁, h⟩ := Except.bind_eq_ok h
    obtain ⟨-, hI₁⟩ := runOneRound_ends hd hI h₁
    cases o with
    | finalized =>
      simp only [Except.ok.injEq, Prod.mk.injEq] at h
      exact h.1 ▸ hI₁
    | fallback =>
      obtain ⟨rt₂, h₂, h⟩ := Except.bind_eq_ok h
      obtain ⟨m', -, rfl⟩ := advanceFallback_ok h₂
      have hI' : I ({ rt₁ with state := { rt₁.state with roundMachine := m' } } : Runtime τ).transport := hI₁
      exact ih hI' h

/-- The rounds of a run. A property that every fallback round and the step to the next round keep holds before the round that
is finalized, or at the end when none is; and the last round attempted is the one before the active one. -/
theorem runRounds_spec (hd : Delivers τ I R) {P : RuntimeState → Prop}
    (hstep : ∀ s s' m', P s → RoundEnds Γ R s.roundMachine.current s .fallback s' →
      s'.roundMachine.advanceFallback = some (.ok (), m') → P { s' with roundMachine := m' })
    {n : Nat} {fr fr' : RoundId} {rt rt' : Runtime τ} {fin : Bool} (hI : I rt.transport) (hP : P rt.state)
    (h : runRounds Γ n fr rt = .ok (rt', fin, fr')) :
    (fin = true ∧ ∃ s, P s ∧ s.roundMachine.current = fr' ∧ RoundEnds Γ R fr' s .finalized rt'.state) ∨
      (fin = false ∧ P rt'.state ∧
        ((n = 0 ∧ fr' = fr ∧ rt' = rt) ∨ rt'.state.roundMachine.current.toNat = fr'.toNat + 1)) := by
  induction n generalizing fr rt with
  | zero =>
    simp only [runRounds, Except.ok.injEq, Prod.mk.injEq] at h
    obtain ⟨rfl, rfl, rfl⟩ := h
    exact Or.inr ⟨rfl, hP, Or.inl ⟨rfl, rfl, rfl⟩⟩
  | succ n ih =>
    obtain ⟨⟨o, rt₁⟩, h₁, h⟩ := Except.bind_eq_ok h
    obtain ⟨hends, hI₁⟩ := runOneRound_ends hd hI h₁
    cases o with
    | finalized =>
      simp only [Except.ok.injEq, Prod.mk.injEq] at h
      obtain ⟨rfl, rfl, rfl⟩ := h
      exact Or.inl ⟨rfl, rt.state, hP, rfl, hends⟩
    | fallback =>
      obtain ⟨rt₂, h₂, h⟩ := Except.bind_eq_ok h
      obtain ⟨m', hm', rfl⟩ := advanceFallback_ok h₂
      have hI' : I ({ rt₁ with state := { rt₁.state with roundMachine := m' } } : Runtime τ).transport := hI₁
      rcases ih hI' (hstep _ _ _ hP hends hm') h with hfin | ⟨hf, hP', ⟨-, rfl, rfl⟩ | hc⟩
      · exact Or.inl hfin
      · refine Or.inr ⟨hf, hP', Or.inr ?_⟩
        obtain ⟨rfl, hnext⟩ := RoundMachine.advanceFallback_ok hm'
        change (rt₁.state.roundMachine.current + 1).toNat = _
        rw [hnext, hends.frame.current]
      · exact Or.inr ⟨hf, hP', Or.inr hc⟩

end Runtime

/-- A run keeps what the steps of its rounds keep. -/
theorem Kept.runRounds {τ : Type} [CoordinationTransport τ] {Γ : Crypto} {P : RoundId → RuntimeState → Prop} (hk : Kept Γ P) {n : Nat}
    {fr fr' : RoundId} {rt rt' : Runtime τ} {fin : Bool} (hP : P rt.state.roundMachine.current rt.state) (h : Runtime.runRounds Γ n fr rt = .ok (rt', fin, fr')) :
    P rt'.state.roundMachine.current rt'.state := by
  have hstep : ∀ s s' m', P s.roundMachine.current s → RoundEnds Γ anyDelivery s.roundMachine.current s .fallback s' →
      s'.roundMachine.advanceFallback = some (.ok (), m') → P m'.current { s' with roundMachine := m' } := by
    intro s s' m' hs he ha
    have := hk.advance _ _ _ (hk.roundEnds hs he) ha
    obtain ⟨rfl, -⟩ := RoundMachine.advanceFallback_ok ha
    rwa [← he.frame.current] at this
  rcases Runtime.runRounds_spec (delivers_any τ) (P := fun s => P s.roundMachine.current s) hstep trivial hP h with
    ⟨-, s, hs, rfl, he⟩ | ⟨-, hs, -⟩
  · have := hk.roundEnds hs he
    rwa [← he.frame.current] at this
  · exact hs

end VertexVeil
