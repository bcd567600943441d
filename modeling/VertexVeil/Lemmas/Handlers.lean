import VertexVeil.Runtime

/-!
# Helpers about the runtime: what one message and one broadcast can do

One `_cases` lemma a handler: the message is taken, or a rejection is logged and nothing else changes. `SameFrame` says what a
round leaves alone; every handler and every broadcast keeps it.
-/

namespace VertexVeil

open Codec

namespace RuntimeState

/-- The labels of a rejection the runtime logs on purpose: both are there, and the code is not the one for a disagreement
between the round machine and the log. -/
def ProperLabels (kind reasonCode : String) : Prop := kind ≠ "" ∧ reasonCode ≠ "" ∧ reasonCode ≠ "log_duplicate"

theorem properLabels_error (e : RoundError) : ProperLabels "commitment" (roundErrorCode e) ∧
    ProperLabels "proposal" (roundErrorCode e) := by
  cases e <;> simp [ProperLabels, roundErrorCode]

theorem properLabels_outOfPhase (payload : MessagePayload) : ProperLabels (payloadLabel payload) "out_of_phase" := by
  cases payload <;> simp [ProperLabels, payloadLabel]

/-- A state with a rejection logged, the rest unchanged. -/
def Rejects (round : RoundId) (s s' : RuntimeState) : Prop :=
  ∃ node kind reasonCode, ProperLabels kind reasonCode ∧ s' = s.reject round node kind reasonCode

/-- Take a commitment: the round machine and the log both add it. -/
def takeCommitment (s : RuntimeState) (c : CommitmentRecord) : RuntimeState :=
  { s with roundMachine := s.roundMachine.addCommitment c, log := (s.log.appendCommitment c).2 }

/-- Take a proposal. -/
def takeProposal (s : RuntimeState) (p : ProposalRecord) : RuntimeState :=
  { s with roundMachine := { s.roundMachine with proposal := some p }, log := s.log.appendProposal p }

/-- Handling a message in the commitment phase: a commitment of its origin that passes the machine's checks is taken when the
log has no such key, and refused by the log when it has; anything else is rejected. -/
theorem handleCommitment_cases (round : RoundId) (s : RuntimeState) (msg : CoordinationMessage) :
    (∃ c, msg.payload = .commitment c ∧ msg.origin = c.nodeId ∧ RoundMachine.Committable s.roundMachine c ∧
      ((c.nodeId, c.round) ∉ s.log.commitmentKeys ∧ handleCommitment round s msg = s.takeCommitment c ∨
        (c.nodeId, c.round) ∈ s.log.commitmentKeys ∧ handleCommitment round s msg =
          (s.takeCommitment c).reject round c.nodeId "commitment" "log_duplicate")) ∨
      Rejects round s (handleCommitment round s msg) := by
  unfold handleCommitment
  split
  · rename_i c hc
    split
    · exact Or.inr ⟨_, _, _, by simp [ProperLabels], rfl⟩
    · rename_i ho
      rcases RoundMachine.acceptCommitment_cases s.roundMachine c with ⟨hok, ha⟩ | ⟨-, e, ha⟩
      · refine Or.inl ⟨c, hc, not_not.mp ho, hok, ?_⟩
        by_cases hk : (c.nodeId, c.round) ∈ s.log.commitmentKeys
        · refine Or.inr ⟨hk, ?_⟩
          simp only [ha, takeCommitment, CoordinationLog.appendCommitment, if_pos hk]
        · refine Or.inl ⟨hk, ?_⟩
          simp only [ha, takeCommitment, CoordinationLog.appendCommitment, if_neg hk]
      · simp only [ha]
        exact Or.inr ⟨_, _, _, (properLabels_error e).1, rfl⟩
  · exact Or.inr ⟨_, _, _, properLabels_outOfPhase _, rfl⟩

/-- Handling a message in the proposal phase: a proposal of its origin that passes the machine's checks is taken, anything
else is rejected. -/
theorem handleProposal_cases (round : RoundId) (s : RuntimeState) (msg : CoordinationMessage) :
    (∃ p, msg.payload = .proposal p ∧ msg.origin = p.proposer ∧ RoundMachine.Proposable s.roundMachine p ∧
      handleProposal round s msg = s.takeProposal p) ∨ Rejects round s (handleProposal round s msg) := by
  unfold handleProposal
  split
  · rename_i p hp
    split
    · exact Or.inr ⟨_, _, _, by simp [ProperLabels], rfl⟩
    · rename_i ho
      rcases RoundMachine.acceptProposal_cases s.roundMachine p with ⟨hok, ha⟩ | ⟨-, e, ha⟩
      · exact Or.inl ⟨p, hp, not_not.mp ho, hok, by simp only [ha, takeProposal]⟩
      · simp only [ha]
        exact Or.inr ⟨_, _, _, (properLabels_error e).2, rfl⟩
  · exact Or.inr ⟨_, _, _, properLabels_outOfPhase _, rfl⟩

/-- Handling a message in the proof phase: a proof of its origin and of the round that carries the digest of the node's
commitment is taken, anything else is rejected. -/
theorem handleProof_cases (round : RoundId) (s : RuntimeState) (msg : CoordinationMessage) :
    (∃ a c, msg.payload = .proof a ∧ msg.origin = a.nodeId ∧ a.round = round ∧
      s.roundMachine.commitments[a.nodeId]? = some c ∧
      extractCommitmentHashHex a.publicInputsHex = some c.commitmentHex ∧
      handleProof round s msg = { s with log := s.log.appendProof a }) ∨ Rejects round s (handleProof round s msg) := by
  unfold handleProof
  split
  · rename_i a ha
    split
    · exact Or.inr ⟨_, _, _, by simp [ProperLabels], rfl⟩
    · rename_i ho
      split
      · exact Or.inr ⟨_, _, _, by simp [ProperLabels], rfl⟩
      · rename_i hr
        split
        · exact Or.inr ⟨_, _, _, by simp [ProperLabels], rfl⟩
        · rename_i c hc
          split
          · exact Or.inr ⟨_, _, _, by simp [ProperLabels], rfl⟩
          · rename_i he
            exact Or.inl ⟨a, c, ha, not_not.mp ho, not_not.mp hr, hc, not_not.mp he, rfl⟩
  · exact Or.inr ⟨_, _, _, properLabels_outOfPhase _, rfl⟩

/-- Handling a message in the receipt phase: a receipt of its origin and of the round with a signature is taken, anything else
is rejected. -/
theorem handleReceipt_cases (round : RoundId) (s : RuntimeState) (msg : CoordinationMessage) :
    (∃ r, msg.payload = .receipt r ∧ msg.origin = r.provider ∧ r.round = round ∧ r.signatureHex ≠ [] ∧
      handleReceipt round s msg = { s with log := s.log.appendReceipt r }) ∨
        ((∀ r, msg.payload = .receipt r → msg.origin = r.provider → r.round = round → r.signatureHex = []) ∧
          Rejects round s (handleReceipt round s msg)) := by
  unfold handleReceipt
  split
  · rename_i r hr
    have hpay : ∀ r', msg.payload = .receipt r' → r' = r := fun r' h => by rw [hr] at h; simpa using h.symm
    split
    · rename_i ho
      exact Or.inr ⟨fun r' h ho' => absurd (hpay r' h ▸ ho') ho, _, _, _, by simp [ProperLabels], rfl⟩
    · rename_i ho
      split
      · rename_i hround
        exact Or.inr ⟨fun r' h _ hr' => absurd (hpay r' h ▸ hr') hround, _, _, _,
          by simp [ProperLabels], rfl⟩
      · rename_i hround
        split
        · rename_i hsig
          exact Or.inr ⟨fun r' h _ _ => hpay r' h ▸ hsig, _, _, _, by simp [ProperLabels], rfl⟩
        · rename_i hsig
          exact Or.inl ⟨r, hr, not_not.mp ho, not_not.mp hround, hsig, rfl⟩
  · rename_i hne
    exact Or.inr ⟨fun r h => absurd h (hne r), _, _, _, properLabels_outOfPhase _, rfl⟩

/-! ## What a round leaves alone -/

/-- The parts of a state a round does not change. -/
structure SameFrame (s s' : RuntimeState) : Prop where
  topology : s'.topology = s.topology
  agents : s'.agents = s.agents
  scenario : s'.scenario = s.scenario
  schedule : s'.invalidProofSchedule = s.invalidProofSchedule
  salt : s'.runSalt = s.runSalt
  machineTopology : s'.roundMachine.topology = s.roundMachine.topology
  current : s'.roundMachine.current = s.roundMachine.current
  past : s'.roundMachine.past = s.roundMachine.past

theorem SameFrame.refl (s : RuntimeState) : SameFrame s s := ⟨rfl, rfl, rfl, rfl, rfl, rfl, rfl, rfl⟩

theorem SameFrame.trans {a b c : RuntimeState} (h : SameFrame a b) (h' : SameFrame b c) : SameFrame a c :=
  ⟨h'.1.trans h.1, h'.2.trans h.2, h'.3.trans h.3, h'.4.trans h.4, h'.5.trans h.5, h'.6.trans h.6, h'.7.trans h.7,
    h'.8.trans h.8⟩

theorem SameFrame.of_rejects {round : RoundId} {s s' : RuntimeState} (h : Rejects round s s') : SameFrame s s' := by
  obtain ⟨_, _, _, -, rfl⟩ := h
  exact ⟨rfl, rfl, rfl, rfl, rfl, rfl, rfl, rfl⟩

theorem sameFrame_handleCommitment (round : RoundId) (s : RuntimeState) (msg : CoordinationMessage) :
    SameFrame s (handleCommitment round s msg) := by
  rcases handleCommitment_cases round s msg with ⟨c, -, -, -, ⟨-, h⟩ | ⟨-, h⟩⟩ | h
  · rw [h]
    exact ⟨rfl, rfl, rfl, rfl, rfl, rfl, rfl, rfl⟩
  · rw [h]
    exact ⟨rfl, rfl, rfl, rfl, rfl, rfl, rfl, rfl⟩
  · exact .of_rejects h

theorem sameFrame_handleProposal (round : RoundId) (s : RuntimeState) (msg : CoordinationMessage) :
    SameFrame s (handleProposal round s msg) := by
  rcases handleProposal_cases round s msg with ⟨p, -, -, -, h⟩ | h
  · rw [h]
    exact ⟨rfl, rfl, rfl, rfl, rfl, rfl, rfl, rfl⟩
  · exact .of_rejects h

theorem sameFrame_handleProof (round : RoundId) (s : RuntimeState) (msg : CoordinationMessage) :
    SameFrame s (handleProof round s msg) := by
  rcases handleProof_cases round s msg with ⟨a, c, -, -, -, -, -, h⟩ | h
  · rw [h]
    exact ⟨rfl, rfl, rfl, rfl, rfl, rfl, rfl, rfl⟩
  · exact .of_rejects h

theorem sameFrame_handleReceipt (round : RoundId) (s : RuntimeState) (msg : CoordinationMessage) :
    SameFrame s (handleReceipt round s msg) := by
  rcases handleReceipt_cases round s msg with ⟨r, -, -, -, -, h⟩ | ⟨-, h⟩
  · rw [h]
    exact ⟨rfl, rfl, rfl, rfl, rfl, rfl, rfl, rfl⟩
  · exact .of_rejects h

/-- A handler that keeps the frame keeps it over a batch. -/
theorem sameFrame_foldl {handle : RuntimeState → CoordinationMessage → RuntimeState}
    (h : ∀ s msg, SameFrame s (handle s msg)) (batch : List CoordinationMessage) (s : RuntimeState) :
    SameFrame s (batch.foldl handle s) := by
  induction batch generalizing s with
  | nil => exact .refl s
  | cons msg batch ih => exact (h s msg).trans (ih _)

/-! ## Proofs and receipts -/

/-- The proofs and the receipts of a log. -/
def outputs (s : RuntimeState) : List ProofArtifactRecord × List CompletionReceiptRecord :=
  (s.log.proofs, s.log.receipts)

theorem outputs_of_rejects {round : RoundId} {s s' : RuntimeState} (h : Rejects round s s') : s'.outputs = s.outputs := by
  obtain ⟨_, _, _, -, rfl⟩ := h
  rfl

theorem outputs_takeCommitment (s : RuntimeState) (c : CommitmentRecord) :
    (s.takeCommitment c).outputs = s.outputs := by
  simp only [takeCommitment, CoordinationLog.appendCommitment, outputs]
  split <;> rfl

theorem outputs_handleCommitment (round : RoundId) (s : RuntimeState) (msg : CoordinationMessage) :
    (handleCommitment round s msg).outputs = s.outputs := by
  rcases handleCommitment_cases round s msg with ⟨c, -, -, -, ⟨-, h⟩ | ⟨-, h⟩⟩ | h
  · rw [h, outputs_takeCommitment]
  · rw [h]
    exact outputs_takeCommitment s c
  · exact outputs_of_rejects h

theorem outputs_handleProposal (round : RoundId) (s : RuntimeState) (msg : CoordinationMessage) :
    (handleProposal round s msg).outputs = s.outputs := by
  rcases handleProposal_cases round s msg with ⟨p, -, -, -, h⟩ | h
  · rw [h]
    rfl
  · exact outputs_of_rejects h

theorem receipts_handleProof (round : RoundId) (s : RuntimeState) (msg : CoordinationMessage) :
    (handleProof round s msg).log.receipts = s.log.receipts := by
  rcases handleProof_cases round s msg with ⟨a, c, -, -, -, -, -, h⟩ | h
  · rw [h]
    rfl
  · exact congrArg Prod.snd (outputs_of_rejects h)

theorem proposals_handleProof (round : RoundId) (s : RuntimeState) (msg : CoordinationMessage) :
    (handleProof round s msg).log.proposals = s.log.proposals := by
  rcases handleProof_cases round s msg with ⟨a, c, -, -, -, -, -, h⟩ | ⟨_, _, _, -, h⟩
  · rw [h]
    rfl
  · rw [h]
    rfl

theorem proposals_handleReceipt (round : RoundId) (s : RuntimeState) (msg : CoordinationMessage) :
    (handleReceipt round s msg).log.proposals = s.log.proposals := by
  rcases handleReceipt_cases round s msg with ⟨r, -, -, -, -, h⟩ | ⟨-, _, _, _, -, h⟩
  · rw [h]
    rfl
  · rw [h]
    rfl

/-- What a handler keeps it keeps over a batch. -/
theorem foldl_keeps {α : Type} {f : RuntimeState → α} {handle : RuntimeState → CoordinationMessage → RuntimeState}
    (h : ∀ s msg, f (handle s msg) = f s) (batch : List CoordinationMessage) (s : RuntimeState) :
    f (batch.foldl handle s) = f s := by
  induction batch generalizing s with
  | nil => rfl
  | cons msg batch ih => exact (ih _).trans (h s msg)

/-! ## Broadcasts -/

/-- One step after another succeeds when both do; the messages are those of the first and then those of the second. -/
theorem andThen_eq_ok {α β : Type} {x : Emit α} {f : α → Emit β} {msgs : List CoordinationMessage} {b : β}
    (h : x.andThen f = (msgs, .ok b)) : ∃ a, x.2 = .ok a ∧ (f a).2 = .ok b ∧ msgs = x.1 ++ (f a).1 := by
  unfold Emit.andThen at h
  split at h
  · rename_i a ha
    exact ⟨a, ha, (Prod.mk.inj h).2, (Prod.mk.inj h).1.symm⟩
  · simp at h

/-- What the commitment broadcast of one node does to the state: a dropped node leaves a rejection, another one remembers its
commitment. -/
theorem broadcastCommitment_cases {Γ : Crypto} {round : RoundId} {nodeId : NodeId} {s s' : RuntimeState}
    (h : (s.broadcastCommitment Γ round nodeId).2 = .ok s') :
    (s.scenario.hasDropped nodeId round = true ∧ s' = s.reject round nodeId "commitment" "node_dropped") ∨
      (s.scenario.hasDropped nodeId round = false ∧ ∃ rec, s.buildCommitment Γ nodeId round = .ok rec ∧
        s' = s.remember nodeId round rec) := by
  unfold broadcastCommitment at h
  split at h
  · rename_i hd
    exact Or.inl ⟨hd, (Except.ok.inj h).symm⟩
  · rename_i hd
    split at h
    · simp at h
    · rename_i rec hrec
      exact Or.inr ⟨by simpa using hd, rec, hrec, (Except.ok.inj h).symm⟩

/-- A state invariant that rejections and remembered commitments keep is kept by the commitment broadcasts. -/
theorem broadcastCommitmentsOf_invariant {Γ : Crypto} {round : RoundId} {P : RuntimeState → Prop}
    (hreject : ∀ s s', P s → Rejects round s s' → P s')
    (hremember : ∀ s nodeId rec, P s → s.scenario.hasDropped nodeId round = false →
      s.buildCommitment Γ nodeId round = .ok rec → P (s.remember nodeId round rec))
    {nodeIds : List NodeId} {s s' : RuntimeState} {msgs : List CoordinationMessage} (hP : P s)
    (h : s.broadcastCommitmentsOf Γ round nodeIds = (msgs, .ok s')) : P s' := by
  induction nodeIds generalizing s msgs with
  | nil =>
    simp only [broadcastCommitmentsOf, Prod.mk.injEq, Except.ok.injEq] at h
    exact h.2 ▸ hP
  | cons nodeId nodeIds ih =>
    obtain ⟨s₁, h₁, h₂, -⟩ := andThen_eq_ok h
    have hrest : s₁.broadcastCommitmentsOf Γ round nodeIds = ((s₁.broadcastCommitmentsOf Γ round nodeIds).1, .ok s') :=
      Prod.ext rfl h₂
    refine ih ?_ hrest
    rcases broadcastCommitment_cases h₁ with ⟨-, rfl⟩ | ⟨hd, rec, hrec, rfl⟩
    · exact hreject _ _ hP ⟨_, _, _, by simp [ProperLabels], rfl⟩
    · exact hremember _ _ _ hP hd hrec

theorem sameFrame_broadcastCommitments {Γ : Crypto} {round : RoundId} {s s' : RuntimeState}
    {msgs : List CoordinationMessage} (h : s.broadcastCommitments Γ round = (msgs, .ok s')) : SameFrame s s' :=
  broadcastCommitmentsOf_invariant (P := SameFrame s) (fun _ _ hs hr => hs.trans (.of_rejects hr))
    (fun _ _ _ hs _ _ => ⟨hs.1, hs.2, hs.3, hs.4, hs.5, hs.6, hs.7, hs.8⟩) (.refl s) h

theorem outputs_broadcastCommitments {Γ : Crypto} {round : RoundId} {s s' : RuntimeState}
    {msgs : List CoordinationMessage} (h : s.broadcastCommitments Γ round = (msgs, .ok s')) : s'.outputs = s.outputs :=
  broadcastCommitmentsOf_invariant (P := fun s' => s'.outputs = s.outputs)
    (fun _ _ hs hr => (outputs_of_rejects hr).trans hs) (fun _ _ _ hs _ _ => hs) rfl h

/-- The proposal broadcast leaves the state or, when it gives the round up, logs a rejection and broadcasts nothing. -/
theorem broadcastProposal_cases {round : RoundId} {s s' : RuntimeState} {ok : Bool} {msgs : List CoordinationMessage}
    (h : s.broadcastProposal round = (msgs, .ok (ok, s'))) :
    (ok = true ∧ s' = s) ∨ (ok = false ∧ msgs = [] ∧ Rejects round s s') := by
  unfold broadcastProposal at h
  split at h
  · simp at h
  · split at h
    · simp only [Prod.mk.injEq, Except.ok.injEq] at h
      exact Or.inl ⟨h.2.1.symm, h.2.2.symm⟩
    · split at h
      · simp at h
      · split at h
        · simp only [Prod.mk.injEq, Except.ok.injEq] at h
          exact Or.inr ⟨h.2.1.symm, h.1.symm, _, _, _, by simp [ProperLabels], h.2.2.symm⟩
        · split at h
          · simp only [Prod.mk.injEq, Except.ok.injEq] at h
            exact Or.inl ⟨h.2.1.symm, h.2.2.symm⟩
          · simp only [Prod.mk.injEq, Except.ok.injEq] at h
            exact Or.inr ⟨h.2.1.symm, h.1.symm, _, _, _, by simp [ProperLabels], h.2.2.symm⟩
          · rename_i e he
            simp only [Prod.mk.injEq, Except.ok.injEq] at h
            refine Or.inr ⟨h.2.1.symm, h.1.symm, _, _, _, ?_, h.2.2.symm⟩
            cases e <;> simp [ProperLabels, candidateRejectionDebug]

/-! ## Whose messages are broadcast -/

section

variable {Γ : Crypto} {s : RuntimeState} {round : RoundId} {nodeId : NodeId} {msg : CoordinationMessage}

theorem origin_replays (h : msg ∈ s.replays nodeId round) : msg.origin = nodeId := by
  obtain ⟨e, he, hmap⟩ := List.mem_filterMap.mp h
  split at hmap
  · obtain ⟨prior, -, rfl⟩ := Option.map_eq_some_iff.mp hmap
    have hn := (List.mem_filter.mp he).2
    simp only [ScenarioEvent.targets, decide_eq_true_eq] at hn
    exact hn.1
  · simp at hmap

theorem origin_doubleCommits (h : msg ∈ s.doubleCommits nodeId round) : msg.origin = nodeId := by
  obtain ⟨e, he, hmap⟩ := List.mem_filterMap.mp h
  split at hmap
  · obtain ⟨rec, -, rfl⟩ := Option.map_eq_some_iff.mp hmap
    have hn := (List.mem_filter.mp he).2
    simp only [ScenarioEvent.targets, decide_eq_true_eq] at hn
    exact hn.1
  · simp at hmap

theorem origin_broadcastCommitment (h : msg ∈ (s.broadcastCommitment Γ round nodeId).1) : msg.origin = nodeId := by
  unfold broadcastCommitment at h
  split at h
  · exact origin_replays h
  · split at h
    · exact origin_replays h
    · rcases List.mem_append.mp h with h | h
      · rcases List.mem_append.mp h with h | h
        · exact origin_replays h
        · rw [List.mem_singleton.mp h]
      · exact origin_doubleCommits h

theorem origin_broadcastCommitmentsOf {nodeIds : List NodeId} (h : msg ∈ (s.broadcastCommitmentsOf Γ round nodeIds).1) :
    msg.origin ∈ nodeIds := by
  induction nodeIds generalizing s with
  | nil => exact absurd h List.not_mem_nil
  | cons n nodeIds ih =>
    simp only [broadcastCommitmentsOf, Emit.andThen] at h
    split at h
    · rcases List.mem_append.mp h with h | h
      · rw [origin_broadcastCommitment h]
        exact List.mem_cons_self
      · exact List.mem_cons_of_mem _ (ih h)
    · rw [origin_broadcastCommitment h]
      exact List.mem_cons_self

/-- Commitments are broadcast for agents of the process. -/
theorem origin_broadcastCommitments (h : msg ∈ (s.broadcastCommitments Γ round).1) : msg.origin ∈ s.agents :=
  Std.TreeMap.mem_keys.mp (origin_broadcastCommitmentsOf h)

/-- The proposal phase: nothing, or the proposal of an agent of the process. -/
theorem broadcastProposal_msgs (s : RuntimeState) (round : RoundId) : (s.broadcastProposal round).1 = [] ∨
    ∃ q : ProposalRecord, q.round = round ∧ q.proposer ∈ s.agents ∧ (s.broadcastProposal round).1 = [{ origin := q.proposer, payload := .proposal q }] := by
  unfold broadcastProposal
  split
  · exact Or.inl rfl
  · split
    · exact Or.inl rfl
    · rename_i hmem
      split
      · exact Or.inl rfl
      · split
        · exact Or.inl rfl
        · split
          · rename_i candidate _
            refine Or.inr ⟨{
              proposer := _, round, candidateRequester := candidate.requester
              candidateProvider := candidate.provider, matchedCapability := candidate.matchedCapability }, rfl, ?_, rfl⟩
            exact Std.TreeMap.contains_iff_mem.mp (not_not.mp hmem)
          · exact Or.inl rfl
          · exact Or.inl rfl

theorem origin_broadcastProposal (h : msg ∈ (s.broadcastProposal round).1) : msg.origin ∈ s.agents := by
  rcases broadcastProposal_msgs s round with he | ⟨q, -, hq, he⟩
  · rw [he] at h
    exact absurd h List.not_mem_nil
  · rw [he] at h
    rw [List.mem_singleton.mp h]
    exact hq

/-- A proof is broadcast by the participant itself, as an agent of the process. -/
theorem broadcastProof_msgs (h : msg ∈ (s.broadcastProof Γ round nodeId).1) :
    nodeId ∈ s.agents ∧ ∃ a, msg = { origin := nodeId, payload := .proof a } := by
  unfold broadcastProof at h
  split at h
  · exact absurd h List.not_mem_nil
  · rename_i hn
    split at h
    · exact absurd h List.not_mem_nil
    · exact ⟨Std.TreeMap.contains_iff_mem.mp (not_not.mp hn), _, List.mem_singleton.mp h⟩

theorem broadcastProofs_msgs {p : ProposalRecord} (h : msg ∈ (s.broadcastProofs Γ round p).1) :
    ∃ n ∈ s.agents, ∃ a, msg = { origin := n, payload := .proof a } := by
  unfold broadcastProofs Emit.andThen at h
  split at h
  · rcases List.mem_append.mp h with h | h
    · exact ⟨_, broadcastProof_msgs h⟩
    · exact ⟨_, broadcastProof_msgs h⟩
  · exact ⟨_, broadcastProof_msgs h⟩

theorem broadcastReceipt_msgs {p : ProposalRecord} (h : msg ∈ (s.broadcastReceipt Γ round p).1) :
    ∃ n ∈ s.agents, ∃ r, msg = { origin := n, payload := .receipt r } := by
  unfold broadcastReceipt at h
  dsimp only at h
  split at h
  · exact absurd h List.not_mem_nil
  · rename_i hn
    exact ⟨_, Std.TreeMap.contains_iff_mem.mp (not_not.mp hn), _, List.mem_singleton.mp h⟩

end

end RuntimeState

end VertexVeil
