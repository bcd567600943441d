import VertexVeil.Lemmas.Thinned
import VertexVeil.Lemmas.Trace

/-!
# Helpers for `Theorems/Silence.lean`: rounds that leave no rejection

A drain either takes every message it is given or logs a rejection. So a round that falls back and leaves none is one in which all
that was delivered is in order, and what is missing was not said: no proposal came, or only one of the two proofs or neither.
-/

namespace VertexVeil

open Codec RuntimeState

/-- The log has a rejection of a round. -/
def Recorded (log : CoordinationLog) (r : RoundId) : Prop := ∃ rj ∈ log.rejections, rj.round = r

/-! ## Messages in order -/

/-- Commitments that a machine takes one after the other, each broadcast by its node. -/
inductive Takes : RoundMachine → List CoordinationMessage → RoundMachine → Prop where
  | nil (m : RoundMachine) : Takes m [] m
  | cons {m m' : RoundMachine} {c : CommitmentRecord} {msg : CoordinationMessage} {batch : List CoordinationMessage} :
      msg = { origin := c.nodeId, payload := .commitment c } → RoundMachine.Committable m c →
      Takes (m.addCommitment c) batch m' → Takes m (msg :: batch) m'

/-- A proof of the round with the digest of its node's commitment, broadcast by that node. -/
def ProofInOrder (m : RoundMachine) (round : RoundId) (msg : CoordinationMessage) : Prop :=
  ∃ a c, msg = { origin := a.nodeId, payload := .proof a } ∧ a.round = round ∧ m.commitments[a.nodeId]? = some c ∧
    extractCommitmentHashHex a.publicInputsHex = some c.commitmentHex

/-- The commitment phase of a round is in order: no local node has dropped, every delivered commitment is taken, the requester's
is there, and if the round's proposer is local it can find a candidate. -/
structure Orderly (d : Deliveries) (s : RuntimeState) (m : RoundMachine) : Prop where
  present : ∀ n ∈ s.agents, s.scenario.hasDropped n s.roundMachine.current = false
  taken : Takes s.roundMachine (d.schedule s.roundMachine.current .commitments) m
  candidate : ∃ n req, s.topology.requester = some n ∧ m.commitments[n.id]? = some req ∧
    ∀ q, deterministicProposer s.topology s.roundMachine.current = .ok q → q ∈ s.agents →
      ∃ cand, deriveCandidate s.roundMachine.current req (m.providersSnapshot n.id) = .ok (some cand)

/-- A round that is in order but for a silence: no message comes in its proposal phase, or one proposal that is in order and then
only proofs that are, none of them of one of the two participants. -/
inductive SilentRound (d : Deliveries) (s : RuntimeState) : Prop where
  | proposer {m : RoundMachine} : Orderly d s m → d.schedule s.roundMachine.current .proposal = [] → SilentRound d s
  | prover {m : RoundMachine} {p : ProposalRecord} {n : NodeId} : Orderly d s m →
      d.schedule s.roundMachine.current .proposal = [{ origin := p.proposer, payload := .proposal p }] →
      RoundMachine.Proposable m p →
      (∀ msg ∈ d.schedule s.roundMachine.current .proofs, ProofInOrder m s.roundMachine.current msg) →
      (n = p.candidateRequester ∨ n = p.candidateProvider) →
      (∀ msg ∈ d.schedule s.roundMachine.current .proofs, msg.origin ≠ n) → SilentRound d s

section

variable {Γ : Crypto} {t : TopologyConfig} {s s' : RuntimeState} {round : RoundId} {batch : List CoordinationMessage}

theorem Takes.unique {m m' m'' : RoundMachine} (h : Takes m batch m') (h' : Takes m batch m'') : m' = m'' := by
  induction h with
  | nil m =>
    cases h'
    rfl
  | cons hmsg _ _ ih =>
    cases h' with
    | cons hmsg' _ hrest =>
      rw [hmsg, CoordinationMessage.mk.injEq, MessagePayload.commitment.injEq] at hmsg'
      obtain ⟨-, rfl⟩ := hmsg'
      exact ih hrest

/-! ## What is recorded stays so -/

theorem Recorded.of_rejects (h : Rejects round s s') : Recorded s'.log round := by
  obtain ⟨node, kind, reason, -, rfl⟩ := h
  exact ⟨_, List.mem_append_right _ (List.mem_singleton.mpr rfl), rfl⟩

theorem rejections_takeCommitment (s : RuntimeState) (c : CommitmentRecord) :
    (s.takeCommitment c).log.rejections = s.log.rejections := by
  simp only [takeCommitment, CoordinationLog.appendCommitment]
  split <;> rfl

/-- What the steps since a round have added: rejections and proofs of no earlier round, and proofs of no later one. -/
structure Since (r₀ : RoundId) (s₀ : RuntimeState) (r : RoundId) (s : RuntimeState) : Prop where
  current : s.roundMachine.current = r
  le : r₀ ≤ r
  kept : ∀ rj ∈ s₀.log.rejections, rj ∈ s.log.rejections
  rejections : ∀ rj ∈ s.log.rejections, rj ∈ s₀.log.rejections ∨ r₀ ≤ rj.round
  proofs : ∀ a ∈ s.log.proofs, a ∈ s₀.log.proofs ∨ a.round ≤ r

namespace Since

variable {r₀ : RoundId} {s₀ : RuntimeState}

theorem refl (s : RuntimeState) : Since s.roundMachine.current s s.roundMachine.current s :=
  ⟨rfl, UInt64.le_refl _, fun _ h => h, fun _ h => Or.inl h, fun _ h => Or.inl h⟩

/-- A step that stays in the round and changes neither rejections nor proofs. -/
theorem of_same (h : Since r₀ s₀ round s) (hcur : s'.roundMachine.current = s.roundMachine.current)
    (hrej : s'.log.rejections = s.log.rejections) (hproofs : s'.log.proofs = s.log.proofs) : Since r₀ s₀ round s' :=
  ⟨hcur.trans h.current, h.le, hrej ▸ h.kept, hrej ▸ h.rejections, hproofs ▸ h.proofs⟩

theorem reject (h : Since r₀ s₀ round s) (node : NodeId) (kind reason : String) :
    Since r₀ s₀ round (s.reject round node kind reason) := by
  refine ⟨h.current, h.le, ?_, ?_, h.proofs⟩
  · intro rj hrj
    exact List.mem_append_left _ (h.kept rj hrj)
  · intro rj hrj
    rcases List.mem_append.mp hrj with hrj | hrj
    · exact h.rejections rj hrj
    · rw [List.mem_singleton.mp hrj]
      exact Or.inr h.le

theorem rejects (h : Since r₀ s₀ round s) (hr : Rejects round s s') : Since r₀ s₀ round s' := by
  obtain ⟨node, kind, reason, -, rfl⟩ := hr
  exact h.reject node kind reason

/-- Every step keeps it. -/
theorem keeps (Γ : Crypto) : Kept Γ (Since r₀ s₀) where
  rejects _ _ _ h hr := h.rejects hr
  remember _ _ _ _ h _ := h.of_same rfl rfl rfl
  commitment r s msg h := by
    have htake : ∀ c, Since r₀ s₀ r (s.takeCommitment c) := fun c =>
      h.of_same rfl (rejections_takeCommitment s c) (congrArg Prod.fst (outputs_takeCommitment s c))
    rcases handleCommitment_cases r s msg with ⟨c, -, -, -, ⟨-, he⟩ | ⟨-, he⟩⟩ | hr
    · rw [he]
      exact htake c
    · rw [he]
      exact (htake c).reject _ _ _
    · exact h.rejects hr
  proposal r s msg h := by
    rcases handleProposal_cases r s msg with ⟨p, -, -, -, he⟩ | hr
    · rw [he]
      exact h.of_same rfl rfl rfl
    · exact h.rejects hr
  proof r s msg h := by
    rcases handleProof_cases r s msg with ⟨a, c, -, -, hround, -, -, he⟩ | hr
    · rw [he]
      refine ⟨h.current, h.le, h.kept, h.rejections, ?_⟩
      intro b hb
      rcases List.mem_append.mp hb with hb | hb
      · exact h.proofs b hb
      · rw [List.mem_singleton.mp hb, hround]
        exact Or.inr (UInt64.le_refl r)
    · exact h.rejects hr
  receipt r s msg h := by
    rcases handleReceipt_cases r s msg with ⟨x, -, -, -, -, he⟩ | ⟨-, hr⟩
    · rw [he]
      exact h.of_same rfl rfl rfl
    · exact h.rejects hr
  advance r s m' h ha := by
    obtain ⟨rfl, hnext⟩ := RoundMachine.advanceFallback_ok ha
    have hle : r ≤ r + 1 := by
      rw [UInt64.le_iff_toNat_le, ← h.current, hnext]
      exact Nat.le_succ _
    refine ⟨congrArg (· + 1) h.current, UInt64.le_trans h.le hle, h.kept, h.rejections, ?_⟩
    intro a ha
    rcases h.proofs a ha with ha | ha
    · exact Or.inl ha
    · exact Or.inr (UInt64.le_trans ha hle)

end Since

/-! ## A drain takes everything or records a rejection -/

/-- What a phase's handler keeps of a record over a batch. -/
theorem Recorded.foldl {handle : RuntimeState → CoordinationMessage → RuntimeState}
    (hkeep : ∀ s msg, ∀ rj ∈ s.log.rejections, rj ∈ (handle s msg).log.rejections) (h : Recorded s.log round)
    (batch : List CoordinationMessage) : Recorded (batch.foldl handle s).log round := by
  obtain ⟨rj, hrj, hr⟩ := h
  exact ⟨rj, List.foldlRecOn (motive := fun (x : RuntimeState) => rj ∈ x.log.rejections) _ _ hrj
    (fun x hx msg _ => hkeep x msg rj hx), hr⟩

theorem rejections_handleCommitment (round : RoundId) (s : RuntimeState) (msg : CoordinationMessage) :
    ∀ rj ∈ s.log.rejections, rj ∈ (handleCommitment round s msg).log.rejections := by
  intro rj hrj
  rcases handleCommitment_cases round s msg with ⟨c, -, -, -, ⟨-, he⟩ | ⟨-, he⟩⟩ | ⟨_, _, _, -, he⟩
  · rw [he, rejections_takeCommitment]
    exact hrj
  · rw [he]
    refine List.mem_append_left _ ?_
    rw [rejections_takeCommitment]
    exact hrj
  · rw [he]
    exact List.mem_append_left _ hrj

theorem rejections_handleProposal (round : RoundId) (s : RuntimeState) (msg : CoordinationMessage) :
    ∀ rj ∈ s.log.rejections, rj ∈ (handleProposal round s msg).log.rejections := by
  intro rj hrj
  rcases handleProposal_cases round s msg with ⟨p, -, -, -, he⟩ | ⟨_, _, _, -, he⟩
  · rw [he]
    exact hrj
  · rw [he]
    exact List.mem_append_left _ hrj

theorem rejections_handleProof (round : RoundId) (s : RuntimeState) (msg : CoordinationMessage) :
    ∀ rj ∈ s.log.rejections, rj ∈ (handleProof round s msg).log.rejections := by
  intro rj hrj
  rcases handleProof_cases round s msg with ⟨a, c, -, -, -, -, -, he⟩ | ⟨_, _, _, -, he⟩
  · rw [he]
    exact hrj
  · rw [he]
    exact List.mem_append_left _ hrj

/-- A message that is rejected is not one that leaves the rejections as they are. -/
theorem not_rejects_of_rejections {x y : RuntimeState} (h : y.log.rejections = x.log.rejections) : ¬ Rejects round x y := by
  rintro ⟨_, _, _, -, rfl⟩
  have hlen := congrArg List.length h
  simp [reject, CoordinationLog.appendRejection] at hlen

/-- The drain of the commitment phase takes every message, in order, or records a rejection. -/
theorem drainCommitments_cases (hx : Ledger.At t round s) (batch : List CoordinationMessage) :
    (Takes s.roundMachine batch (s.drainCommitments round batch).roundMachine ∧
        (s.drainCommitments round batch).log.rejections = s.log.rejections) ∨
      (Recorded (s.drainCommitments round batch).log round ∧ ∀ m, ¬ Takes s.roundMachine batch m) := by
  induction batch generalizing s with
  | nil => exact Or.inl ⟨.nil _, rfl⟩
  | cons msg batch ih =>
    change (Takes _ _ ((handleCommitment round s msg).drainCommitments round batch).roundMachine ∧
      ((handleCommitment round s msg).drainCommitments round batch).log.rejections = _) ∨
      (Recorded ((handleCommitment round s msg).drainCommitments round batch).log round ∧ _)
    rcases handleCommitment_cases round s msg with ⟨c, hpay, horigin, hc, ⟨-, he⟩ | ⟨hkey, -⟩⟩ | hr
    · have hmsg : msg = { origin := c.nodeId, payload := .commitment c } := by
        cases msg
        simp only at hpay horigin
        rw [hpay, horigin]
      have hy := hx.handleCommitment msg
      rw [he] at hy ⊢
      rcases ih hy with ⟨htake, hrej⟩ | ⟨hrec, hno⟩
      · exact Or.inl ⟨.cons hmsg hc htake, hrej.trans (rejections_takeCommitment s c)⟩
      · refine Or.inr ⟨hrec, ?_⟩
        rintro m (_ | ⟨hmsg', -, htake⟩)
        rw [hmsg, CoordinationMessage.mk.injEq, MessagePayload.commitment.injEq] at hmsg'
        obtain ⟨-, rfl⟩ := hmsg'
        exact hno m htake
    · exact absurd hkey (hx.1.key_notMem hc)
    · refine Or.inr ⟨(Recorded.of_rejects hr).foldl (rejections_handleCommitment round) batch, ?_⟩
      rintro m (_ | ⟨rfl, hc, -⟩)
      rw [handleCommitment_taken _ hx.1 hc] at hr
      exact not_rejects_of_rejections (rejections_takeCommitment s _) hr

theorem handleProposal_taken (round : RoundId) {p : ProposalRecord} (hp : RoundMachine.Proposable s.roundMachine p) :
    handleProposal round s { origin := p.proposer, payload := .proposal p } = s.takeProposal p := by
  simp only [handleProposal, ne_eq, not_true_eq_false, if_false, RoundMachine.acceptProposal_of_proposable hp, takeProposal]

/-- The drain of the proposal phase of a round without a proposal: it is given nothing, or one proposal that it takes, or it
records a rejection. -/
theorem drainProposal_cases (round : RoundId) (s : RuntimeState) (batch : List CoordinationMessage) :
    (batch = [] ∧ s.drainProposal round batch = s) ∨
      (∃ p, batch = [{ origin := p.proposer, payload := .proposal p }] ∧ RoundMachine.Proposable s.roundMachine p ∧
        s.drainProposal round batch = s.takeProposal p) ∨
      (Recorded (s.drainProposal round batch).log round ∧ batch ≠ [] ∧
        ∀ p, batch = [{ origin := p.proposer, payload := .proposal p }] → ¬ RoundMachine.Proposable s.roundMachine p) := by
  cases batch with
  | nil => exact Or.inl ⟨rfl, rfl⟩
  | cons msg rest =>
    refine Or.inr ?_
    rcases handleProposal_cases round s msg with ⟨p, hpay, horigin, hprop, he⟩ | hr
    · have hmsg : msg = { origin := p.proposer, payload := .proposal p } := by
        cases msg
        simp only at hpay horigin
        rw [hpay, horigin]
      cases rest with
      | nil => exact Or.inl ⟨p, by rw [hmsg], hprop, he⟩
      | cons msg' rest =>
        -- a machine that has a proposal takes no other
        have hsecond : Rejects round (s.takeProposal p) (handleProposal round (s.takeProposal p) msg') := by
          rcases handleProposal_cases round (s.takeProposal p) msg' with ⟨q, -, -, hq, -⟩ | hr
          · exact absurd hq.unproposed (Option.some_ne_none p)
          · exact hr
        refine Or.inr ⟨?_, List.cons_ne_nil _ _, ?_⟩
        · rw [drainProposal, List.foldl_cons, List.foldl_cons, he]
          exact (Recorded.of_rejects hsecond).foldl (rejections_handleProposal round) rest
        · intro q hq
          simp at hq
    · refine Or.inr ⟨(Recorded.of_rejects hr).foldl (rejections_handleProposal round) rest, List.cons_ne_nil _ _, ?_⟩
      intro p hbatch hprop
      obtain ⟨rfl, -⟩ := List.cons.inj hbatch
      rw [handleProposal_taken round hprop] at hr
      exact not_rejects_of_rejections (by rfl) hr

theorem hasProof_appendProof {log : CoordinationLog} {a : ProofArtifactRecord} {n : NodeId} :
    (log.appendProof a).hasProof n round = true ↔ log.hasProof n round = true ∨ a.round = round ∧ a.nodeId = n := by
  simp only [CoordinationLog.hasProof_iff, CoordinationLog.appendProof, List.mem_append, List.mem_singleton, or_and_right,
    exists_or, exists_eq_left]

/-- The drain of the proof phase takes every message, and has a proof of each origin then, or records a rejection. -/
theorem drainProofs_cases (round : RoundId) (s : RuntimeState) (batch : List CoordinationMessage) :
    ((∀ msg ∈ batch, ProofInOrder s.roundMachine round msg) ∧
        (s.drainProofs round batch).log.rejections = s.log.rejections ∧
        ∀ n, (s.drainProofs round batch).log.hasProof n round = true ↔
          s.log.hasProof n round = true ∨ ∃ msg ∈ batch, msg.origin = n) ∨
      (Recorded (s.drainProofs round batch).log round ∧ ¬ ∀ msg ∈ batch, ProofInOrder s.roundMachine round msg) := by
  induction batch generalizing s with
  | nil =>
    refine Or.inl ⟨fun _ h => absurd h List.not_mem_nil, rfl, ?_⟩
    intro n
    simp [drainProofs]
  | cons msg batch ih =>
    rcases handleProof_cases round s msg with ⟨a, c, hpay, horigin, hround, hc, hx, he⟩ | hr
    · have hmsg : ProofInOrder s.roundMachine round msg := by
        refine ⟨a, c, ?_, hround, hc, hx⟩
        cases msg
        simp only at hpay horigin
        rw [hpay, horigin]
      rcases ih (handleProof round s msg) with ⟨hall, hrej, hproofs⟩ | ⟨hrec, hno⟩
      · rw [he] at hall hrej hproofs
        refine Or.inl ⟨?_, ?_, ?_⟩
        · intro msg' hmem
          rcases List.mem_cons.mp hmem with rfl | hmem
          · exact hmsg
          · exact hall msg' hmem
        · rw [drainProofs, List.foldl_cons, he]
          exact hrej
        · intro n
          rw [drainProofs, List.foldl_cons, he]
          refine (hproofs n).trans ?_
          rw [hasProof_appendProof, List.exists_mem_cons_iff, horigin, or_assoc]
          simp only [hround, true_and]
      · rw [he] at hrec hno
        refine Or.inr ⟨?_, fun hall => hno fun msg' hmem => hall msg' (List.mem_cons_of_mem _ hmem)⟩
        rw [drainProofs, List.foldl_cons, he]
        exact hrec
    · refine Or.inr ⟨(Recorded.of_rejects hr).foldl (rejections_handleProof round) batch, ?_⟩
      intro hall
      obtain ⟨a, c, rfl, hround, hc, hx⟩ := hall msg List.mem_cons_self
      have hstep : handleProof round s { origin := a.nodeId, payload := .proof a } =
          { s with log := s.log.appendProof a } := by
        simp only [handleProof, ne_eq, not_true_eq_false, if_false, hround, hc, hx]
      rw [hstep] at hr
      exact not_rejects_of_rejections (by rfl) hr

/-! ## Rounds that fall back -/

theorem Recorded.since {r₀ r k : RoundId} (h : Recorded s.log k) (hs : Since r₀ s r s') : Recorded s'.log k := by
  obtain ⟨rj, hrj, hr⟩ := h
  exact ⟨rj, hs.kept rj hrj, hr⟩

theorem not_recorded (h : BeforeRound t s) : ¬ Recorded s.log s.roundMachine.current := by
  rintro ⟨rj, hrj, hr⟩
  exact UInt64.ne_of_lt (h.span rj hrj) hr

/-- The proposal broadcast of a runtime whose requester has committed gives the round up exactly when the proposer is local and
finds no candidate. -/
theorem broadcastProposal_outcome {n : NodeConfig} {req : CommitmentRecord} (hn : s.topology.requester = some n)
    (hreq : s.roundMachine.commitments[n.id]? = some req) {msgs : List CoordinationMessage} {ok : Bool}
    (hb : s.broadcastProposal round = (msgs, .ok (ok, s'))) : ok = true ↔
      ∀ q, s.roundMachine.currentProposer = .ok q → q ∈ s.agents →
        ∃ cand, deriveCandidate round req (s.roundMachine.providersSnapshot n.id) = .ok (some cand) := by
  unfold broadcastProposal at hb
  split at hb
  · simp at hb
  · rename_i q hq
    split at hb
    · rename_i hlocal
      simp only [Prod.mk.injEq, Except.ok.injEq] at hb
      refine iff_of_true hb.2.1.symm ?_
      intro q' hq' hmem
      obtain rfl := Except.ok.inj (hq.symm.trans hq')
      exact absurd (Std.TreeMap.contains_iff_mem.mpr hmem) hlocal
    · rename_i hlocal
      have hmem : q ∈ s.agents := Std.TreeMap.contains_iff_mem.mp (not_not.mp hlocal)
      simp only [hn, hreq] at hb
      split at hb
      · rename_i cand hcand
        simp only [Prod.mk.injEq, Except.ok.injEq] at hb
        exact iff_of_true hb.2.1.symm fun _ _ _ => ⟨cand, hcand⟩
      · rename_i hcand
        simp only [Prod.mk.injEq, Except.ok.injEq] at hb
        refine iff_of_false (by rw [← hb.2.1]; exact Bool.false_ne_true) ?_
        intro h
        obtain ⟨cand, hc⟩ := h q hq hmem
        rw [hcand] at hc
        simp at hc
      · rename_i hcand
        simp only [Prod.mk.injEq, Except.ok.injEq] at hb
        refine iff_of_false (by rw [← hb.2.1]; exact Bool.false_ne_true) ?_
        intro h
        obtain ⟨cand, hc⟩ := h q hq hmem
        rw [hcand] at hc
        simp at hc

/-- What the commitment phase of a round leaves: the commitments in order and no rejection, or a rejection of the round. -/
theorem BeforeRound.commitmentsDone {d : Deliveries} (h : BeforeRound t s)
    (hd : CommitmentsDone Γ d.delivery s.roundMachine.current s s') :
    ((∀ n ∈ s.agents, s.scenario.hasDropped n s.roundMachine.current = false) ∧
        Takes s.roundMachine (d.schedule s.roundMachine.current .commitments) s'.roundMachine ∧
        s'.log.rejections = s.log.rejections) ∨
      Recorded s'.log s.roundMachine.current ∧ ∀ m, ¬ Orderly d s m := by
  obtain ⟨hb, hbatch⟩ := hd
  rename_i msgs batch s₁
  obtain rfl : batch = d.schedule s.roundMachine.current .commitments := hbatch
  obtain ⟨hat, hm⟩ := h.ledger.broadcastCommitments hb
  have hlog : s₁.log = s.log.extend {
      rejections := (s.agents.keys.filter fun n => s.scenario.hasDropped n s.roundMachine.current).map
        (droppedRecord s.roundMachine.current) } := broadcastCommitmentsOf_log rfl hb
  by_cases hpresent : ∀ n ∈ s.agents, s.scenario.hasDropped n s.roundMachine.current = false
  · have hsame : s₁.log.rejections = s.log.rejections := by
      have hnone : (s.agents.keys.filter fun n => s.scenario.hasDropped n s.roundMachine.current) = [] := by
        rw [List.filter_eq_nil_iff]
        intro n hn
        rw [hpresent n (Std.TreeMap.mem_keys.mp hn)]
        exact Bool.false_ne_true
      rw [hlog, hnone]
      exact List.append_nil _
    rcases drainCommitments_cases hat (d.schedule s.roundMachine.current .commitments) with ⟨htake, hrej⟩ | ⟨hrec, hno⟩
    · rw [hm] at htake
      exact Or.inl ⟨hpresent, htake, hrej.trans hsame⟩
    · refine Or.inr ⟨hrec, ?_⟩
      intro m horderly
      rw [hm] at hno
      exact hno m horderly.taken
  · refine Or.inr ⟨?_, fun m horderly => hpresent horderly.present⟩
    obtain ⟨n, hn, hd⟩ : ∃ n ∈ s.agents, s.scenario.hasDropped n s.roundMachine.current = true := by
      by_contra hno
      refine hpresent ?_
      intro n hn
      rw [← Bool.not_eq_true]
      exact fun hd => hno ⟨n, hn, hd⟩
    have hrec : Recorded s₁.log s.roundMachine.current := by
      refine ⟨droppedRecord s.roundMachine.current n, ?_, rfl⟩
      rw [hlog]
      exact List.mem_append_right _ (List.mem_map.mpr ⟨n, List.mem_filter.mpr ⟨Std.TreeMap.mem_keys.mpr hn, hd⟩, rfl⟩)
    exact hrec.foldl (rejections_handleCommitment _) _

theorem SilentRound.orderly {d : Deliveries} (h : SilentRound d s) : ∃ m, Orderly d s m := by
  rcases h with ⟨ho, -⟩ | ⟨ho, -⟩
  · exact ⟨_, ho⟩
  · exact ⟨_, ho⟩

/-- Once its commitments are in order, what makes the commitment phase orderly is that the round is not given up. -/
theorem orderly_iff {d : Deliveries} {s₁ : RuntimeState} (hl : Ledger.At t s.roundMachine.current s₁)
    (hf : SameFrame s s₁) (hpresent : ∀ n ∈ s.agents, s.scenario.hasDropped n s.roundMachine.current = false)
    (htaken : Takes s.roundMachine (d.schedule s.roundMachine.current .commitments) s₁.roundMachine) (hreq : RequesterIn s₁)
    {msgs : List CoordinationMessage} {ok : Bool}
    (hb : s₁.broadcastProposal s.roundMachine.current = (msgs, .ok (ok, s'))) :
    Orderly d s s₁.roundMachine ↔ ok = true := by
  obtain ⟨n, hn, hmem⟩ := hreq
  obtain ⟨req, hreq⟩ := Option.isSome_iff_exists.mp (Std.TreeMap.mem_iff_isSome_getElem?.mp hmem)
  have hproposer : ∀ q, s₁.roundMachine.currentProposer = .ok q ↔
      deterministicProposer s.topology s.roundMachine.current = .ok q := by
    intro q
    rw [RoundMachine.currentProposer_eq_ok, hl.1.machine.topology, hl.2, ← hl.1.topology, hf.topology]
  rw [broadcastProposal_outcome hn hreq hb]
  simp only [hproposer, hf.agents]
  rw [hf.topology] at hn
  constructor
  · intro ho
    obtain ⟨n', req', hn', hreq', hcand⟩ := ho.candidate
    obtain rfl : n = n' := Option.some.inj (hn.symm.trans hn')
    obtain rfl : req = req' := Option.some.inj (hreq.symm.trans hreq')
    exact hcand
  · intro hcand
    exact ⟨hpresent, htaken, n, req, hn, hreq, hcand⟩

/-- What the proposal phase of a round adds: after a phase in order it is given nothing, or one proposal that it takes; else the
round has a rejection, and was not silent. -/
theorem BeforeRound.proposalDone {d : Deliveries} {s₁ : RuntimeState} (h : BeforeRound t s)
    (h₁ : CommitmentsDone Γ d.delivery s.roundMachine.current s s₁) (hreq : RequesterIn s₁)
    (h₂ : ProposalDone d.delivery s.roundMachine.current s₁ s') :
    (Recorded s'.log s.roundMachine.current ∧ ¬ SilentRound d s) ∨
      (Orderly d s s₁.roundMachine ∧ s₁.log.rejections = s.log.rejections ∧
        (d.schedule s.roundMachine.current .proposal = [] ∧ s' = s₁ ∨
          ∃ p, d.schedule s.roundMachine.current .proposal = [{ origin := p.proposer, payload := .proposal p }] ∧
            RoundMachine.Proposable s₁.roundMachine p ∧ s' = s₁.takeProposal p)) := by
  have hcur : Since s.roundMachine.current s₁ s.roundMachine.current s₁ := by
    have hsince := Since.refl s₁
    rwa [h₁.frame.current] at hsince
  have hlater := (Since.keeps Γ).proposalDone hcur h₂
  rcases h.commitmentsDone h₁ with ⟨hpresent, htaken, hrej⟩ | ⟨hrec, hdisorder⟩
  · obtain ⟨hb, hbatch⟩ := h₂
    rename_i msgs batch x
    obtain rfl : batch = d.schedule s.roundMachine.current .proposal := hbatch
    have ho : Orderly d s s₁.roundMachine :=
      (orderly_iff (.commitmentsDone ⟨h.ledger, rfl⟩ h₁) h₁.frame hpresent htaken hreq hb).mpr rfl
    obtain rfl : x = s₁ := by
      rcases broadcastProposal_cases hb with ⟨-, he⟩ | ⟨hf, -⟩
      · exact he
      · simp at hf
    rcases drainProposal_cases s.roundMachine.current x (d.schedule s.roundMachine.current .proposal) with
      ⟨hempty, he⟩ | ⟨p, hbatch, hprop, he⟩ | ⟨hrec, hne, hnot⟩
    · exact Or.inr ⟨ho, hrej, Or.inl ⟨hempty, he⟩⟩
    · exact Or.inr ⟨ho, hrej, Or.inr ⟨p, hbatch, hprop, he⟩⟩
    · refine Or.inl ⟨hrec, ?_⟩
      rintro (⟨-, hempty⟩ | ⟨ho', hbatch, hprop, -⟩)
      · exact hne hempty
      · obtain rfl := htaken.unique ho'.taken
        exact hnot _ hbatch hprop
  · refine Or.inl ⟨hrec.since hlater, ?_⟩
    intro hsilent
    obtain ⟨m, ho⟩ := hsilent.orderly
    exact hdisorder m ho

/-- Where a proof of a match is missing, one of the two participants sent none. -/
theorem exists_unproven {p : ProposalRecord}
    (hproofs : ∀ n, s'.log.hasProof n round = true ↔ s.log.hasProof n round = true ∨ ∃ msg ∈ batch, msg.origin = n)
    (hmissing : ¬ BothProofs round p s') :
    ∃ n, (n = p.candidateRequester ∨ n = p.candidateProvider) ∧ ∀ msg ∈ batch, msg.origin ≠ n := by
  rw [BothProofs, hproofs, hproofs, not_and_or] at hmissing
  rcases hmissing with hm | hm
  · exact ⟨_, Or.inl rfl, fun msg hmsg he => hm (Or.inr ⟨msg, hmsg, he⟩)⟩
  · exact ⟨_, Or.inr rfl, fun msg hmsg he => hm (Or.inr ⟨msg, hmsg, he⟩)⟩

/-- After a proposal in order, a round with a proof missing is recorded exactly when it is not silent. -/
theorem Orderly.missingProof_iff {d : Deliveries} {s₁ : RuntimeState} {p : ProposalRecord} (ho : Orderly d s s₁.roundMachine)
    (hno : ¬ Recorded s.log s.roundMachine.current) (hrej : (s₁.takeProposal p).log.rejections = s.log.rejections)
    (hbatch : d.schedule s.roundMachine.current .proposal = [{ origin := p.proposer, payload := .proposal p }])
    (hprop : RoundMachine.Proposable s₁.roundMachine p)
    (hmissing : ¬ BothProofs s.roundMachine.current p ((s₁.takeProposal p).drainProofs s.roundMachine.current
      (d.schedule s.roundMachine.current .proofs))) :
    Recorded ((s₁.takeProposal p).drainProofs s.roundMachine.current (d.schedule s.roundMachine.current .proofs)).log
      s.roundMachine.current ↔ ¬ SilentRound d s := by
  rcases drainProofs_cases s.roundMachine.current (s₁.takeProposal p) (d.schedule s.roundMachine.current .proofs) with
    ⟨hall, hrej', hproofs⟩ | ⟨hrec, hnot⟩
  · obtain ⟨n, hn, hnone⟩ := exists_unproven hproofs hmissing
    refine iff_of_false ?_ (not_not.mpr (.prover ho hbatch hprop hall hn hnone))
    rw [Recorded, hrej']
    exact hrej ▸ hno
  · refine iff_of_true hrec ?_
    rintro (⟨-, hempty⟩ | ⟨ho', -, -, hall, -⟩)
    · rw [hbatch] at hempty
      exact absurd hempty (List.cons_ne_nil _ _)
    · obtain rfl := ho.taken.unique ho'.taken
      exact hnot hall

/-- A round that falls back has no rejection exactly when it is in order but for a silence. -/
theorem BeforeRound.recorded_iff {d : Deliveries} (h : BeforeRound t s) (hnone : s.roundMachine.proposal = none)
    (he : RoundEnds Γ d.delivery s.roundMachine.current s .fallback s') :
    Recorded s'.log s.roundMachine.current ↔ ¬ SilentRound d s := by
  have hno := not_recorded h
  cases he with
  | @requesterMissing s₁ n h₁ hn hmiss =>
    refine iff_of_true ⟨_, List.mem_append_right _ (List.mem_singleton.mpr rfl), rfl⟩ ?_
    intro hsilent
    obtain ⟨m, ho⟩ := hsilent.orderly
    rcases h.commitmentsDone h₁ with ⟨-, htaken, -⟩ | ⟨-, hdisorder⟩
    · obtain rfl := htaken.unique ho.taken
      obtain ⟨n', req, hn', hreq, -⟩ := ho.candidate
      rw [h₁.frame.topology] at hn
      obtain rfl : n = n' := Option.some.inj (hn.symm.trans hn')
      exact hmiss (Std.TreeMap.mem_iff_isSome_getElem?.mpr (by rw [hreq]; rfl))
    · exact hdisorder m ho
  | @noCandidate s₁ s₂ msgs h₁ hreq hb =>
    rcases broadcastProposal_cases hb with ⟨hf, -⟩ | ⟨-, -, hr⟩
    · simp at hf
    · refine iff_of_true (Recorded.of_rejects hr) ?_
      intro hsilent
      obtain ⟨m, ho⟩ := hsilent.orderly
      rcases h.commitmentsDone h₁ with ⟨hpresent, htaken, -⟩ | ⟨-, hdisorder⟩
      · obtain rfl := htaken.unique ho.taken
        have hat := Ledger.At.commitmentsDone ⟨h.ledger, rfl⟩ h₁
        exact Bool.false_ne_true ((orderly_iff hat h₁.frame hpresent htaken hreq hb).mp ho)
      · exact hdisorder m ho
  | @noProposal s₁ s₂ h₁ hreq h₂ hp =>
    have hat := Ledger.At.commitmentsDone ⟨h.ledger, rfl⟩ h₁
    rcases h.proposalDone h₁ hreq h₂ with ⟨hrec, hloud⟩ | ⟨ho, hrej, ⟨hempty, rfl⟩ | ⟨p, -, hprop, rfl⟩⟩
    · exact iff_of_true hrec hloud
    · refine iff_of_false ?_ (not_not.mpr (.proposer ho hempty))
      rw [Recorded, hrej]
      exact hno
    · rw [← hprop.round.trans hat.2, proposalOf_takeProposal] at hp
      simp at hp
  | @missingProof s₁ s₂ s₃ p h₁ hreq h₂ hp h₃ hmissing =>
    have hat := Ledger.At.commitmentsDone ⟨h.ledger, rfl⟩ h₁
    have hcur : Since s.roundMachine.current s₂ s.roundMachine.current s₂ := by
      have hsince := Since.refl s₂
      rwa [h₂.frame.current, h₁.frame.current] at hsince
    have hlater := (Since.keeps Γ).proofsDone hcur h₃
    rcases h.proposalDone h₁ hreq h₂ with ⟨hrec, hloud⟩ | ⟨ho, hrej, ⟨-, rfl⟩ | ⟨q, hbatch, hprop, rfl⟩⟩
    · exact iff_of_true (hrec.since hlater) hloud
    · -- no proposal came, and the log had none of the round
      rw [hat.proposalOf_eq_none (h₁.proposal.trans hnone)] at hp
      simp at hp
    · rw [← hprop.round.trans hat.2, proposalOf_takeProposal, Option.some.injEq] at hp
      subst hp
      obtain ⟨-, hbatch₃⟩ := h₃
      rename_i msgs₃ batch₃
      obtain rfl : batch₃ = d.schedule s.roundMachine.current .proofs := hbatch₃
      exact ho.missingProof_iff hno hrej hbatch hprop hmissing

/-! ## Runs -/

/-- A run enters no round before the one it starts in. -/
theorem Enters.current_le {R : Delivery} {s₀ : RuntimeState} (he : Enters Γ R s₀ s) :
    s₀.roundMachine.current.toNat ≤ s.roundMachine.current.toNat := by
  induction he with
  | start => exact Nat.le_refl _
  | next _ hends ha ih =>
    obtain ⟨rfl, hnext⟩ := RoundMachine.advanceFallback_ok ha
    refine Nat.le_trans ih ?_
    change _ ≤ (_ + 1 : UInt64).toNat
    rw [hnext, hends.frame.current]
    exact Nat.le_succ _

/-- Over given deliveries a run enters each round in one state. -/
theorem Enters.unique {d : Deliveries} {s₀ : RuntimeState} (he : Enters Γ d.delivery s₀ s)
    (he' : Enters Γ d.delivery s₀ s') (hcur : s.roundMachine.current = s'.roundMachine.current) : s = s' := by
  induction he generalizing s' with
  | start =>
    cases he' with
    | start => rfl
    | next hprev hends ha =>
      obtain ⟨rfl, hnext⟩ := RoundMachine.advanceFallback_ok ha
      have hle := hprev.current_le
      have hn := congrArg UInt64.toNat hcur
      change _ = (_ + 1 : UInt64).toNat at hn
      rw [hnext, hends.frame.current] at hn
      omega
  | @next x x' m hprev hends ha ih =>
    obtain ⟨rfl, hnext⟩ := RoundMachine.advanceFallback_ok ha
    change x'.roundMachine.current + 1 = _ at hcur
    cases he' with
    | start =>
      have hle := hprev.current_le
      have hn := congrArg UInt64.toNat hcur
      rw [hnext, hends.frame.current] at hn
      omega
    | @next y y' m' hprev' hends' ha' =>
      obtain ⟨rfl, hnext'⟩ := RoundMachine.advanceFallback_ok ha'
      change _ = y'.roundMachine.current + 1 at hcur
      have hxy : x.roundMachine.current = y.roundMachine.current := by
        have hn := congrArg UInt64.toNat hcur
        rw [hnext, hnext', hends.frame.current, hends'.frame.current] at hn
        exact UInt64.toNat_inj.mp (Nat.succ.inj hn)
      -- the round is a function of the state it starts in
      obtain rfl := ih hprev' hxy
      have hrun := Runtime.runOneRound_of_ends hends
      rw [Runtime.runOneRound_of_ends hends'] at hrun
      obtain rfl : y' = x' := by simpa using hrun
      rfl

/-- What a run satisfies before each round: the rounds before it fell back, each with a rejection unless it was silent. -/
structure Visible (Γ : Crypto) (t : TopologyConfig) (d : Deliveries) (s₀ s : RuntimeState) : Prop where
  before : BeforeRound t s
  entered : Enters Γ d.delivery s₀ s
  unproposed : s.roundMachine.proposal = none
  proofs : ∀ a ∈ s.log.proofs, a.round < s.roundMachine.current
  rounds : ∀ r < s.roundMachine.current, ∃ x, Enters Γ d.delivery s₀ x ∧ x.roundMachine.current = r ∧
    (Recorded s.log r ↔ ¬ SilentRound d x)

/-- A round does not change which earlier rounds have a rejection. -/
theorem Since.recorded_iff {r₀ r k : RoundId} {s₀ : RuntimeState} (h : Since r₀ s₀ r s) (hk : k < r₀) :
    Recorded s.log k ↔ Recorded s₀.log k := by
  refine ⟨?_, fun hrec => hrec.since h⟩
  rintro ⟨rj, hrj, rfl⟩
  rcases h.rejections rj hrj with hold | hle
  · exact ⟨rj, hold, rfl⟩
  · exact absurd hle (UInt64.not_le.mpr hk)

namespace Visible

variable {d : Deliveries} {s₀ : RuntimeState}

theorem start {agents : Agents} {scenario : Scenario} {maxRounds : UInt64} {salt : Bytes 32} {runId : String} :
    Visible Γ t d (.starting t agents scenario maxRounds salt runId) (.starting t agents scenario maxRounds salt runId) where
  before := .start
  entered := .start
  unproposed := rfl
  proofs _ ha := absurd ha List.not_mem_nil
  rounds _ hr := absurd hr UInt64.not_lt_zero

/-- The rounds before the one that ends stay as they are. -/
theorem roundEnds {o : RoundOutcome} (h : Visible Γ t d s₀ s) (he : RoundEnds Γ d.delivery s.roundMachine.current s o s')
    {r : RoundId} (hr : r < s.roundMachine.current) : ∃ x, Enters Γ d.delivery s₀ x ∧ x.roundMachine.current = r ∧
      (Recorded s'.log r ↔ ¬ SilentRound d x) := by
  obtain ⟨x, hx, hcur, hiff⟩ := h.rounds r hr
  have hsince := (Since.keeps Γ).roundEnds (Since.refl s) he
  exact ⟨x, hx, hcur, (hsince.recorded_iff hr).trans hiff⟩

/-- A round that falls back leads to the next one. -/
theorem fallback (ht : t.WellFormed Γ) {m' : RoundMachine} (h : Visible Γ t d s₀ s)
    (he : RoundEnds Γ d.delivery s.roundMachine.current s .fallback s') (ha : s'.roundMachine.advanceFallback = some (.ok (), m')) :
    Visible Γ t d s₀ { s' with roundMachine := m' } := by
  have hbefore := h.before.fallback ht he ha
  have hentered := h.entered.next he ha
  have hsince := (Since.keeps Γ).roundEnds (Since.refl s) he
  obtain ⟨rfl, hnext⟩ := RoundMachine.advanceFallback_ok ha
  rw [he.frame.current] at hnext
  have hlt : ∀ r, r < s'.roundMachine.current + 1 ↔ r ≤ s.roundMachine.current := by
    intro r
    rw [UInt64.lt_iff_toNat_lt, UInt64.le_iff_toNat_le, he.frame.current, hnext]
    exact Nat.lt_succ_iff
  refine ⟨hbefore, hentered, rfl, ?_, ?_⟩
  · intro a ha
    refine (hlt a.round).mpr ?_
    rcases hsince.proofs a ha with ha | ha
    · exact UInt64.le_of_lt (h.proofs a ha)
    · exact ha
  · intro r hr
    rcases UInt64.lt_or_eq_of_le ((hlt r).mp hr) with hr | rfl
    · exact h.roundEnds he hr
    · have hiff := h.before.recorded_iff h.unproposed he
      exact ⟨s, h.entered, rfl, hiff⟩

end Visible

end

end VertexVeil
