import VertexVeil.Lemmas.Trace
import VertexVeil.Observer

/-!
# Helpers about the observer: what is told is what is appended

`Appends` is what the steps of a round add to the log. A handler tells the record it appends, a phase those of its kind, and a
round those of its phases in their order. `runRounds_told` is the induction over the rounds.
-/

namespace VertexVeil

open Codec RuntimeState

/-! ## Records and milestones -/

/-- The calls about records, those of a kind after those of another. -/
def Entries.milestones (E : Entries) (round : RoundId) : List Milestone :=
  E.commitments.map (fun c => .commitment c.nodeId round) ++
  E.proposals.map (fun p => .proposal p.proposer round p.matchedCapability.asStr) ++
  E.proofs.map (fun a => .proofVerified a.nodeId round) ++
  E.receipts.map (fun r => .receipt r.provider round)

/-- Some steps of a round append records of the round to a log. -/
structure Appends (round : RoundId) (log log' : CoordinationLog) (E : Entries) : Prop where
  commitments : log'.commitments = log.commitments ++ E.commitments
  proposals : log'.proposals = log.proposals ++ E.proposals
  proofs : log'.proofs = log.proofs ++ E.proofs
  receipts : log'.receipts = log.receipts ++ E.receipts
  roundCommitments : ∀ c ∈ E.commitments, c.round = round
  roundProposals : ∀ p ∈ E.proposals, p.round = round
  roundProofs : ∀ a ∈ E.proofs, a.round = round
  roundReceipts : ∀ r ∈ E.receipts, r.round = round

namespace Appends

variable {round : RoundId} {log log' log'' : CoordinationLog} {E F : Entries}

theorem nothing (log : CoordinationLog) : Appends round log log {} where
  commitments := (List.append_nil _).symm
  proposals := (List.append_nil _).symm
  proofs := (List.append_nil _).symm
  receipts := (List.append_nil _).symm
  roundCommitments _ h := absurd h List.not_mem_nil
  roundProposals _ h := absurd h List.not_mem_nil
  roundProofs _ h := absurd h List.not_mem_nil
  roundReceipts _ h := absurd h List.not_mem_nil

theorem trans (h : Appends round log log' E) (h' : Appends round log' log'' F) : Appends round log log'' (E ++ F) where
  commitments := by rw [h'.commitments, h.commitments, List.append_assoc]; rfl
  proposals := by rw [h'.proposals, h.proposals, List.append_assoc]; rfl
  proofs := by rw [h'.proofs, h.proofs, List.append_assoc]; rfl
  receipts := by rw [h'.receipts, h.receipts, List.append_assoc]; rfl
  roundCommitments c hc := (List.mem_append.mp hc).elim (h.roundCommitments c) (h'.roundCommitments c)
  roundProposals p hp := (List.mem_append.mp hp).elim (h.roundProposals p) (h'.roundProposals p)
  roundProofs a ha := (List.mem_append.mp ha).elim (h.roundProofs a) (h'.roundProofs a)
  roundReceipts r hr := (List.mem_append.mp hr).elim (h.roundReceipts r) (h'.roundReceipts r)

theorem reject (s : RuntimeState) (round : RoundId) (node : NodeId) (kind reasonCode : String) :
    Appends round s.log (s.reject round node kind reasonCode).log {} := { nothing s.log with }

theorem of_rejects {s s' : RuntimeState} (h : Rejects round s s') : Appends round s.log s'.log {} := by
  obtain ⟨_, _, _, -, rfl⟩ := h
  exact reject ..

end Appends

/-! ## Telling -/

namespace Told

variable {α β : Type}

/-- A step after another has a result when both have, and both are told. -/
theorem bind_eq_ok {x : Told α} {f : α → Told β} {b : β} (h : (x >>= f).result = .ok b) :
    ∃ a, x.result = .ok a ∧ (f a).result = .ok b ∧
      ∀ ms, (f a).milestones = ms → (x >>= f).milestones = x.milestones ++ ms := by
  rw [result_bind] at h
  obtain ⟨a, ha, hb⟩ := Except.bind_eq_ok h
  exact ⟨a, ha, hb, fun ms hms => hms ▸ milestones_bind ha f⟩

end Told

namespace Observed

/-! ## The observer changes nothing -/

theorem drain_result (told : RuntimeState → CoordinationMessage → List Milestone)
    (handle : RuntimeState → CoordinationMessage → RuntimeState) (batch : List CoordinationMessage) (s : RuntimeState) :
    (drain told handle batch s).result = .ok (batch.foldl handle s) := by
  induction batch generalizing s with
  | nil => rfl
  | cons msg batch ih =>
    rw [drain, Told.result_bind]
    exact ih _

theorem drain_then_result {α : Type} (told : RuntimeState → CoordinationMessage → List Milestone)
    (handle : RuntimeState → CoordinationMessage → RuntimeState) (batch : List CoordinationMessage) (s : RuntimeState)
    (f : RuntimeState → Told α) : (drain told handle batch s >>= f).result = (f (batch.foldl handle s)).result := by
  rw [Told.result_bind, drain_result]
  rfl

section

variable {τ : Type} [CoordinationTransport τ] {Γ : Crypto} {round : RoundId}

theorem receiptPhase_result (p : ProposalRecord) (rt : Runtime τ) :
    (receiptPhase Γ round p rt).result = Runtime.receiptPhase Γ round p rt := by
  simp only [receiptPhase, Runtime.receiptPhase, Told.result_bind, Told.result_silent, drain_result]
  rfl

theorem proofPhase_result (p : ProposalRecord) (rt : Runtime τ) :
    (proofPhase Γ round p rt).result = Runtime.proofPhase Γ round p rt := by
  simp only [proofPhase, Runtime.proofPhase]
  rw [Told.result_bind, Told.result_silent]
  refine congrArg _ (funext fun x => ?_)
  obtain ⟨-, t⟩ := x
  simp only [drain_then_result, RuntimeState.drainProofs, apply_ite Told.result, receiptPhase_result]
  rfl

theorem proposalPhase_result (rt : Runtime τ) : (proposalPhase Γ round rt).result = Runtime.proposalPhase Γ round rt := by
  simp only [proposalPhase, Runtime.proposalPhase]
  rw [Told.result_bind, Told.result_silent]
  refine congrArg _ (funext fun x => ?_)
  obtain ⟨⟨proposed, s⟩, t⟩ := x
  cases proposed with
  | false => rfl
  | true =>
    simp only [not_true_eq_false, if_false, drain_then_result, RuntimeState.drainProposal]
    cases ((Runtime.receive round .proposal t).1.foldl (handleProposal round) s).log.proposalOf round with
    | none => rfl
    | some p => exact proofPhase_result _ _

theorem runOneRound_result (rt : Runtime τ) : (runOneRound Γ round rt).result = Runtime.runOneRound Γ round rt := by
  simp only [runOneRound, Runtime.runOneRound]
  rw [Told.result_bind, Told.result_silent]
  refine congrArg _ (funext fun x => ?_)
  obtain ⟨s, t⟩ := x
  simp only [drain_then_result, RuntimeState.drainCommitments]
  cases ((Runtime.receive round .commitments t).1.foldl (handleCommitment round) s).topology.requester with
  | none => rfl
  | some requester =>
    simp only [apply_ite Told.result, proposalPhase_result]
    rfl

theorem runRounds_result (n : Nat) (fr : RoundId) (rt : Runtime τ) :
    (runRounds Γ n fr rt).result = Runtime.runRounds Γ n fr rt := by
  induction n generalizing fr rt with
  | zero => rfl
  | succ n ih =>
    simp only [runRounds, Runtime.runRounds, Told.result_bind, runOneRound_result]
    refine congrArg _ (funext fun x => ?_)
    obtain ⟨o, rt₁⟩ := x
    cases o with
    | finalized => rfl
    | fallback =>
      change (_ >>= _ : Told _).result = _
      simp only [Told.result_bind, Told.result_silent]
      exact congrArg _ (funext fun rt₂ => ih _ _)

/-- A run that is observed has the same result. -/
theorem runWithTransport_result (runId : String) (rt : Runtime τ) :
    (runWithTransport Γ runId rt).result = Runtime.runWithTransport Γ runId rt := by
  simp only [runWithTransport, Runtime.runWithTransport, Told.result_bind, runRounds_result]
  rfl

end

/-! ## What is told in a phase -/

section

variable {round : RoundId} {s : RuntimeState}

theorem handleCommitment_told (h : s.roundMachine.current = round) (msg : CoordinationMessage) :
    ∃ cs, Appends round s.log (handleCommitment round s msg).log { commitments := cs } ∧
      toldCommitment round s msg = ({ commitments := cs } : Entries).milestones round := by
  unfold handleCommitment toldCommitment
  cases hp : msg.payload with
  | commitment c =>
    dsimp only
    split
    · exact ⟨[], .reject .., rfl⟩
    · rcases RoundMachine.acceptCommitment_cases s.roundMachine c with ⟨hok, ha⟩ | ⟨-, e, ha⟩
      · simp only [ha, CoordinationLog.appendCommitment]
        by_cases hk : (c.nodeId, c.round) ∈ s.log.commitmentKeys
        · simp only [if_pos hk]
          exact ⟨[], .reject { s with roundMachine := s.roundMachine.addCommitment c } .., rfl⟩
        · simp only [if_neg hk]
          exact ⟨[c], { Appends.nothing s.log with
            commitments := rfl, roundCommitments := by simpa using hok.round.trans h }, rfl⟩
      · simp only [ha]
        exact ⟨[], .reject { s with roundMachine := s.roundMachine } .., rfl⟩
  | _ => exact ⟨[], .reject .., rfl⟩

theorem handleProposal_told (h : s.roundMachine.current = round) (msg : CoordinationMessage) :
    ∃ ps, Appends round s.log (handleProposal round s msg).log { proposals := ps } ∧
      toldProposal round s msg = ({ proposals := ps } : Entries).milestones round := by
  unfold handleProposal toldProposal
  cases hp : msg.payload with
  | proposal p =>
    dsimp only
    split
    · exact ⟨[], .reject .., rfl⟩
    · rcases RoundMachine.acceptProposal_cases s.roundMachine p with ⟨hok, ha⟩ | ⟨-, e, ha⟩
      · simp only [ha]
        exact ⟨[p], { Appends.nothing s.log with
          proposals := rfl, roundProposals := by simpa using hok.round.trans h }, rfl⟩
      · simp only [ha]
        exact ⟨[], .reject { s with roundMachine := s.roundMachine } .., rfl⟩
  | _ => exact ⟨[], .reject .., rfl⟩

theorem handleProof_told (msg : CoordinationMessage) :
    ∃ as, Appends round s.log (handleProof round s msg).log { proofs := as } ∧
      toldProof round s msg = ({ proofs := as } : Entries).milestones round := by
  unfold handleProof toldProof
  cases hp : msg.payload with
  | proof a =>
    dsimp only
    split
    · exact ⟨[], .reject .., rfl⟩
    · split
      · exact ⟨[], .reject .., rfl⟩
      · rename_i hr
        cases s.roundMachine.commitments[a.nodeId]? with
        | none => exact ⟨[], .reject .., rfl⟩
        | some expected =>
          dsimp only
          split
          · exact ⟨[], .reject .., rfl⟩
          · exact ⟨[a], { Appends.nothing s.log with proofs := rfl, roundProofs := by simpa using hr }, rfl⟩
  | _ => exact ⟨[], .reject .., rfl⟩

theorem handleReceipt_told (msg : CoordinationMessage) :
    ∃ rs, Appends round s.log (handleReceipt round s msg).log { receipts := rs } ∧
      toldReceipt round s msg = ({ receipts := rs } : Entries).milestones round := by
  unfold handleReceipt toldReceipt
  cases hp : msg.payload with
  | receipt r =>
    dsimp only
    split
    · exact ⟨[], .reject .., rfl⟩
    · split
      · exact ⟨[], .reject .., rfl⟩
      · rename_i hr
        split
        · exact ⟨[], .reject .., rfl⟩
        · exact ⟨[r], { Appends.nothing s.log with receipts := rfl, roundReceipts := by simpa using hr }, rfl⟩
  | _ => exact ⟨[], .reject .., rfl⟩

/-- A phase tells the records it appends, when each of its messages does. -/
theorem drain_told {ρ : Type} {K : List ρ → Entries} {told : RuntimeState → CoordinationMessage → List Milestone}
    {handle : RuntimeState → CoordinationMessage → RuntimeState} (hnil : K [] = {})
    (happend : ∀ xs ys, K (xs ++ ys) = K xs ++ K ys)
    (hmilestones : ∀ xs ys, (K (xs ++ ys)).milestones round = (K xs).milestones round ++ (K ys).milestones round)
    (hframe : ∀ s msg, SameFrame s (handle s msg))
    (hstep : ∀ s msg, s.roundMachine.current = round → ∃ xs, Appends round s.log (handle s msg).log (K xs) ∧
      told s msg = (K xs).milestones round)
    (batch : List CoordinationMessage) (s : RuntimeState) (h : s.roundMachine.current = round) :
    ∃ xs, Appends round s.log (batch.foldl handle s).log (K xs) ∧
      (drain told handle batch s).milestones = (K xs).milestones round := by
  induction batch generalizing s with
  | nil => exact ⟨[], hnil ▸ .nothing _, by rw [hnil]; rfl⟩
  | cons msg batch ih =>
    obtain ⟨xs, hxs, htold⟩ := hstep s msg h
    obtain ⟨ys, hys, hrest⟩ := ih (handle s msg) ((hframe s msg).current.trans h)
    refine ⟨xs ++ ys, happend xs ys ▸ hxs.trans hys, ?_⟩
    rw [drain, Told.milestones_bind (Told.result_tell _), hrest, hmilestones, Told.milestones_tell, htold]

end

/-! ## What is told in a round -/

section

variable {τ : Type} [CoordinationTransport τ] {Γ : Crypto} {round : RoundId}

theorem receiptPhase_told {p : ProposalRecord} {rt rt' : Runtime τ} {o : RoundOutcome} (hcur : rt.state.roundMachine.current = round)
    (h : (receiptPhase Γ round p rt).result = .ok (o, rt')) : ∃ rs, Appends round rt.state.log rt'.state.log { receipts := rs } ∧
      (receiptPhase Γ round p rt).milestones = ({ receipts := rs } : Entries).milestones round := by
  obtain ⟨⟨⟨⟩, t⟩, -, h, htold⟩ := Told.bind_eq_ok h
  obtain ⟨s, hs, h, htold'⟩ := Told.bind_eq_ok h
  obtain ⟨rs, happ, hdrain⟩ := drain_told (K := fun rs => { receipts := rs }) rfl (fun _ _ => rfl)
    (fun _ _ => by simp [Entries.milestones]) (sameFrame_handleReceipt round) (fun s msg _ => handleReceipt_told msg)
    (Runtime.receive round .receipts t).1 rt.state hcur
  rw [drain_result, Except.ok.injEq] at hs
  subst hs
  cases h
  exact ⟨rs, happ, (htold _ (htold' _ rfl)).trans ((List.append_nil _).trans hdrain)⟩

theorem proofPhase_told {p : ProposalRecord} {rt rt' : Runtime τ} {o : RoundOutcome} (hcur : rt.state.roundMachine.current = round)
    (h : (proofPhase Γ round p rt).result = .ok (o, rt')) :
    ∃ as rs, Appends round rt.state.log rt'.state.log { proofs := as, receipts := rs } ∧
      (proofPhase Γ round p rt).milestones = ({ proofs := as, receipts := rs } : Entries).milestones round := by
  obtain ⟨⟨⟨⟩, t⟩, -, h, htold⟩ := Told.bind_eq_ok h
  obtain ⟨s, hs, h, htold'⟩ := Told.bind_eq_ok h
  obtain ⟨as, happ, hdrain⟩ := drain_told (K := fun as => { proofs := as }) rfl (fun _ _ => rfl)
    (fun _ _ => by simp [Entries.milestones]) (sameFrame_handleProof round) (fun s msg _ => handleProof_told msg)
    (Runtime.receive round .proofs t).1 rt.state hcur
  rw [drain_result, Except.ok.injEq] at hs
  subst hs
  split at h
  · rename_i hb
    have hcur' := (sameFrame_foldl (sameFrame_handleProof round) (Runtime.receive round .proofs t).1 rt.state).current.trans hcur
    obtain ⟨rs, happ', hrest⟩ := receiptPhase_told hcur' h
    have hsum : ({ proofs := as, receipts := rs } : Entries).milestones round =
        ({ proofs := as } : Entries).milestones round ++ ({ receipts := rs } : Entries).milestones round := by
      simp [Entries.milestones]
    have hall : Appends round rt.state.log rt'.state.log { proofs := as, receipts := rs } := by
      simpa [Entries.append_eq] using happ.trans happ'
    exact ⟨as, rs, hall, (htold _ (htold' _ ((congrArg Told.milestones (if_pos hb)).trans hrest))).trans
      ((congrArg (· ++ _) hdrain).trans hsum.symm)⟩
  · rename_i hb
    cases h
    exact ⟨as, [], happ, (htold _ (htold' _ (congrArg Told.milestones (if_neg hb)))).trans ((List.append_nil _).trans hdrain)⟩

theorem proposalPhase_told {rt rt' : Runtime τ} {o : RoundOutcome} (hcur : rt.state.roundMachine.current = round)
    (h : (proposalPhase Γ round rt).result = .ok (o, rt')) :
    ∃ ps as rs, Appends round rt.state.log rt'.state.log { proposals := ps, proofs := as, receipts := rs } ∧
      (proposalPhase Γ round rt).milestones = ({ proposals := ps, proofs := as, receipts := rs } : Entries).milestones round := by
  obtain ⟨⟨⟨proposed, s⟩, t⟩, hs, h, htold⟩ := Told.bind_eq_ok h
  obtain ⟨he, -⟩ := Runtime.emit_eq_ok hs
  have hcases := broadcastProposal_cases (Prod.ext rfl he)
  cases proposed with
  | false =>
    rcases hcases with ⟨hf, -⟩ | ⟨-, -, hr⟩
    · cases hf
    · cases h
      exact ⟨[], [], [], .of_rejects hr, htold _ rfl⟩
  | true =>
    rcases hcases with ⟨-, rfl⟩ | ⟨hf, -⟩
    · obtain ⟨s, hs, h, htold'⟩ := Told.bind_eq_ok h
      obtain ⟨ps, happ, hdrain⟩ := drain_told (K := fun ps => { proposals := ps }) rfl (fun _ _ => rfl)
        (fun _ _ => by simp [Entries.milestones]) (sameFrame_handleProposal round) (fun s msg h => handleProposal_told h msg)
        (Runtime.receive round .proposal t).1 rt.state hcur
      rw [drain_result, Except.ok.injEq] at hs
      subst hs
      split at h
      · rename_i hp
        cases h
        refine ⟨ps, [], [], happ, (htold _ (htold' [] ?_)).trans ((List.append_nil _).trans hdrain)⟩
        rw [hp]
        rfl
      · rename_i p hp
        have hcur' := (sameFrame_foldl (sameFrame_handleProposal round) (Runtime.receive round .proposal t).1
          rt.state).current.trans hcur
        obtain ⟨as, rs, happ', hrest⟩ := proofPhase_told hcur' h
        have hsum : ({ proposals := ps, proofs := as, receipts := rs } : Entries).milestones round =
            ({ proposals := ps } : Entries).milestones round ++ ({ proofs := as, receipts := rs } : Entries).milestones round := by
          simp [Entries.milestones]
        have hall : Appends round rt.state.log rt'.state.log { proposals := ps, proofs := as, receipts := rs } := by
          simpa [Entries.append_eq] using happ.trans happ'
        refine ⟨ps, as, rs, hall, (htold _ (htold' _ ?_)).trans ((congrArg (· ++ _) hdrain).trans hsum.symm)⟩
        rw [hp]
        exact hrest
    · cases hf

/-- A round tells the records it appends, in the order of its phases. -/
theorem runOneRound_told {rt rt' : Runtime τ} {o : RoundOutcome} (hcur : rt.state.roundMachine.current = round)
    (h : (runOneRound Γ round rt).result = .ok (o, rt')) :
    ∃ E, Appends round rt.state.log rt'.state.log E ∧ (runOneRound Γ round rt).milestones = E.milestones round := by
  obtain ⟨⟨s, t⟩, hs, h, htold⟩ := Told.bind_eq_ok h
  obtain ⟨s', hs', h, htold'⟩ := Told.bind_eq_ok h
  have he : rt.state.broadcastCommitments Γ round = ((rt.state.broadcastCommitments Γ round).1, .ok s) :=
    Prod.ext rfl (Runtime.emit_eq_ok hs).1
  have hbroadcast : Appends round rt.state.log s.log {} :=
    broadcastCommitmentsOf_invariant (P := fun s => Appends round rt.state.log s.log {})
      (fun _ _ hP hr => hP.trans (.of_rejects hr)) (fun _ _ _ hP _ _ => hP) (.nothing _) he
  have hcur' := (sameFrame_broadcastCommitments he).current.trans hcur
  obtain ⟨cs, happ, hdrain⟩ := drain_told (K := fun cs => { commitments := cs }) rfl (fun _ _ => rfl)
    (fun _ _ => by simp [Entries.milestones]) (sameFrame_handleCommitment round) (fun s msg h => handleCommitment_told h msg)
    (Runtime.receive round .commitments t).1 s hcur'
  rw [drain_result, Except.ok.injEq] at hs'
  subst hs'
  replace happ := hbroadcast.trans happ
  split at h
  · cases h
  · rename_i n hn
    split at h
    · rename_i hout
      cases h
      refine ⟨_, happ.trans (.reject ..), (htold _ (htold' [] ?_)).trans ?_⟩
      · rw [hn]
        exact congrArg Told.milestones (if_pos hout)
      · exact (List.append_nil _).trans (hdrain.trans (by simp [Entries.milestones]))
    · rename_i hin
      have hcur'' := (sameFrame_foldl (sameFrame_handleCommitment round) (Runtime.receive round .commitments t).1 s).current.trans hcur'
      obtain ⟨ps, as, rs, happ', hrest⟩ := proposalPhase_told hcur'' h
      refine ⟨_, happ.trans happ', (htold _ (htold' _ ?_)).trans
        ((congrArg (· ++ ({ proposals := ps, proofs := as, receipts := rs } : Entries).milestones round) hdrain).trans ?_)⟩
      · rw [hn]
        exact (congrArg Told.milestones (if_neg hin)).trans hrest
      · simp [Entries.milestones]

end

end Observed

/-! ## What is told in a run -/

/-- The records of a log are of the rounds before one. -/
structure CoordinationLog.Below (k : Nat) (log : CoordinationLog) : Prop where
  commitments : ∀ c ∈ log.commitments, c.round.toNat < k
  proposals : ∀ p ∈ log.proposals, p.round.toNat < k
  proofs : ∀ a ∈ log.proofs, a.round.toNat < k
  receipts : ∀ r ∈ log.receipts, r.round.toNat < k

/-- Of what is appended to records of another round, those of the round are what is appended. -/
theorem filter_append_of_round {ρ : Type} {round : ρ → RoundId} {r : RoundId} {xs ys : List ρ} (hxs : ∀ x ∈ xs, round x ≠ r)
    (hys : ∀ y ∈ ys, round y = r) : (xs ++ ys).filter (fun x => round x = r) = ys := by
  rw [List.filter_append, List.filter_eq_nil_iff.mpr (by simpa using hxs), List.filter_eq_self.mpr (by simpa using hys),
    List.nil_append]

/-- What is appended in a round does not count in another. -/
theorem filter_append_of_ne {ρ : Type} {round : ρ → RoundId} {r k : RoundId} {xs ys : List ρ} (hk : k ≠ r)
    (hys : ∀ y ∈ ys, round y = r) : (xs ++ ys).filter (fun x => round x = k) = xs.filter (fun x => round x = k) := by
  have hnone : ys.filter (fun x => round x = k) = [] :=
    List.filter_eq_nil_iff.mpr fun y hy => by simpa [hys y hy] using hk.symm
  rw [List.filter_append, hnone, List.append_nil]

theorem lt_of_append {ρ : Type} {round : ρ → RoundId} {r : RoundId} {xs ys : List ρ} (hxs : ∀ x ∈ xs, (round x).toNat < r.toNat)
    (hys : ∀ y ∈ ys, round y = r) : ∀ x ∈ xs ++ ys, (round x).toNat < r.toNat + 1 := by
  intro x hx
  rcases List.mem_append.mp hx with hx | hx
  · exact (hxs x hx).trans (Nat.lt_succ_self _)
  · rw [hys x hx]
    exact Nat.lt_succ_self _

namespace Appends

variable {round : RoundId} {log log' : CoordinationLog} {E : Entries}

theorem milestonesIn (h : Appends round log log' E) (hb : log.Below round.toNat) :
    log'.milestonesIn round = E.milestones round := by
  have hne : ∀ {r : RoundId}, r.toNat < round.toNat → r ≠ round := fun hlt he => absurd hlt (by rw [he]; exact lt_irrefl _)
  unfold CoordinationLog.milestonesIn CoordinationLog.commitmentsIn
  rw [h.commitments, h.proposals, h.proofs, h.receipts,
    filter_append_of_round (fun c hc => hne (hb.commitments c hc)) h.roundCommitments,
    filter_append_of_round (fun p hp => hne (hb.proposals p hp)) h.roundProposals,
    filter_append_of_round (fun a ha => hne (hb.proofs a ha)) h.roundProofs,
    filter_append_of_round (fun r hr => hne (hb.receipts r hr)) h.roundReceipts]
  rfl

theorem milestonesIn_of_ne (h : Appends round log log' E) {k : RoundId} (hk : k ≠ round) :
    log'.milestonesIn k = log.milestonesIn k := by
  unfold CoordinationLog.milestonesIn CoordinationLog.commitmentsIn
  rw [h.commitments, h.proposals, h.proofs, h.receipts, filter_append_of_ne hk h.roundCommitments,
    filter_append_of_ne hk h.roundProposals, filter_append_of_ne hk h.roundProofs, filter_append_of_ne hk h.roundReceipts]

theorem below (h : Appends round log log' E) (hb : log.Below round.toNat) : log'.Below (round.toNat + 1) where
  commitments := by rw [h.commitments]; exact lt_of_append hb.commitments h.roundCommitments
  proposals := by rw [h.proposals]; exact lt_of_append hb.proposals h.roundProposals
  proofs := by rw [h.proofs]; exact lt_of_append hb.proofs h.roundProofs
  receipts := by rw [h.receipts]; exact lt_of_append hb.receipts h.roundReceipts

end Appends

/-- The transcript of a round and of those after it. -/
theorem CoordinationLog.transcript_succ (log : CoordinationLog) (fin : Bool) (k m : Nat) : log.transcript fin k (m + 1) =
    log.milestonesIn (UInt64.ofNat k) ++ .roundCommitted (UInt64.ofNat k) (fin && decide (m = 0)) :: log.transcript fin (k + 1) m := by
  have hsum : k + (m + 1) = k + 1 + m := by omega
  have hend : decide (k + 1 = k + 1 + m) = decide (m = 0) := decide_eq_decide.mpr (by omega)
  simp only [transcript, List.range'_succ, List.flatMap_cons, hsum, hend, List.append_assoc, List.cons_append, List.nil_append]

namespace Observed

variable {τ : Type} [CoordinationTransport τ] {Γ : Crypto}

/-- A run of `n` rounds at most from round `k` on, in whose course `m` were attempted: what it was told and what it logged. -/
structure Attempts (k n m : Nat) (fr fr' : RoundId) (fin : Bool) (log log' : CoordinationLog) (told : List Milestone) : Prop where
  le : m ≤ n
  zero : m = 0 ↔ n = 0
  all : fin = false → m = n
  none : m = 0 → fr' = fr ∧ fin = false
  last : m ≠ 0 → fr'.toNat + 1 = k + m
  told : told = log'.transcript fin k m
  below : log'.Below (k + m)
  earlier : ∀ r : RoundId, r.toNat < k → log'.milestonesIn r = log.milestonesIn r

/-- The rounds of a run: what is told is the transcript of the rounds it attempts. -/
theorem runRounds_told {n : Nat} {fr fr' : RoundId} {rt rt' : Runtime τ} {fin : Bool}
    (hb : rt.state.log.Below rt.state.roundMachine.current.toNat) (h : (runRounds Γ n fr rt).result = .ok (rt', fin, fr')) :
    ∃ m, Attempts rt.state.roundMachine.current.toNat n m fr fr' fin rt.state.log rt'.state.log
      (runRounds Γ n fr rt).milestones := by
  induction n generalizing fr rt with
  | zero =>
    cases h
    exact ⟨0, le_rfl, Iff.rfl, fun _ => rfl, fun _ => ⟨rfl, rfl⟩, fun h => absurd rfl h, rfl, hb, fun _ _ => rfl⟩
  | succ n ih =>
    obtain ⟨⟨o, rt₁⟩, h₁, h, htold⟩ := Told.bind_eq_ok h
    obtain ⟨E, happ, hround⟩ := runOneRound_told rfl h₁
    obtain ⟨hends, -⟩ := Runtime.runOneRound_ends (delivers_any τ) (I := fun _ => True) trivial (runOneRound_result rt ▸ h₁)
    obtain ⟨⟨⟩, -, h, htold'⟩ := Told.bind_eq_ok h
    have hself : UInt64.ofNat rt.state.roundMachine.current.toNat = rt.state.roundMachine.current := UInt64.ofNat_toNat
    have hne : ∀ {r : RoundId}, r.toNat < rt.state.roundMachine.current.toNat → r ≠ rt.state.roundMachine.current :=
      fun hr he => absurd hr (by rw [he]; exact lt_irrefl _)
    cases o with
    | finalized =>
      cases h
      refine ⟨1, Nat.le_add_left _ _, by simp, nofun, nofun, fun _ => rfl, ?_, happ.below hb,
        fun r hr => happ.milestonesIn_of_ne (hne hr)⟩
      rw [runRounds, htold _ (htold' _ rfl), hround]
      simp [CoordinationLog.transcript, hself, happ.milestonesIn hb]
    | fallback =>
      obtain ⟨rt₂, h₂, h, htold''⟩ := Told.bind_eq_ok h
      obtain ⟨m', hm', rfl⟩ := Runtime.advanceFallback_ok h₂
      obtain ⟨rfl, hnext⟩ := RoundMachine.advanceFallback_ok hm'
      have hcur : (rt₁.state.roundMachine.current + 1).toNat = rt.state.roundMachine.current.toNat + 1 := by
        rw [hnext, hends.frame.current]
      obtain ⟨m, ha⟩ := ih (hcur ▸ happ.below hb) h
      change Attempts (rt₁.state.roundMachine.current + 1).toNat n m _ _ _ rt₁.state.log _ _ at ha
      rw [hcur] at ha
      refine ⟨m + 1, Nat.succ_le_succ ha.le, by simp, fun hf => by rw [ha.all hf], nofun, fun _ => ?_, ?_, ?_, fun r hr => ?_⟩
      · rcases Nat.eq_zero_or_pos m with rfl | hm
        · rw [(ha.none rfl).1]
        · rw [ha.last hm.ne']
          omega
      · rw [runRounds, htold _ (htold' _ (htold'' _ ha.told)), hround, ← happ.milestonesIn hb, ← ha.earlier _ (Nat.lt_succ_self _),
          CoordinationLog.transcript_succ, hself]
        by_cases hm : m = 0
        · simp [hm, ha.none hm]
        · simp [hm]
      · have := ha.below
        rwa [Nat.add_right_comm] at this
      · rw [ha.earlier r (hr.trans (Nat.lt_succ_self _)), happ.milestonesIn_of_ne (hne hr)]

/-- A run that returns has told the transcript of the rounds it attempted. -/
theorem transcript_of_run {topology : TopologyConfig} {t t' : τ} {agents : Agents} {scenario : Scenario} {maxRounds : UInt64}
    {rt : Runtime τ} (hnew : Runtime.new topology t agents scenario maxRounds = .ok rt) {salt : Bytes 32} {runId : String}
    {out : RuntimeOutcome} (hrun : (runWithTransport Γ runId (rt.withRunSalt salt)).result = .ok (out, t')) :
    ∃ rounds, rounds ≤ maxRounds.toNat ∧ (rounds = 0 ↔ maxRounds = 0) ∧ (out.finalized = false → rounds = maxRounds.toNat) ∧
      out.finalRound.toNat = rounds - 1 ∧ out.log.Below rounds ∧
      (runWithTransport Γ runId (rt.withRunSalt salt)).milestones =
        out.log.transcript out.finalized 0 rounds ++ if out.finalized then [] else [.abort "max_rounds_exceeded" out.finalRound] := by
  obtain ⟨⟨rt', fin, fr⟩, hrounds, hrest, htold⟩ := Told.bind_eq_ok hrun
  obtain ⟨⟨⟩, -, hout, htold'⟩ := Told.bind_eq_ok hrest
  obtain rfl := Runtime.new_eq_ok hnew
  have hempty : (CoordinationLog.new runId).Below 0 :=
    ⟨fun _ h => absurd h List.not_mem_nil, fun _ h => absurd h List.not_mem_nil, fun _ h => absurd h List.not_mem_nil,
      fun _ h => absurd h List.not_mem_nil⟩
  let start : Runtime τ :=
    (({ state := .initial topology agents scenario maxRounds, transport := t } : Runtime τ).withRunSalt salt).withLog runId
  have hstart : start.state.log.Below start.state.roundMachine.current.toNat := hempty
  obtain ⟨m, ha⟩ := runRounds_told hstart hrounds
  change Attempts 0 maxRounds.toNat m 0 fr fin (CoordinationLog.new runId) rt'.state.log _ at ha
  obtain ⟨rfl, -⟩ := Prod.mk.inj (Except.ok.inj hout)
  obtain ⟨reason, hlog⟩ := closeLog_eq rt'.state.log fin fr
  dsimp only
  rw [hlog]
  have hbelow : rt'.state.log.Below m := by simpa using ha.below
  refine ⟨m, ha.le, ha.zero.trans (by rw [← UInt64.toNat_inj]; rfl), ha.all, ?_,
    ⟨hbelow.commitments, hbelow.proposals, hbelow.proofs, hbelow.receipts⟩, ?_⟩
  · rcases Nat.eq_zero_or_pos m with rfl | hm
    · rw [(ha.none rfl).1]
      rfl
    · have := ha.last hm.ne'
      omega
  · rw [runWithTransport]
    exact (htold _ (htold' [] rfl)).trans (congrArg₂ (· ++ ·) ha.told (List.append_nil _))

end Observed

end VertexVeil
