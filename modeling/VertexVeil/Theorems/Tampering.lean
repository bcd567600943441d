import VertexVeil.Lemmas.Tampering
import VertexVeil.Theorems.Runtime

/-!
# Changes of the records a finalized outcome rests on

What the verifier sees when one field of a record of the final round is changed: all but the bytes behind the marker of a proof
and the choice among the signatures that certify the match.
-/

namespace VertexVeil

open Codec CoordinationLog

/-! ## Which changes of one field are seen -/

/-- The log of a run that is finalized in process has one proposal, two proofs and one receipt in its final round. -/
theorem finalRecords_of_run {Γ : Crypto} (T : LoadedTopology Γ) (L : LoadedAgents Γ T.config) (scenario : Scenario)
    (maxRounds : UInt64) (salt : Bytes 32) (runId : String) {rt : Runtime OrderedBus} {out : RuntimeOutcome}
    (hnew : Runtime.new T.config OrderedBus.new L.agents scenario maxRounds = .ok rt)
    (hrun : (rt.withRunSalt salt).run Γ runId = .ok out) (hfin : out.finalized = true) :
    out.log.finalized = true ∧ ∃ x : FinalRecords, x.Of out.log := by
  obtain ⟨s', hlog, -, ⟨-, s, hs, hend⟩ | ⟨hf, -⟩⟩ := inProcess_run T L scenario maxRounds salt runId hnew hrun
  · obtain ⟨reason, hclosed⟩ := closeLog_eq s'.log out.finalized out.finalRound
    obtain ⟨p, -, hlast, -, hrec⟩ := hend.final rfl
    obtain ⟨q, hlast', cr, cp, hproofs⟩ := hend.pair rfl
    obtain rfl : p = q := Option.some.inj (hlast.symm.trans hlast')
    rw [hs.before.receipts, List.nil_append] at hrec
    rw [hlog, hclosed]
    obtain ⟨hl, hcur⟩ := hend.inRound.ledger
    have hprop : s'.log.proposalsIn out.finalRound = [p] := by
      have hm : p ∈ s'.log.proposalsIn out.finalRound := mem_proposalsIn.mpr (proposalOf_some hlast)
      rw [← hcur, hl.proposalsIn_current, Option.mem_toList] at hm
      rw [← hcur, hl.proposalsIn_current, hm]
      rfl
    exact ⟨hfin, ⟨p, buildProofArtifact Γ cr p.candidateRequester out.finalRound,
      buildProofArtifact Γ cp p.candidateProvider out.finalRound, _⟩, hprop, hproofs, rfl, rfl, hrec, rfl, rfl⟩
  · rw [hfin] at hf
    simp at hf

/-- The clean run's log stays valid when the marker alone is left of the requester's proof. -/
theorem tampering_unseen : ¬ ∀ (Γ : Crypto) (T : LoadedTopology Γ) (L : LoadedAgents Γ T.config) (scenario : Scenario)
    (maxRounds : UInt64) (salt : Bytes 32) (runId : String) (rt : Runtime OrderedBus) (out : RuntimeOutcome),
    Runtime.new T.config OrderedBus.new L.agents scenario maxRounds = .ok rt → (rt.withRunSalt salt).run Γ runId = .ok out →
      out.finalized = true → (verifyLog Γ T.config out.log).valid = true → ∀ x : FinalRecords, x.Of out.log →
        ∀ e : Edit, e.Changes x → (verifyLog Γ T.config (e.apply x out.log)).valid = false := by
  intro h
  obtain ⟨out, hrun, hfin, -, -, hvalid, hlong⟩ := Sample.run_finalizes
  obtain ⟨hf, x, hx⟩ := finalRecords_of_run Sample.topology Sample.agents .empty 1 Sample.salt "run" (Sample.new_runtime _ _ _)
    hrun hfin
  have hc : (Edit.requesterProof (.proofHex (hexEncode [1]))).Changes x := by
    intro he
    have hm := ((TamperingAux.mem_proofs hx).mpr (Or.inl rfl)).1
    exact hlong _ hm (he.symm.trans (hexDecode_hexEncode _))
  have hsound := (TamperingAux.sound_apply_iff Sample.topology.wellFormed hx
    ((VerifierAux.valid_iff_soundLog Sample.topology.wellFormed hf).mp hvalid) hc).mpr
      ⟨1, [], hexDecode_hexEncode _, Or.inl rfl⟩
  have hseen := h Sample.crypto Sample.topology Sample.agents .empty 1 Sample.salt "run" _ out (Sample.new_runtime _ _ _) hrun
    hfin hvalid x hx _ hc
  rw [(VerifierAux.valid_iff_soundLog Sample.topology.wellFormed ((Edit.finalized_apply _ _ _).trans hf)).mpr hsound] at hseen
  simp at hseen

/-- **Changes of one field.** The log of a run that is finalized in process has one proposal, a proof of each participant and one
receipt in its final round. When the verifier accepts it, the log with another value in one field of one of these records is
reported invalid exactly when the value is neither a proof text that opens with a known marker nor a signature that certifies
the match. -/
theorem tampering_seen_iff {Γ : Crypto} (T : LoadedTopology Γ) (L : LoadedAgents Γ T.config) (scenario : Scenario)
    (maxRounds : UInt64) (salt : Bytes 32) (runId : String) {rt : Runtime OrderedBus} {out : RuntimeOutcome}
    (hnew : Runtime.new T.config OrderedBus.new L.agents scenario maxRounds = .ok rt)
    (hrun : (rt.withRunSalt salt).run Γ runId = .ok out) (hfin : out.finalized = true)
    (hvalid : (verifyLog Γ T.config out.log).valid = true) :
    ∃ x : FinalRecords, x.Of out.log ∧ ∀ e : Edit, e.Changes x →
      ((verifyLog Γ T.config (e.apply x out.log)).valid = false ↔ ¬ e.Unseen Γ T.config x) := by
  obtain ⟨hf, x, hx⟩ := finalRecords_of_run T L scenario maxRounds salt runId hnew hrun hfin
  refine ⟨x, hx, ?_⟩
  intro e hc
  have h := (VerifierAux.valid_iff_soundLog T.wellFormed hf).mp hvalid
  have hf' : (e.apply x out.log).finalized = true := (Edit.finalized_apply _ _ _).trans hf
  rw [← Bool.not_eq_true, VerifierAux.valid_iff_soundLog T.wellFormed hf', TamperingAux.sound_apply_iff T.wellFormed hx h hc]

/-- In the clean run's log a final proposal of another round is seen. -/
theorem tampering_seen_sample : ∃ out x,
    Runtime.run Sample.crypto "run" ((Sample.runtime OrderedBus.new .empty 1).withRunSalt Sample.salt) = .ok out ∧
      FinalRecords.Of x out.log ∧
      (verifyLog Sample.crypto Sample.topology.config ((Edit.proposal (.round 1)).apply x out.log)).valid = false := by
  obtain ⟨out, hrun, hfin, ⟨-, hfr⟩, -, hvalid, -⟩ := Sample.run_finalizes
  obtain ⟨x, hx, h⟩ := tampering_seen_iff Sample.topology Sample.agents .empty 1 Sample.salt "run" (Sample.new_runtime _ _ _)
    hrun hfin hvalid
  refine ⟨out, x, hrun, hx, (h _ ?_).mpr id⟩
  change (1 : RoundId) ≠ x.proposal.round
  rw [(TamperingAux.mem_proposal hx).2, hfr]
  decide

end VertexVeil
