import VertexVeil.Fixtures
import VertexVeil.Lemmas.Verifier

/-!
# What a valid log is

`verifyLog_valid_iff`: for finalized logs, the verifier's verdict is soundness. `final_provider_feasible`: how far the final
provider is determined by the commitments.
-/

namespace VertexVeil

open Codec VerifierAux

/-! ## The verdict is soundness -/

/-- **Exactness of the verifier.** A finalized log is reported valid exactly when it is sound. -/
theorem verifyLog_valid_iff {Γ : Crypto} (T : LoadedTopology Γ) (log : CoordinationLog) (hf : log.finalized = true) :
    (verifyLog Γ T.config log).valid = true ↔ SoundLog Γ T.config log :=
  valid_iff_soundLog T.wellFormed hf

theorem Sample.log₂_valid : (verifyLog crypto topology.config log₂).valid = true := by decide +kernel

/-- A log the verifier accepts is sound. -/
theorem soundLog_sample : SoundLog Sample.crypto Sample.topology.config Sample.log₂ :=
  (verifyLog_valid_iff Sample.topology Sample.log₂ rfl).mp Sample.log₂_valid

/-! ## How far the commitments determine the final provider -/

/-- The provider the verifier accepts need not be the one with the smallest key. -/
theorem final_provider_not_least : ¬ ∀ (Γ : Crypto) (T : LoadedTopology Γ) (log : CoordinationLog),
    (verifyLog Γ T.config log).valid = true → log.finalized = true →
      ∀ p req c, log.proposalOf log.finalRound = some p → log.commitmentOf p.candidateRequester log.finalRound = some req →
        deriveCandidate log.finalRound req (log.commitmentsIn log.finalRound) = .ok (some c) →
          p.candidateProvider = c.provider := by
  intro h
  have := h Sample.crypto Sample.topology Sample.log₂ Sample.log₂_valid rfl (Sample.proposal Sample.provider₂)
    Sample.requesterCommitment ⟨Sample.requester, Sample.provider₁, Sample.gpu⟩ (by decide) (by decide)
    (by decide)
  exact absurd this (by decide)

/-- **The final provider is feasible.** In a valid finalized log the final proposal names the requester, the capability its
commitment requires and a provider that satisfies the match predicate with it. When the capability is not the empty text,
`deriveCandidate` picks the same requester and capability and a provider at or below the named one, and the two providers
are the same exactly when no feasible provider has a smaller key. -/
theorem final_provider_feasible {Γ : Crypto} (T : LoadedTopology Γ) (log : CoordinationLog)
    (hv : (verifyLog Γ T.config log).valid = true) (hf : log.finalized = true) :
    ∃ p req, log.proposalOf log.finalRound = some p ∧ log.commitmentOf p.candidateRequester log.finalRound = some req ∧
      p.candidateProvider ∈ feasibleProviders log.finalRound req (log.commitmentsIn log.finalRound) ∧
      (p.matchedCapability.asStr ≠ [] → ∃ c,
        deriveCandidate log.finalRound req (log.commitmentsIn log.finalRound) = .ok (some c) ∧
        c.requester = p.candidateRequester ∧ c.matchedCapability = p.matchedCapability ∧
        c.provider ≤ p.candidateProvider ∧
        (c.provider = p.candidateProvider ↔ ∀ n ∈ feasibleProviders log.finalRound req
          (log.commitmentsIn log.finalRound), p.candidateProvider ≤ n)) := by
  have h := (valid_iff_soundLog T.wellFormed hf).mp hv
  obtain ⟨p, hfin⟩ := h.final
  obtain ⟨hmem, hround⟩ := CoordinationLog.proposalOf_some hfin.last
  have hsp := h.proposals p hmem
  obtain ⟨req, n, r, hreq, hri⟩ := hsp.requester
  obtain ⟨prov, hprov, hrole⟩ := hfin.provider
  have hf' := (feasible_iff_role h.commitments h.keys hsp hreq (hround.symm ▸ hprov)).mpr hrole
  rw [hround] at hreq hf'
  have hr : r = log.finalRound := by
    have := (h.commitments req hreq.1).intentRound
    rw [hri] at this
    exact this.trans hreq.2.2
  obtain rfl := hr
  have hin : prov ∈ log.commitmentsIn log.finalRound := List.mem_filter.mpr ⟨hprov.1, by simpa using hprov.2.2⟩
  have hfeas := mem_feasibleProviders.mpr ⟨prov, hin, hprov.2.1, hf'⟩
  refine ⟨p, req, hfin.last, (commitmentOf_iff h.keys).mpr hreq, hfeas, ?_⟩
  intro hcap
  obtain ⟨c, hc, hcr, hcc, hle, hiff⟩ := deriveCandidate_of_feasible hri hcap hfeas
  exact ⟨c, hc, hcr.trans hreq.2.1, hcc, hle, hiff⟩

/-- In a log whose proposer chose the second provider, the candidate is at or below it. -/
theorem final_provider_feasible_sample : ∃ p req c, Sample.log₂.proposalOf 0 = some p ∧
    Sample.log₂.commitmentOf p.candidateRequester 0 = some req ∧
    deriveCandidate 0 req (Sample.log₂.commitmentsIn 0) = .ok (some c) ∧ c.provider ≤ p.candidateProvider := by
  obtain ⟨p, req, hp, hreq, -, hc⟩ := final_provider_feasible Sample.topology Sample.log₂ Sample.log₂_valid rfl
  have hpe : p = Sample.proposal Sample.provider₂ := Option.some.inj (hp.symm.trans (by decide))
  obtain ⟨c, hd, -, -, hle, -⟩ := hc (by rw [hpe]; decide)
  exact ⟨p, req, c, hp, hreq, hd, hle⟩

end VertexVeil
