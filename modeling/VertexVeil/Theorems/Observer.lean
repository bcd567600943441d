import VertexVeil.Lemmas.Observer
import VertexVeil.Theorems.Runtime

/-!
# What a run tells its observer

Over any transport a run tells its observer its log, round by round: the records that were taken in a round, then that the round is
over. Nothing else is told, and a record is told in the round it is logged in.
-/

namespace VertexVeil

open Codec Observed

/-- A run has the same result with an observer as without. When it returns, the observer has been told, for each round it attempted
and in order, the commitments, proposals, proofs and receipts of the round as the log has them and whether the round was finalized;
and at the end, unless the last one was, that the run is given up. The log has no record of another round. -/
theorem run_transcript {τ : Type} [CoordinationTransport τ] {Γ : Crypto} {topology : TopologyConfig} {t : τ} {agents : Agents}
    {scenario : Scenario} {maxRounds : UInt64} {rt : Runtime τ} (hnew : Runtime.new topology t agents scenario maxRounds = .ok rt)
    (salt : Bytes 32) (runId : String) :
    (Observed.runWithTransport Γ runId (rt.withRunSalt salt)).result = Runtime.runWithTransport Γ runId (rt.withRunSalt salt) ∧
    ∀ out t', Runtime.runWithTransport Γ runId (rt.withRunSalt salt) = .ok (out, t') →
      ∃ rounds, rounds ≤ maxRounds.toNat ∧ (rounds = 0 ↔ maxRounds = 0) ∧ (out.finalized = false → rounds = maxRounds.toNat) ∧
        out.finalRound.toNat = rounds - 1 ∧ out.log.Below rounds ∧
        (Observed.runWithTransport Γ runId (rt.withRunSalt salt)).milestones =
          out.log.transcript out.finalized 0 rounds ++
            if out.finalized then [] else [.abort "max_rounds_exceeded" out.finalRound] := by
  refine ⟨Observed.runWithTransport_result runId _, fun out t' hrun => ?_⟩
  exact transcript_of_run hnew ((Observed.runWithTransport_result runId (rt.withRunSalt salt)).trans hrun)

/-- The sample run, over the in-process bus: one round, which is finalized. -/
theorem run_transcript_sample : ∃ out, Sample.CleanRun out ∧
    (Observed.runWithTransport Sample.crypto "run" ((Sample.runtime OrderedBus.new .empty 1).withRunSalt Sample.salt)).milestones =
      out.log.transcript true 0 1 := by
  obtain ⟨out, hclean⟩ := Sample.run_finalizes
  obtain ⟨⟨out', t'⟩, hrun, hout⟩ := Except.bind_eq_ok hclean.run
  obtain rfl : out' = out := Except.ok.inj hout
  obtain ⟨rounds, hle, hzero, -, -, -, htold⟩ :=
    (run_transcript (Sample.new_runtime OrderedBus.new .empty 1) Sample.salt "run").2 out' t' hrun
  have hone : rounds = 1 := by
    have : rounds ≠ 0 := fun h => absurd (hzero.mp h) (by decide)
    have : rounds ≤ 1 := hle
    omega
  rw [hclean.finalized, hone] at htold
  exact ⟨out', hclean, htold.trans (List.append_nil _)⟩

end VertexVeil
