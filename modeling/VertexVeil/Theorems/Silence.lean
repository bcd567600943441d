import VertexVeil.Fixtures
import VertexVeil.Lemmas.Silence

/-!
# Which failed rounds the rejections show

A round that falls back because a message was refused, or because nobody could act, leaves a rejection. One that falls back only
because somebody said nothing leaves none.
-/

namespace VertexVeil

open Codec RuntimeState

/-! ## Rejections of failed rounds -/

/-- The rounds of a run that fell back: those before the last, and the last if the run is not finalized. -/
def FellBack (maxRounds : UInt64) (out : RuntimeOutcome) (r : RoundId) : Prop :=
  r < maxRounds ∧ (r < out.finalRound ∨ r = out.finalRound ∧ out.finalized = false)

/-- The sample deliveries without a proposal. -/
def Sample.unproposed : Deliveries where
  schedule round phase := if phase = .proposal then [] else (deliveries []).schedule round phase

/-- The requester's process, to which no proposal is delivered. -/
def Sample.unproposedRuntime : Runtime Deliveries :=
  { state := .initial topology.config requesterOnly .empty 1, transport := unproposed }

theorem Sample.new_unproposedRuntime :
    Runtime.new topology.config unproposed requesterOnly .empty 1 = .ok unproposedRuntime :=
  Runtime.new_transport (new_requesterRuntime []) unproposed

/-- Its round falls back and leaves no rejection. -/
theorem Sample.unproposed_run : ∃ out,
    Runtime.run crypto "run" (unproposedRuntime.withRunSalt salt) = .ok out ∧ out.finalRound = 0 ∧ out.finalized = false ∧
      out.log.rejections = [] := by
  obtain ⟨out, hrun, hf⟩ := of_outcome (x := Runtime.run crypto "run" (unproposedRuntime.withRunSalt salt))
    (f := fun out => (out.finalRound, out.finalized, out.log.rejections)) (a := (0, false, [])) (by decide +kernel)
  obtain ⟨hfr, hf⟩ := Prod.mk.inj hf
  obtain ⟨hfin, hrej⟩ := Prod.mk.inj hf
  exact ⟨out, hrun, hfr, hfin, hrej⟩

/-- A round that falls back because the proposer is silent, and leaves no rejection. -/
theorem fallback_unrecorded : ¬ ∀ (Γ : Crypto) (T : LoadedTopology Γ) (d : Deliveries) (agents : Agents) (scenario : Scenario)
    (maxRounds : UInt64) (salt : Bytes 32) (runId : String) (rt : Runtime Deliveries) (out : RuntimeOutcome),
    Runtime.new T.config d agents scenario maxRounds = .ok rt → (rt.withRunSalt salt).run Γ runId = .ok out →
      ∀ r, FellBack maxRounds out r → Recorded out.log r := by
  intro h
  obtain ⟨out, hrun, hfr, hfin, hrej⟩ := Sample.unproposed_run
  obtain ⟨rj, hrj, -⟩ := h Sample.crypto Sample.topology Sample.unproposed Sample.requesterOnly .empty 1 Sample.salt "run" _ out
    Sample.new_unproposedRuntime hrun 0 ⟨by decide, Or.inr ⟨hfr.symm, hfin⟩⟩
  rw [hrej] at hrj
  exact absurd hrj List.not_mem_nil

/-- **Failed rounds in the trace.** Whatever is delivered to a run that returns, it enters each round that falls back in one state,
and the log has a rejection of the round exactly when the round was not silent from there: when something in it was refused or
missing other than the proposal or a participant's proof. -/
theorem fallback_recorded_iff {Γ : Crypto} (T : LoadedTopology Γ) (d : Deliveries) (agents : Agents) (scenario : Scenario)
    (maxRounds : UInt64) (salt : Bytes 32) (runId : String) {rt : Runtime Deliveries} {out : RuntimeOutcome}
    (hnew : Runtime.new T.config d agents scenario maxRounds = .ok rt) (hrun : (rt.withRunSalt salt).run Γ runId = .ok out) :
    ∀ r, FellBack maxRounds out r →
      (∃ s, Enters Γ d.delivery (.starting T.config agents scenario maxRounds salt runId) s ∧ s.roundMachine.current = r) ∧
      ∀ s, Enters Γ d.delivery (.starting T.config agents scenario maxRounds salt runId) s → s.roundMachine.current = r →
        (Recorded out.log r ↔ ¬ SilentRound d s) := by
  rintro r ⟨hlt, hr⟩
  obtain ⟨rt', hrounds, hlog⟩ := Runtime.run_eq_ok hrun
  obtain rfl := Runtime.new_eq_ok hnew
  obtain ⟨reason, hclose⟩ := closeLog_eq rt'.state.log out.finalized out.finalRound
  have hrec : Recorded out.log r ↔ Recorded rt'.state.log r := by
    rw [hlog, hclose]
    exact Iff.rfl
  -- one state in which the run enters the round is enough
  suffices h : ∃ s, Enters Γ d.delivery (.starting T.config agents scenario maxRounds salt runId) s ∧
      s.roundMachine.current = r ∧ (Recorded rt'.state.log r ↔ ¬ SilentRound d s) by
    obtain ⟨s, hs, hcur, hiff⟩ := h
    refine ⟨⟨s, hs, hcur⟩, ?_⟩
    intro s' hs' hcur'
    obtain rfl := hs.unique hs' (hcur.trans hcur'.symm)
    exact hrec.trans hiff
  rcases Runtime.runRounds_spec d.delivers (fun _ _ _ => Visible.fallback T.wellFormed) rfl .start hrounds with
    ⟨hfin, s, hs, hcur, he⟩ | ⟨-, hs, ⟨hzero, -⟩ | hnext⟩
  · rcases hr with hr | ⟨-, hnot⟩
    · rw [← hcur] at he hr
      exact hs.roundEnds he hr
    · rw [hfin] at hnot
      simp at hnot
  · change maxRounds.toNat = 0 at hzero
    rw [UInt64.lt_iff_toNat_lt] at hlt
    omega
  · refine hs.rounds r ?_
    rw [UInt64.lt_iff_toNat_lt]
    rcases hr with hr | ⟨rfl, -⟩
    · rw [UInt64.lt_iff_toNat_lt] at hr
      omega
    · omega

/-- The round without a proposal is silent. -/
theorem fallback_recorded_sample : ∃ out,
    Runtime.run Sample.crypto "run" (Sample.unproposedRuntime.withRunSalt Sample.salt) = .ok out ∧
      SilentRound Sample.unproposed (.starting Sample.topology.config Sample.requesterOnly .empty 1 Sample.salt "run") := by
  obtain ⟨out, hrun, hfr, hfin, hrej⟩ := Sample.unproposed_run
  refine ⟨out, hrun, ?_⟩
  by_contra hsilent
  have hiff := (fallback_recorded_iff Sample.topology Sample.unproposed Sample.requesterOnly .empty 1 Sample.salt "run"
    Sample.new_unproposedRuntime hrun 0 ⟨by decide, Or.inr ⟨hfr.symm, hfin⟩⟩).2 _ .start rfl
  obtain ⟨rj, hrj, -⟩ := hiff.mpr hsilent
  rw [hrej] at hrj
  exact absurd hrj List.not_mem_nil

end VertexVeil
