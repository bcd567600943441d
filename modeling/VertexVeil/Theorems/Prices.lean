import VertexVeil.Lemmas.Prices
import VertexVeil.Theorems.Progress
import VertexVeil.Theorems.Runtime

/-!
# What the log says of the prices

Nothing but what the digests do. Prices go into the preimages of the commitments, and no step of a run looks at more of a digest than
whether it is another one.
-/

namespace VertexVeil

open Codec RuntimeState

/-! ## Runs that differ in prices -/

/-- **Prices stay private.** In-process runs over two bundles for one topology that differ only in budgets and reservations, with the
same scenario, bound on the rounds, salt and run id, return the same: the same error, or outcomes that are equal, with their logs,
but for the digests of the commitments and the contents of the proofs, which are made of them. The hash has no collision among the
commitments of all agents of either bundle in all rounds below the maximum, made or not. -/
theorem prices_hidden {Γ : Crypto} (T : LoadedTopology Γ) (L L' : LoadedAgents Γ T.config)
    (hprices : L'.bundle.unpriced = L.bundle.unpriced) (scenario : Scenario) (maxRounds : UInt64) (salt : Bytes 32)
    (runId : String) {rt rt' : Runtime OrderedBus}
    (hnew : Runtime.new T.config OrderedBus.new L.agents scenario maxRounds = .ok rt)
    (hnew' : Runtime.new T.config OrderedBus.new L'.agents scenario maxRounds = .ok rt')
    (hcf : CollisionFree Γ L.agents salt maxRounds) (hcf' : CollisionFree Γ L'.agents salt maxRounds) :
    ((rt'.withRunSalt salt).run Γ runId).map RuntimeOutcome.erased =
      ((rt.withRunSalt salt).run Γ runId).map RuntimeOutcome.erased := by
  have hsame : SameButPrices (.starting T.config L.agents scenario maxRounds salt runId)
      (.starting T.config L'.agents scenario maxRounds salt runId) := ⟨rfl, rfl, rfl, LoadedAgents.unpriced hprices⟩
  by_cases h0 : maxRounds = 0
  · -- no round is attempted, so no agent acts
    subst h0
    obtain rfl := Runtime.new_eq_ok hnew
    obtain rfl := Runtime.new_eq_ok hnew'
    rfl
  rcases hsame.broadcastCommitments Γ 0 with ⟨msgs, msgs', e, he, he'⟩ | ⟨msgs, s₁, hb⟩
  · -- a commitment cannot be built: both runs fail on it in their first round
    obtain rfl := Runtime.new_eq_ok hnew
    obtain rfl := Runtime.new_eq_ok hnew'
    rw [Runtime.run_of_broadcast_error h0 he, Runtime.run_of_broadcast_error h0 he']
  · have hbuild := buildable_of_broadcast hb
    obtain ⟨out, hrun, hends, hlog⟩ := run_appends T L scenario maxRounds salt runId hbuild hcf hnew
    obtain ⟨out', hrun', hends', hlog'⟩ := run_appends T L' scenario maxRounds salt runId (hsame.buildable hbuild) hcf' hnew'
    -- which round is the last, and whether it is finalized, is a matter of the scenario
    obtain ⟨hfin, hfr⟩ := hends'.unique hends
    have herased : out'.log.erased = out.log.erased := by
      rw [hlog, hlog', hfin, hfr, erased_closeLog, erased_closeLog, CoordinationLog.erased_extend, CoordinationLog.erased_extend,
        hsame.runEntries]
    rw [hrun, hrun']
    simp only [Except.map, RuntimeOutcome.erased, herased, hfin, hfr]

/-- The sample's agents with a budget and higher reservations. -/
def Sample.pricedAgents : LoadedAgents crypto topology.config := .ofBundle (bundle 500 300) (by decide)

/-- The clean run of the sample and that of its agents at other prices. -/
theorem prices_hidden_sample : ∃ out out' : RuntimeOutcome,
    Runtime.run Sample.crypto "run" ((Sample.runtime OrderedBus.new .empty 1).withRunSalt Sample.salt) = .ok out ∧
      Runtime.run Sample.crypto "run" (({
        state := .initial Sample.topology.config Sample.pricedAgents.agents .empty 1
        transport := OrderedBus.new } : Runtime OrderedBus).withRunSalt Sample.salt) = .ok out' ∧ out'.erased = out.erased := by
  obtain ⟨out, hrun, -⟩ := Sample.run_finalizes
  have hfree : CollisionFree Sample.crypto Sample.pricedAgents.agents Sample.salt 1 :=
    List.inj_on_of_nodup_map (by decide +kernel)
  have hprices : Sample.pricedAgents.bundle.unpriced = Sample.agents.bundle.unpriced := by
    rw [Sample.pricedAgents, Sample.agents, LoadedAgents.ofBundle_bundle, LoadedAgents.ofBundle_bundle]
    rfl
  have hsame := prices_hidden Sample.topology Sample.agents Sample.pricedAgents hprices .empty 1 Sample.salt "run"
    (Sample.new_runtime _ _ _) (Runtime.new_of_loaded _ _ _ _ _) (Sample.collisionFree.mono (by decide)) hfree
  rw [hrun] at hsame
  cases hrun' : Runtime.run Sample.crypto "run" (({
      state := .initial Sample.topology.config Sample.pricedAgents.agents .empty 1
      transport := OrderedBus.new } : Runtime OrderedBus).withRunSalt Sample.salt) with
  | error e =>
    rw [hrun'] at hsame
    simp [Except.map] at hsame
  | ok out' =>
    rw [hrun'] at hsame
    exact ⟨out, out', hrun, rfl, Except.ok.inj hsame⟩

end VertexVeil
