import Mathlib.Data.Finset.Card
import VertexVeil.Fixtures
import VertexVeil.Lemmas.RunTrace

/-!
# Progress of in-process runs

The winner rule always takes the least key, and a provider whose proof was refused is not passed over in the next round: one
provider that tampers in every round keeps a run from being finalized.
-/

namespace VertexVeil

open Codec

/-! ## Which in-process runs are finalized -/

/-- The nodes that the events of a scenario name. -/
def Scenario.named (scenario : Scenario) : Finset NodeId := (scenario.events.map ScenarioEvent.node).toFinset

/-- A node that no event names never drops. -/
theorem Scenario.hasDropped_of_not_named {scenario : Scenario} {k : NodeId} (h : k ∉ scenario.named) (r : RoundId) :
    scenario.hasDropped k r = false := by
  rw [← Bool.not_eq_true, Scenario.hasDropped_iff]
  rintro ⟨r', he, -⟩
  exact h (List.mem_toFinset.mpr (List.mem_map.mpr ⟨_, he, rfl⟩))

theorem Scenario.not_injects_of_not_named {scenario : Scenario} {k : NodeId} (h : k ∉ scenario.named) (r : RoundId) :
    ScenarioEvent.injectInvalidProof k r ∉ scenario.events :=
  fun he => h (List.mem_toFinset.mpr (List.mem_map.mpr ⟨_, he, rfl⟩))

namespace Sample

/-- The deployment keeps the commitment limits. -/
theorem fitsLimits : FitsLimits topology.config := by
  unfold FitsLimits
  decide

/-- The toy hash has no collision among the commitments of three rounds. -/
theorem collisionFree : CollisionFree crypto agents.agents salt 3 :=
  List.inj_on_of_nodup_map (by decide +kernel)

/-- A run of the deployment returns, and its log is what its rounds append. -/
theorem run_appends (scenario : Scenario) (rounds : UInt64) (h : rounds ≤ 3) : ∃ out,
    Runtime.run crypto "run" ((runtime OrderedBus.new scenario rounds).withRunSalt salt) = .ok out ∧
      EndsAt topology.config scenario rounds out.finalized out.finalRound ∧
      out.log = Runtime.closeLog ((CoordinationLog.new "run").extend
        (runEntries crypto (.starting topology.config agents.agents scenario rounds salt "run") rounds out.finalRound))
          out.finalized out.finalRound :=
  VertexVeil.run_appends topology agents scenario rounds salt "run" (fitsLimits.buildable topology.wellFormed agents.agentsOf)
    (collisionFree.mono h) (new_runtime _ _ _)

theorem clean_iff (scenario : Scenario) (r : RoundId) : CleanRound topology.config scenario r ↔
    scenario.hasDropped requester r = false ∧ ∃ k, winner topology.config scenario gpu r = some k ∧
      ScenarioEvent.injectInvalidProof requester r ∉ scenario.events ∧
        ScenarioEvent.injectInvalidProof k r ∉ scenario.events :=
  cleanRound_iff (n := requesterConfig) rfl rfl

/-- A round in which the matched provider tampers with its proof is not clean. -/
theorem not_clean {scenario : Scenario} {r : RoundId} {k : NodeId} (hw : winner topology.config scenario gpu r = some k)
    (he : ScenarioEvent.injectInvalidProof k r ∈ scenario.events) : ¬ CleanRound topology.config scenario r := by
  rw [clean_iff]
  rintro ⟨-, k', hw', -, hk'⟩
  obtain rfl : k = k' := Option.some.inj (hw.symm.trans hw')
  exact hk' he

/-- The run of three rounds in which the first provider tampers with every proof is not finalized. -/
theorem stubborn_run : ∃ out,
    Runtime.run crypto "run" ((runtime OrderedBus.new stubborn 3).withRunSalt salt) = .ok out ∧ out.finalized = false := by
  obtain ⟨out, hrun, hends, -⟩ := run_appends stubborn 3 (UInt64.le_refl 3)
  refine ⟨out, hrun, ?_⟩
  rcases hends with ⟨-, ⟨hlt, hclean⟩, -⟩ | ⟨hfin, -⟩
  · have hr : out.finalRound = 0 ∨ out.finalRound = 1 ∨ out.finalRound = 2 := by
      have hlt : out.finalRound.toNat < 3 := UInt64.lt_iff_toNat_lt.mp hlt
      simp only [← UInt64.toNat_inj]
      change out.finalRound.toNat = 0 ∨ out.finalRound.toNat = 1 ∨ out.finalRound.toNat = 2
      omega
    refine absurd hclean (not_clean (k := provider₁) ?_ ?_) <;> rcases hr with hr | hr | hr <;> rw [hr] <;> decide
  · exact hfin

end Sample

/-- One faulty provider in four nodes that tampers with its proof in every round: the run is not finalized. -/
theorem progress_stalls : ¬ ∀ (Γ : Crypto) (T : LoadedTopology Γ) (L : LoadedAgents Γ T.config) (scenario : Scenario)
    (maxRounds : UInt64) (salt : Bytes 32) (runId : String) (rt : Runtime OrderedBus) (f : Nat) (n : NodeConfig)
    (cap : CapabilityTag), 1 ≤ f → 3 * f + 1 ≤ T.config.nodes.length → FitsLimits T.config →
      CollisionFree Γ L.agents salt maxRounds → scenario.named.card ≤ f →
      T.config.nodes.countP (fun n => n.role = .provider) ≤ maxRounds.toNat →
      T.config.requester = some n → n.requiredCapability = some cap → n.id ∉ scenario.named →
      (∃ m ∈ T.config.nodes, m.role = .provider ∧ cap ∈ m.capabilityClaims ∧ m.id ∉ scenario.named) →
      Runtime.new T.config OrderedBus.new L.agents scenario maxRounds = .ok rt →
        ∃ out, (rt.withRunSalt salt).run Γ runId = .ok out ∧ out.finalized = true := by
  intro h
  obtain ⟨out, hrun, hfin⟩ := h Sample.crypto Sample.topology Sample.agents Sample.stubborn 3 Sample.salt "run" _ 1
    Sample.requesterConfig Sample.gpu (by decide) (by decide) Sample.fitsLimits Sample.collisionFree (by decide) (by decide)
    (by decide) rfl (by decide)
    ⟨Sample.providerConfig Sample.provider₂ [Sample.gpu, Sample.cpu] none, by decide, rfl, by decide,
      by decide⟩
    (Sample.new_runtime _ _ _)
  obtain ⟨out', hrun', hfin'⟩ := Sample.stubborn_run
  rw [hrun, Except.ok.injEq] at hrun'
  rw [hrun', hfin'] at hfin
  simp at hfin

/-- **Progress.** Let the limits be kept, the hash have no collision among the commitments of all agents in all rounds below the
maximum, made or not, no event name the requester, and some provider that claims its capability be named by no event. Then the
in-process run returns. Every round has a least provider that claims the capability and has not dropped, and the run is finalized
exactly when in some round no invalid proof is scheduled for that one; so it is when no event names the least of all providers that
claim the capability. -/
theorem progress {Γ : Crypto} (T : LoadedTopology Γ) (L : LoadedAgents Γ T.config) (scenario : Scenario)
    (maxRounds : UInt64) (salt : Bytes 32) (runId : String) {rt : Runtime OrderedBus} {n : NodeConfig} {cap : CapabilityTag}
    (hfit : FitsLimits T.config) (hcf : CollisionFree Γ L.agents salt maxRounds) (hn : T.config.requester = some n)
    (hcap : n.requiredCapability = some cap) (hreq : n.id ∉ scenario.named)
    (hprov : ∃ m ∈ T.config.nodes, m.role = .provider ∧ cap ∈ m.capabilityClaims ∧ m.id ∉ scenario.named)
    (hnew : Runtime.new T.config OrderedBus.new L.agents scenario maxRounds = .ok rt) :
    ∃ out, (rt.withRunSalt salt).run Γ runId = .ok out ∧
      (∀ r, ∃ winner, IsLeast {k | Willing T.config scenario cap r k} winner) ∧
      (out.finalized = true ↔ ∃ r winner, r < maxRounds ∧ IsLeast {k | Willing T.config scenario cap r k} winner ∧
        ScenarioEvent.injectInvalidProof winner r ∉ scenario.events) ∧
      (∀ winner, IsLeast {k | ∃ m ∈ T.config.nodes, m.id = k ∧ m.role = .provider ∧ cap ∈ m.capabilityClaims} winner →
        winner ∉ scenario.named → 0 < maxRounds → out.finalized = true) := by
  obtain rfl := Runtime.new_eq_ok hnew
  obtain ⟨m, hm, hmrole, hmcap, hmnamed⟩ := hprov
  have hloc : AllLocal (.starting T.config L.agents scenario maxRounds salt runId) := fun n hn =>
    L.mem_agents.mpr ⟨n, hn, rfl⟩
  obtain ⟨rt', fin, fr, hrounds, hres⟩ := runRounds_returns maxRounds 0 (k := maxRounds.toNat)
    T.wellFormed L.agentsOf hloc (hfit.buildable T.wellFormed L.agentsOf) hcf rfl (.start T.config L.agents scenario maxRounds salt runId)
    (Nat.zero_add maxRounds.toNat)
  have hiff : fin = true ↔ ∃ r, 0 ≤ r ∧ r < maxRounds ∧ CleanRound T.config scenario r := by
    rcases hres with ⟨rfl, -, hleast⟩ | ⟨rfl, hnone, -⟩
    · exact iff_of_true rfl ⟨fr, hleast.1⟩
    · refine iff_of_false Bool.false_ne_true ?_
      rintro ⟨r, h0, hr, hclean⟩
      exact hnone r h0 hr hclean
  have hclean : (∃ r, 0 ≤ r ∧ r < maxRounds ∧ CleanRound T.config scenario r) ↔
      ∃ r winner, r < maxRounds ∧ IsLeast {k | Willing T.config scenario cap r k} winner ∧
        ScenarioEvent.injectInvalidProof winner r ∉ scenario.events := by
    constructor
    · rintro ⟨r, -, hr, n', cap', winner, hn', hcap', -, hleast, -, hw⟩
      obtain rfl : n = n' := Option.some.inj (hn.symm.trans hn')
      obtain rfl : cap = cap' := Option.some.inj (hcap.symm.trans hcap')
      exact ⟨r, winner, hr, hleast, hw⟩
    · rintro ⟨r, winner, hr, hleast, hw⟩
      exact ⟨r, UInt64.zero_le, hr, n, cap, winner, hn, hcap, scenario.hasDropped_of_not_named hreq r, hleast,
        scenario.not_injects_of_not_named hreq r, hw⟩
  refine ⟨_, Runtime.run_of_rounds hrounds, fun r => ?_, hiff.trans hclean, fun winner hleast hnamed hpos => ?_⟩
  · exact exists_winner ⟨⟨m, hm, rfl, hmrole, hmcap⟩, scenario.hasDropped_of_not_named hmnamed r⟩
  · refine (hiff.trans hclean).mpr ⟨0, winner, hpos, ⟨⟨hleast.1, scenario.hasDropped_of_not_named hnamed 0⟩, ?_⟩,
      scenario.not_injects_of_not_named hnamed 0⟩
    rintro k ⟨hk, -⟩
    exact hleast.2 hk

/-- The first provider tampers with its proof and drops. -/
def Sample.faltering : Scenario := { events := [.injectInvalidProof provider₁ 0, .dropNode provider₁ 0] }

/-- The first provider tampers with its proof and drops; the run is finalized in a later round, with another one. -/
theorem progress_sample : ∃ out,
    Runtime.run Sample.crypto "run" ((Sample.runtime OrderedBus.new Sample.faltering 3).withRunSalt Sample.salt) = .ok out ∧
      out.finalized = true := by
  obtain ⟨out, hrun, -, hiff, -⟩ := progress Sample.topology Sample.agents Sample.faltering 3 Sample.salt "run" Sample.fitsLimits
    Sample.collisionFree (by decide)
    (show Sample.requesterConfig.requiredCapability = some Sample.gpu from rfl) (by decide)
    ⟨Sample.providerConfig Sample.provider₂ [Sample.gpu, Sample.cpu] none, by decide, rfl, by decide,
      by decide⟩
    (Sample.new_runtime _ _ _)
  have hw : winner Sample.topology.config Sample.faltering Sample.gpu 1 = some Sample.provider₂ := by decide
  exact ⟨out, hrun, hiff.mpr ⟨1, Sample.provider₂, by decide, winner_isLeast hw, by decide⟩⟩

/-! ## The outcome of an in-process run -/

/-- **The outcome of an in-process run.** Let the limits be kept and the hash have no collision among the commitments of all agents
in all rounds below the maximum, made or not. Then the run returns: finalized in the first clean round there is, with the requester
and that round's least willing provider; or, when none of its rounds is clean, aborted after the last one. -/
theorem run_outcome {Γ : Crypto} (T : LoadedTopology Γ) (L : LoadedAgents Γ T.config) (scenario : Scenario)
    (maxRounds : UInt64) (salt : Bytes 32) (runId : String) {rt : Runtime OrderedBus} (hfit : FitsLimits T.config)
    (hcf : CollisionFree Γ L.agents salt maxRounds)
    (hnew : Runtime.new T.config OrderedBus.new L.agents scenario maxRounds = .ok rt) :
    ∃ out, (rt.withRunSalt salt).run Γ runId = .ok out ∧ out.log.finalized = out.finalized ∧
      out.log.finalRound = out.finalRound ∧
      ((out.finalized = true ∧ IsLeast {r | r < maxRounds ∧ CleanRound T.config scenario r} out.finalRound ∧
          MatchedIn T.config scenario out.finalRound out.log) ∨
        (out.finalized = false ∧ (∀ r, r < maxRounds → ¬ CleanRound T.config scenario r) ∧
          out.log.abortReason = some "max_rounds_exceeded" ∧
          out.finalRound = if maxRounds = 0 then 0 else maxRounds - 1)) := by
  obtain rfl := Runtime.new_eq_ok hnew
  have hloc : AllLocal (.starting T.config L.agents scenario maxRounds salt runId) := fun n hn =>
    L.mem_agents.mpr ⟨n, hn, rfl⟩
  obtain ⟨rt', fin, fr, hrounds, hres⟩ := runRounds_returns maxRounds 0 (k := maxRounds.toNat)
    T.wellFormed L.agentsOf hloc (hfit.buildable T.wellFormed L.agentsOf) hcf rfl (.start T.config L.agents scenario maxRounds salt runId)
    (Nat.zero_add maxRounds.toNat)
  refine ⟨_, Runtime.run_of_rounds hrounds, ?_, ?_, ?_⟩
  · cases fin <;> rfl
  · cases fin <;> rfl
  · rcases hres with ⟨rfl, hm, hleast⟩ | ⟨rfl, hnone, hlast⟩
    · refine Or.inl ⟨rfl, ⟨hleast.1.2, ?_⟩, hm⟩
      rintro r ⟨hr, hclean⟩
      exact hleast.2 ⟨UInt64.zero_le, hr, hclean⟩
    · refine Or.inr ⟨rfl, fun r hr => hnone r UInt64.zero_le hr, rfl, ?_⟩
      by_cases h0 : maxRounds = 0
      · subst h0
        rcases hlast with ⟨-, rfl⟩ | hlast
        · rfl
        · simp at hlast
      · rw [if_neg h0]
        have hpos : maxRounds.toNat ≠ 0 := fun h => h0 (UInt64.toNat_inj.mp h)
        rcases hlast with ⟨hz, -⟩ | hlast
        · exact absurd hz hpos
        · refine UInt64.toNat_inj.mp ?_
          have hle : (1 : UInt64) ≤ maxRounds := by
            rw [UInt64.le_iff_toNat_le]
            change 1 ≤ maxRounds.toNat
            omega
          rw [UInt64.toNat_sub_of_le _ _ hle]
          change fr.toNat = maxRounds.toNat - 1
          omega

/-- The run in which the first provider tampers with every proof uses up its rounds. -/
theorem run_outcome_sample : ∃ out,
    Runtime.run Sample.crypto "run" ((Sample.runtime OrderedBus.new Sample.stubborn 3).withRunSalt Sample.salt) = .ok out ∧
      out.finalRound = 2 := by
  obtain ⟨out, hrun, -, -, h⟩ := run_outcome Sample.topology Sample.agents Sample.stubborn 3 Sample.salt "run"
    Sample.fitsLimits Sample.collisionFree (Sample.new_runtime _ _ _)
  obtain ⟨out', hrun', hfin⟩ := Sample.stubborn_run
  obtain rfl : out = out' := Except.ok.inj (hrun.symm.trans hrun')
  rcases h with ⟨ht, -⟩ | ⟨-, -, -, hfr⟩
  · rw [hfin] at ht
    simp at ht
  · exact ⟨out, hrun, hfr⟩

end VertexVeil
