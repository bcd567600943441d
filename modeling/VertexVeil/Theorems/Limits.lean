import VertexVeil.Fixtures
import VertexVeil.Lemmas.Panics
import VertexVeil.Lemmas.Prices
import VertexVeil.Lemmas.Progress

/-!
# Accepted configurations and the limits of the commitments

A preimage has slots for four claims of 32 bytes each. The loaders do not know of them: a topology with longer tags or more claims
is accepted and rejected when it commits, so the first round ends the run with an error.
-/

namespace VertexVeil

open Codec RuntimeState

/-! ## When accepted configurations run -/

/-- A run that ended coherently: the log says how and when; if it was finalized, with a proposal, both its proofs and a receipt of
its provider; if not, because the rounds were used up. -/
structure CoherentOutcome (out : RuntimeOutcome) : Prop where
  ending : out.log.finalized = out.finalized ∧ out.log.finalRound = out.finalRound
  finalized : out.finalized = true → ∃ p r, out.log.proposalOf out.finalRound = some p ∧
    out.log.hasProof p.candidateRequester out.finalRound = true ∧ out.log.hasProof p.candidateProvider out.finalRound = true ∧
    r ∈ out.log.receipts ∧ r.round = out.finalRound ∧ r.provider = p.candidateProvider
  aborted : out.finalized = false → out.log.abortReason = some "max_rounds_exceeded"

/-- The runtime of a loaded topology and a loaded bundle is built over the in-process bus, and its run returns coherently. -/
def RunsCoherently (Γ : Crypto) (T : LoadedTopology Γ) (L : LoadedAgents Γ T.config) (scenario : Scenario) (maxRounds : UInt64)
    (salt : Bytes 32) (runId : String) : Prop :=
  ∃ rt, Runtime.new T.config OrderedBus.new L.agents scenario maxRounds = .ok rt ∧
    ∃ out, (rt.withRunSalt salt).run Γ runId = .ok out ∧ CoherentOutcome out

namespace LimitsAux

variable {Γ : Crypto} {s₀ s : RuntimeState}

/-- The rounds of an in-process run return, when its commitments are built. -/
theorem runRounds_ok (ht : s₀.topology.WellFormed Γ) (ha : AgentsOf Γ s₀.topology s₀.agents) (hloc : AllLocal s₀)
    (hbuild : Buildable Γ s₀) {k : Nat} (fr : RoundId) (h : InProcess Γ s₀ s)
    (hk : s.roundMachine.current.toNat + k < 2 ^ 64) :
    ∃ x, Runtime.runRounds Γ k fr ⟨s, ({ queue := [] } : OrderedBus)⟩ = .ok x := by
  induction k generalizing s fr with
  | zero => exact ⟨_, rfl⟩
  | succ k ih =>
    obtain ⟨o, ⟨s₁, t₁⟩, h₁⟩ := Runtime.runOneRound_returns ht ha hloc hbuild h
    obtain ⟨hends, hq⟩ := Runtime.runOneRound_ends OrderedBus.delivers
      (show (⟨s, { queue := [] }⟩ : Runtime OrderedBus).transport.queue = [] from rfl) h₁
    cases o with
    | finalized => exact ⟨_, by simp only [Runtime.runRounds, bind, Except.bind, h₁]; rfl⟩
    | fallback =>
      have hcur : s₁.roundMachine.current = s.roundMachine.current := (h.ended ht ha hloc hends).inRound.ledger.2
      have hbound : s₁.roundMachine.current.toNat + 1 < 2 ^ 64 := by
        rw [hcur]
        omega
      have hadv := RoundMachine.advanceFallback_of_lt hbound
      have hnext : (s₁.roundMachine.current + 1).toNat = s.roundMachine.current.toNat + 1 := by
        rw [RoundId.toNat_succ hbound, hcur]
      obtain ⟨queue⟩ := t₁
      obtain rfl : queue = [] := hq
      obtain ⟨x, hx⟩ := ih s.roundMachine.current (h.fallback ht ha hloc hends hadv)
        (by change (s₁.roundMachine.current + 1).toNat + k < 2 ^ 64; omega)
      refine ⟨x, ?_⟩
      simp only [Runtime.runRounds, bind, Except.bind, h₁, Runtime.advanceFallback, hadv]
      exact hx

/-- The node of a commitment that is built keeps the limits. -/
theorem fits_of_builds (ha : AgentsOf Γ s.topology s.agents) {node : NodeConfig} {r : RoundId} {c : CommitmentRecord}
    (hnode : s.topology.findNode node.id = some node) (h : Builds Γ s node.id r c) :
    (node.role = .requester → ∀ cap ∈ node.requiredCapability, (asBytes cap.asStr).length ≤ maxCapabilityBytes) ∧
      (node.role = .provider → node.capabilityClaims.length ≤ maxCapabilityClaims ∧
        ∀ cap ∈ node.capabilityClaims, (asBytes cap.asStr).length ≤ maxCapabilityBytes) := by
  obtain ⟨a, ha'⟩ := Option.isSome_iff_exists.mp (Std.TreeMap.mem_iff_isSome_getElem?.mp h.mem_agents)
  obtain ⟨n, hn, hacts⟩ := ha node.id a ha'
  obtain rfl : node = n := Option.some.inj (hnode.symm.trans hn)
  cases hacts with
  | requester i hrole _ hcap _ =>
    obtain ⟨d, -, hcommit⟩ := h.bindsRequester ha'
    obtain ⟨p, hp, -⟩ := Except.bind_eq_ok hcommit
    refine ⟨?_, ?_⟩
    · intro _ cap hmem
      obtain rfl : i.requiredCapability = cap := Option.some.inj (hcap.symm.trans hmem)
      exact (buildRequesterPreimage_ok hp).1
    · intro hprov
      rw [hrole] at hprov
      simp at hprov
  | provider i hrole _ hclaims _ =>
    obtain ⟨d, -, hcommit⟩ := h.bindsProvider ha'
    obtain ⟨p, hp, -⟩ := Except.bind_eq_ok hcommit
    obtain ⟨hcount, hall, -⟩ := buildProviderPreimage_ok hp
    refine ⟨?_, fun _ => hclaims ▸ ⟨hcount, hall⟩⟩
    intro hreq
    rw [hrole] at hreq
    simp at hreq

/-- Where the commitments of a loaded bundle are built, the topology keeps the limits. -/
theorem fitsLimits_of_buildable (T : LoadedTopology Γ) (L : LoadedAgents Γ T.config) {scenario : Scenario} {maxRounds : UInt64}
    {salt : Bytes 32} {runId : String} (h : Buildable Γ (.starting T.config L.agents scenario maxRounds salt runId)) :
    FitsLimits T.config := by
  intro node hnode
  obtain ⟨c, hc⟩ := h node.id (L.mem_agents.mpr ⟨node, hnode, rfl⟩) 0
  obtain ⟨hreq, hprov⟩ := fits_of_builds L.agentsOf (T.wellFormed.findNode_self hnode) (builds_of_ok hc)
  obtain ⟨hclaims, hnone⟩ := T.fields_of_role hnode
  cases hrole : node.role with
  | requester =>
    refine ⟨hreq hrole, ?_⟩
    rw [hclaims hrole]
    simp
  | provider =>
    refine ⟨?_, hprov hrole⟩
    rw [hnone hrole]
    simp

/-- A run of some rounds that returns has built every commitment of the first. -/
theorem fitsLimits_of_returns (T : LoadedTopology Γ) (L : LoadedAgents Γ T.config) {scenario : Scenario} {maxRounds : UInt64}
    {salt : Bytes 32} {runId : String} (h0 : maxRounds ≠ 0) (h : RunsCoherently Γ T L scenario maxRounds salt runId) :
    FitsLimits T.config := by
  obtain ⟨rt, hnew, out, hrun, -⟩ := h
  obtain rfl := Runtime.new_eq_ok hnew
  cases hb : (RuntimeState.starting T.config L.agents scenario maxRounds salt runId).broadcastCommitments Γ 0 with
  | mk msgs res =>
    cases res with
    | ok s' => exact fitsLimits_of_buildable T L (buildable_of_broadcast hb)
    | error e =>
      rw [Runtime.run_of_broadcast_error h0 hb] at hrun
      simp at hrun

/-- An in-process run that returns ends coherently. -/
theorem coherent_of_returns (T : LoadedTopology Γ) (L : LoadedAgents Γ T.config) {scenario : Scenario} {maxRounds : UInt64}
    {salt : Bytes 32} {runId : String} {rt : Runtime OrderedBus} {out : RuntimeOutcome}
    (hnew : Runtime.new T.config OrderedBus.new L.agents scenario maxRounds = .ok rt)
    (hrun : (rt.withRunSalt salt).run Γ runId = .ok out) : CoherentOutcome out := by
  obtain ⟨s', hlog, -, hend⟩ := inProcess_run T L scenario maxRounds salt runId hnew hrun
  refine ⟨?_, ?_, ?_⟩
  · rw [hlog]
    cases out.finalized <;> exact ⟨rfl, rfl⟩
  · intro hfin
    rcases hend with ⟨-, s, -, hended⟩ | ⟨hf, -⟩
    · obtain ⟨p, -, hlast, ⟨hreq, hprov⟩, hrec⟩ := hended.final rfl
      rw [hlog, hfin]
      refine ⟨p, ownReceipt Γ (.starting T.config L.agents scenario maxRounds salt runId) out.finalRound p, hlast, hreq, hprov,
        ?_, rfl, rfl⟩
      exact hrec ▸ List.mem_append_right _ (List.mem_singleton.mpr rfl)
    · rw [hfin] at hf
      simp at hf
  · intro hfin
    rw [hlog, hfin]
    rfl

end LimitsAux

open LimitsAux

namespace Sample

/-- A tag of 33 characters, one more than a slot of the preimage holds. -/
def wide : CapabilityTag := ⟨List.replicate 33 'A'⟩

/-- A topology in which the requester requires the wide tag and the provider claims it. -/
def wideTopology : LoadedTopology crypto where
  raw := {
    version := 1, capabilityTags := [wide.asStr]
    nodes := [{ requesterRaw with requiredCapability := some wide.asStr }, providerRaw provider₁ [wide] none] }
  config := {
    version := 1, capabilityTags := ⟨{wide}⟩
    nodes := [{ requesterConfig with requiredCapability := some wide }, providerConfig provider₁ [wide] none] }
  loaded := by decide

/-- Private intents for it. -/
def wideAgents : LoadedAgents crypto wideTopology.config := .ofBundle
  { version := 1
    agents := [{ requesterEntry 0 with requiredCapability := some wide.asStr }, providerEntry provider₁ [wide] 1 none] }
  (by decide)

theorem not_fitsLimits : ¬ FitsLimits wideTopology.config := by
  unfold FitsLimits
  decide

end Sample

/-- An accepted configuration need not run: here the tag is too long for its slot. -/
theorem accepted_fails : ¬ ∀ (Γ : Crypto) (T : LoadedTopology Γ) (L : LoadedAgents Γ T.config) (scenario : Scenario)
    (maxRounds : UInt64) (salt : Bytes 32) (runId : String), RunsCoherently Γ T L scenario maxRounds salt runId := by
  intro h
  exact Sample.not_fitsLimits (fitsLimits_of_returns Sample.wideTopology Sample.wideAgents (by decide)
    (h Sample.crypto Sample.wideTopology Sample.wideAgents .empty 1 Sample.salt "run"))

/-- **When an accepted configuration runs.** The runtime of an accepted topology and an accepted bundle is built and its run
returns coherently, whatever the scenario, the salt and the hash, exactly when it has no round to run or the topology's tags
and claim counts fit the slots of the preimages. It is built in any case, and its run does not panic. -/
theorem accepted_runs_iff {Γ : Crypto} (T : LoadedTopology Γ) (L : LoadedAgents Γ T.config) (scenario : Scenario)
    (maxRounds : UInt64) (salt : Bytes 32) (runId : String) :
    (RunsCoherently Γ T L scenario maxRounds salt runId ↔ maxRounds = 0 ∨ FitsLimits T.config) ∧
    ∃ rt, Runtime.new T.config OrderedBus.new L.agents scenario maxRounds = .ok rt ∧
      NoPanic ((rt.withRunSalt salt).run Γ runId) := by
  have hnew := Runtime.new_of_loaded T L OrderedBus.new scenario maxRounds
  refine ⟨?_, _, hnew, Runtime.noPanic_run T L.agentsOf OrderedBus.new scenario maxRounds salt runId⟩
  constructor
  · intro h
    by_cases h0 : maxRounds = 0
    · exact Or.inl h0
    · exact Or.inr (fitsLimits_of_returns T L h0 h)
  · intro h
    have hloc : AllLocal (.starting T.config L.agents scenario maxRounds salt runId) := fun n hn =>
      L.mem_agents.mpr ⟨n, hn, rfl⟩
    have hstart : InProcess Γ (.starting T.config L.agents scenario maxRounds salt runId)
        (.starting T.config L.agents scenario maxRounds salt runId) := .start T.config L.agents scenario maxRounds salt runId
    obtain ⟨⟨rt', fin, fr⟩, hrounds⟩ : ∃ x, Runtime.runRounds Γ maxRounds.toNat 0
        ⟨.starting T.config L.agents scenario maxRounds salt runId, ({ queue := [] } : OrderedBus)⟩ = .ok x := by
      rcases h with rfl | hfit
      · exact ⟨_, rfl⟩
      · refine runRounds_ok T.wellFormed L.agentsOf hloc (hfit.buildable T.wellFormed L.agentsOf) 0 hstart ?_
        have := maxRounds.toNat_lt
        change 0 + maxRounds.toNat < 2 ^ 64
        omega
    let rt : Runtime OrderedBus := { state := .initial T.config L.agents scenario maxRounds, transport := OrderedBus.new }
    have hrun : (rt.withRunSalt salt).run Γ runId =
        .ok { log := Runtime.closeLog rt'.state.log fin fr, finalized := fin, finalRound := fr } := Runtime.run_of_rounds hrounds
    exact ⟨_, hnew, _, hrun, coherent_of_returns T L hnew hrun⟩

end VertexVeil
