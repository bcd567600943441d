import VertexVeil.Theorems.Progress

/-!
# What a dropped node still does

A node that drops broadcasts no commitment from the next round on, and what needs its commitment does not happen. The turn to
propose goes by the topology alone, so a dropped node proposes when its turn comes.
-/

namespace VertexVeil

open Codec RuntimeState

/-! ## Records of dropped nodes -/

/-- No record of a round is attributed to a node that has dropped by it. -/
structure Silent (scenario : Scenario) (log : CoordinationLog) (r : RoundId) : Prop where
  commitments : ∀ c ∈ log.commitments, c.round = r → scenario.hasDropped c.nodeId r = false
  proposers : ∀ p ∈ log.proposals, p.round = r → scenario.hasDropped p.proposer r = false
  candidates : ∀ p ∈ log.proposals, p.round = r → scenario.hasDropped p.candidateProvider r = false
  proofs : ∀ a ∈ log.proofs, a.round = r → scenario.hasDropped a.nodeId r = false
  receipts : ∀ x ∈ log.receipts, x.round = r → scenario.hasDropped x.provider r = false

/-- A round whose proposer has not dropped, or in which there is nothing to propose: the requester has dropped, or every provider
that claims its capability has. -/
def DropHeeded (t : TopologyConfig) (scenario : Scenario) (r : RoundId) : Prop :=
  (∃ q, deterministicProposer t r = .ok q ∧ scenario.hasDropped q r = false) ∨
    ∃ n cap, t.requester = some n ∧ n.requiredCapability = some cap ∧
      (scenario.hasDropped n.id r = true ∨ ∀ k, ¬ Willing t scenario cap r k)

section

variable {Γ : Crypto} {s₀ s : RuntimeState} {round : RoundId}

/-- A logged proposal is by the proposer of its round, for a requester that has not dropped and a willing provider. -/
theorem proposal_of_ledger (ht : s₀.topology.WellFormed Γ) (ha : AgentsOf Γ s₀.topology s₀.agents)
    (hl : Ledger s₀.topology s) (hown : ∀ c ∈ s.log.commitments, Own Γ s₀ c.nodeId c.round c) {p : ProposalRecord}
    (hp : p ∈ s.log.proposals) : deterministicProposer s₀.topology p.round = .ok p.proposer ∧
      ∃ n, s₀.topology.requester = some n ∧ n.requiredCapability = some p.matchedCapability ∧
        s₀.scenario.hasDropped n.id p.round = false ∧
        Willing s₀.topology s₀.scenario p.matchedCapability p.round p.candidateProvider := by
  obtain ⟨⟨hprop, ⟨c, n, r, hc, hi⟩, ⟨d, hd, hclaims⟩⟩, ⟨d', hd', hrole⟩⟩ := hl.proposals p hp
  refine ⟨(VerifierAux.deterministicProposer_iff ht).mpr hprop, ?_⟩
  -- the requester's commitment is its own, so it has not dropped and its intent is the topology's
  obtain ⟨node, hnode, hid, hnrole⟩ := (hl.sound c hc.1).node
  obtain ⟨req, hreq, hrmem, -, huniq⟩ := ht.requester_unique
  have hcown := hown c hc.1
  rw [hi] at hnrole
  obtain rfl : node = req := huniq node hnode hnrole
  rw [← hid, hc.2.2] at hcown
  rcases hcown.builds.intent ht ha hnode with ⟨-, cap, hcap, hci⟩ | ⟨hr, -⟩
  · rw [hi, PublicIntent.requester.injEq] at hci
    obtain ⟨-, -, rfl⟩ := hci
    refine ⟨node, hreq, hcap, hcown.1, ?_⟩
    obtain ⟨m, hm, hmid, hmrole⟩ := (hl.sound d' hd'.1).node
    have hdown := hown d hd.1
    have hdown' := hown d' hd'.1
    rw [hd.2.1, hd.2.2] at hdown
    rw [hd'.2.1, hd'.2.2] at hdown'
    obtain rfl := hdown.unique hdown'
    rw [hrole] at hmrole
    rw [hd.2.1] at hmid
    rw [← hmid] at hdown
    rcases hdown.builds.intent ht ha hm with ⟨hr, -⟩ | ⟨-, hdi⟩
    · rw [hmrole] at hr
      simp at hr
    · exact ⟨⟨m, hm, hmid, hmrole, hclaims _ _ _ hdi⟩, hmid ▸ hdown.1⟩
  · rw [hnrole] at hr
    simp [PublicIntent.role] at hr

/-- A round without a proposal by a dropped node is silent. -/
theorem silent_of_proposers (ht : s₀.topology.WellFormed Γ) (ha : AgentsOf Γ s₀.topology s₀.agents)
    (hl : Ledger s₀.topology s) (hown : ∀ c ∈ s.log.commitments, Own Γ s₀ c.nodeId c.round c)
    (hproofs : ∀ a ∈ s.log.proofs, SoundProof s.log a)
    (hreceipts : ∀ x ∈ s.log.receipts, ∃ p ∈ s.log.proposals, p.round = x.round ∧ p.candidateProvider = x.provider)
    (hproposers : ∀ p ∈ s.log.proposals, p.round = round → s₀.scenario.hasDropped p.proposer round = false) :
    Silent s₀.scenario s.log round where
  commitments := by
    rintro c hc rfl
    exact (hown c hc).1
  proposers := hproposers
  candidates := by
    rintro p hp rfl
    obtain ⟨-, n, -, -, -, hw⟩ := proposal_of_ledger ht ha hl hown hp
    exact hw.2
  proofs := by
    rintro a ha' rfl
    obtain ⟨c, -, ⟨hc, hn, hr⟩, -⟩ := (hproofs a ha').inputs
    rw [← hn, ← hr]
    exact (hown c hc).1
  receipts := by
    rintro x hx rfl
    obtain ⟨p, hp, hr, hpx⟩ := hreceipts x hx
    obtain ⟨-, n, -, -, -, hw⟩ := proposal_of_ledger ht ha hl hown hp
    rw [← hpx, ← hr]
    exact hw.2

/-- Where the drops are heeded, no dropped node proposes. -/
theorem DropHeeded.proposers (ht : s₀.topology.WellFormed Γ) (ha : AgentsOf Γ s₀.topology s₀.agents)
    (hl : Ledger s₀.topology s) (hown : ∀ c ∈ s.log.commitments, Own Γ s₀ c.nodeId c.round c)
    (h : DropHeeded s₀.topology s₀.scenario round) :
    ∀ p ∈ s.log.proposals, p.round = round → s₀.scenario.hasDropped p.proposer round = false := by
  rintro p hp rfl
  obtain ⟨hprop, n, hn, hcap, hdrop, hw⟩ := proposal_of_ledger ht ha hl hown hp
  rcases h with ⟨q, hq, hd⟩ | ⟨n', cap, hn', hcap', hd | hno⟩
  · obtain rfl : q = p.proposer := Except.ok.inj (hq.symm.trans hprop)
    exact hd
  · obtain rfl : n = n' := Option.some.inj (hn.symm.trans hn')
    rw [hd] at hdrop
    simp at hdrop
  · obtain rfl : n = n' := Option.some.inj (hn.symm.trans hn')
    obtain rfl : cap = p.matchedCapability := Option.some.inj (hcap'.symm.trans hcap)
    exact absurd hw (hno _)

end

/-- The first provider tampers with its proof, and the second one drops before its turn to propose. -/
def Sample.dropsProposer : Scenario :=
  { events := [.injectInvalidProof provider₁ 0, .dropNode provider₂ 0] }

/-- The second provider proposes in the second round. -/
theorem Sample.dropsProposer_run : ∃ out,
    Runtime.run crypto "run" ((runtime OrderedBus.new dropsProposer 2).withRunSalt salt) = .ok out ∧
      out.finalRound = 1 ∧ ∃ p ∈ out.log.proposals, p.round = 1 ∧ p.proposer = provider₂ := by
  obtain ⟨out, hrun, hends, hlog⟩ := run_appends dropsProposer 2 (by decide)
  have hw : winner topology.config dropsProposer gpu 1 = some provider₁ := by decide
  have hfirst : ¬ CleanRound topology.config dropsProposer 0 := not_clean (k := provider₁) (by decide) (by decide)
  have hsecond : CleanRound topology.config dropsProposer 1 :=
    (clean_iff _ _).mpr ⟨by decide, provider₁, hw, by decide, by decide⟩
  obtain ⟨-, hfr⟩ := hends.second (by decide) hfirst hsecond
  refine ⟨out, hrun, hfr, ⟨provider₂, 1, requester, provider₁, gpu⟩, ?_, rfl, rfl⟩
  obtain ⟨_, hclose⟩ := closeLog_eq ((CoordinationLog.new "run").extend (runEntries crypto
    (.starting topology.config agents.agents dropsProposer 2 salt "run") 2 out.finalRound)) out.finalized out.finalRound
  rw [hlog, hclose]
  exact proposal_mem_runEntries (n := requesterConfig) rfl (by decide) rfl (by decide) hw (by decide)
    (by rw [hfr]; exact UInt64.le_refl 1)

/-- A dropped node that proposes when its turn comes. -/
theorem dropped_proposes : ¬ ∀ (Γ : Crypto) (T : LoadedTopology Γ) (L : LoadedAgents Γ T.config) (scenario : Scenario)
    (maxRounds : UInt64) (salt : Bytes 32) (runId : String) (rt : Runtime OrderedBus) (out : RuntimeOutcome),
    Runtime.new T.config OrderedBus.new L.agents scenario maxRounds = .ok rt →
      (rt.withRunSalt salt).run Γ runId = .ok out → ∀ r, Silent scenario out.log r := by
  intro h
  obtain ⟨out, hrun, -, p, hp, hr, hproposer⟩ := Sample.dropsProposer_run
  have hsilent := h Sample.crypto Sample.topology Sample.agents Sample.dropsProposer 2 Sample.salt "run" _ out
    (Sample.new_runtime _ _ _) hrun 1
  have hdrop := hsilent.proposers p hp hr
  rw [hproposer] at hdrop
  exact absurd hdrop (by decide)

/-- **Dropped nodes.** In an in-process run, no record of a round is attributed to a node that has dropped by it, provided the
round's proposer has not dropped or there is nothing to propose in it. Where the limits are kept and the hash has no collision
among the commitments of all agents in all rounds below the maximum, made or not, the condition is exact: in every other round that
ran the dropped proposer proposes. -/
theorem dropped_silent_iff {Γ : Crypto} (T : LoadedTopology Γ) (L : LoadedAgents Γ T.config) (scenario : Scenario)
    (maxRounds : UInt64) (salt : Bytes 32) (runId : String) {rt : Runtime OrderedBus} {out : RuntimeOutcome}
    (hnew : Runtime.new T.config OrderedBus.new L.agents scenario maxRounds = .ok rt)
    (hrun : (rt.withRunSalt salt).run Γ runId = .ok out) :
    (∀ r, DropHeeded T.config scenario r → Silent scenario out.log r) ∧
      (FitsLimits T.config → CollisionFree Γ L.agents salt maxRounds → ∀ r, r ≤ out.finalRound → r < maxRounds →
        (Silent scenario out.log r ↔ DropHeeded T.config scenario r)) := by
  have hholds : ∀ r, DropHeeded T.config scenario r → Silent scenario out.log r := by
    intro r hr
    obtain ⟨s', hlog, -, hend⟩ := inProcess_run T L scenario maxRounds salt runId hnew hrun
    obtain ⟨_, hclose⟩ := closeLog_eq s'.log out.finalized out.finalRound
    have hs' : Silent scenario s'.log r := by
      rcases hend with ⟨-, s, hin, hend⟩ | ⟨-, hin⟩
      · have hl := hend.inRound.ledger.1
        have hown := hend.inRound.logged_own
        obtain ⟨p, -, hlast, -, hreceipts⟩ := hend.final rfl
        obtain ⟨hp, hround⟩ := CoordinationLog.proposalOf_some hlast
        refine silent_of_proposers T.wellFormed L.agentsOf hl hown (fun a ha => (hend.proofs a ha).1) ?_
          (DropHeeded.proposers T.wellFormed L.agentsOf hl hown hr)
        intro x hx
        rw [hreceipts, hin.before.receipts, List.nil_append] at hx
        rw [List.mem_singleton.mp hx]
        exact ⟨p, hp, hround, rfl⟩
      · have hl := hin.before.ledger
        have hown := hin.logged_own
        refine silent_of_proposers T.wellFormed L.agentsOf hl hown (fun a ha => (hin.proofs a ha).1) ?_
          (DropHeeded.proposers T.wellFormed L.agentsOf hl hown hr)
        intro x hx
        rw [hin.before.receipts] at hx
        exact absurd hx List.not_mem_nil
    rw [hlog, hclose]
    exact ⟨hs'.commitments, hs'.proposers, hs'.candidates, hs'.proofs, hs'.receipts⟩
  refine ⟨hholds, ?_⟩
  intro hfit hcf r hle hlt
  refine ⟨?_, hholds r⟩
  intro hsilent
  by_contra hheeded
  obtain ⟨n, hn, hmem, hrole, -⟩ := T.wellFormed.requester_unique
  obtain ⟨cap, -, hcap, -⟩ := T.wellFormed.required n hmem hrole
  obtain ⟨q, -, hq⟩ := T.wellFormed.deterministicProposer_eq r
  have hd : scenario.hasDropped n.id r = false := by
    rw [← Bool.not_eq_true]
    intro hd
    exact hheeded (Or.inr ⟨n, cap, hn, hcap, Or.inl hd⟩)
  cases hw : winner T.config scenario cap r with
  | none => exact hheeded (Or.inr ⟨n, cap, hn, hcap, Or.inr (winner_eq_none.mp hw)⟩)
  | some k =>
    -- the round has a match, so the log has the proposal of the round's proposer
    have hbuild : Buildable Γ (.starting T.config L.agents scenario maxRounds salt runId) :=
      FitsLimits.buildable hfit T.wellFormed L.agentsOf
    obtain ⟨out', hrun', -, hlog⟩ := run_appends T L scenario maxRounds salt runId hbuild hcf hnew
    obtain rfl : out = out' := Except.ok.inj (hrun.symm.trans hrun')
    have h0 : maxRounds ≠ 0 := by
      rintro rfl
      exact UInt64.not_lt_zero hlt
    have hlogged : ⟨q, r, n.id, k, cap⟩ ∈ out.log.proposals := by
      obtain ⟨_, hclose⟩ := closeLog_eq ((CoordinationLog.new runId).extend
        (runEntries Γ (.starting T.config L.agents scenario maxRounds salt runId) maxRounds out.finalRound))
        out.finalized out.finalRound
      rw [hlog, hclose]
      exact proposal_mem_runEntries hn hd hcap hq hw h0 hle
    exact hheeded (Or.inl ⟨q, hq, hsilent.proposers _ hlogged rfl⟩)

/-- The run whose second proposer has dropped: its first round is silent, its second is not. -/
theorem dropped_silent_sample : ∃ out,
    Runtime.run Sample.crypto "run" ((Sample.runtime OrderedBus.new Sample.dropsProposer 2).withRunSalt Sample.salt) = .ok out ∧
      Silent Sample.dropsProposer out.log 0 ∧ ¬ DropHeeded Sample.topology.config Sample.dropsProposer 1 := by
  obtain ⟨out, hrun, hfr, p, hp, hr, hproposer⟩ := Sample.dropsProposer_run
  have hfree : CollisionFree Sample.crypto Sample.agents.agents Sample.salt 2 :=
    Sample.collisionFree.mono (by decide)
  obtain ⟨hholds, hexact⟩ := dropped_silent_iff Sample.topology Sample.agents Sample.dropsProposer 2 Sample.salt "run"
    (Sample.new_runtime _ _ _) hrun
  refine ⟨out, hrun, hholds 0 (Or.inl ⟨Sample.provider₁, by decide, by decide⟩), ?_⟩
  rw [← hexact Sample.fitsLimits hfree 1 (by rw [hfr]; decide) (by decide)]
  intro hsilent
  have hdrop := hsilent.proposers p hp hr
  rw [hproposer] at hdrop
  exact absurd hdrop (by decide)

end VertexVeil
