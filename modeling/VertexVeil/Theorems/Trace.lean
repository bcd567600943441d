import VertexVeil.Theorems.Progress

/-!
# The rejections of an in-process run

A log is read by auditors who were not there. In an in-process run what it records as rejected is decided by the topology and the
scenario: every record is expected, and every expected record is there.
-/

namespace VertexVeil

open Codec RuntimeState

/-! ## The trace of an in-process run -/

/-- **The trace of an in-process run.** Let the limits be kept and the hash have no collision among the commitments of all agents
in all rounds below the maximum, made or not. Then the run returns, and of every round it ran the rejections in its log are, up to
their order, what the scenario makes one expect; there are no others. What is proposed is a match with the first willing provider,
and the commitments in the log are own commitments of nodes that have not dropped, no two of one node and round and no two of one
digest. -/
theorem forensic_trace {Γ : Crypto} (T : LoadedTopology Γ) (L : LoadedAgents Γ T.config) (scenario : Scenario)
    (maxRounds : UInt64) (salt : Bytes 32) (runId : String) {rt : Runtime OrderedBus} (hfit : FitsLimits T.config)
    (hcf : CollisionFree Γ L.agents salt maxRounds)
    (hnew : Runtime.new T.config OrderedBus.new L.agents scenario maxRounds = .ok rt) :
    ∃ out, (rt.withRunSalt salt).run Γ runId = .ok out ∧
      (∀ r, r ≤ out.finalRound → r < maxRounds →
        (out.log.rejections.filter fun rj => rj.round = r).Perm (expectedRejections T.config scenario r)) ∧
      (∀ rj ∈ out.log.rejections, rj.round ≤ out.finalRound ∧ rj.round < maxRounds) ∧
      (∀ p ∈ out.log.proposals, winner T.config scenario p.matchedCapability p.round = some p.candidateProvider) ∧
      (∀ c ∈ out.log.commitments, Own Γ (rt.withRunSalt salt).state c.nodeId c.round c) ∧
      (out.log.commitments.map (·.key)).Nodup ∧ (out.log.commitments.map (·.commitmentHex)).Nodup := by
  have hbuild : Buildable Γ (.starting T.config L.agents scenario maxRounds salt runId) :=
    FitsLimits.buildable hfit T.wellFormed L.agentsOf
  have hall : AllAgents (.starting T.config L.agents scenario maxRounds salt runId) := fun n => L.mem_agents
  obtain ⟨out, hrun, hends, hlog⟩ := run_appends T L scenario maxRounds salt runId hbuild hcf hnew
  obtain ⟨s', hs', -, hend⟩ := inProcess_run T L scenario maxRounds salt runId hnew hrun
  obtain rfl := Runtime.new_eq_ok hnew
  have hledger : (out.log.commitments.map (·.key)).Nodup := by
    obtain ⟨_, hclose⟩ := closeLog_eq s'.log out.finalized out.finalRound
    rw [hs', hclose]
    rcases hend with ⟨-, s, -, hend⟩ | ⟨-, hin⟩
    · exact hend.inRound.ledger.1.nodup
    · exact hin.before.ledger.nodup
  obtain ⟨_, hclose⟩ := closeLog_eq ((CoordinationLog.new runId).extend
    (runEntries Γ (.starting T.config L.agents scenario maxRounds salt runId) maxRounds out.finalRound))
    out.finalized out.finalRound
  rw [hclose] at hlog
  have hown : ∀ c ∈ out.log.commitments, c.round < maxRounds ∧
      Own Γ (.starting T.config L.agents scenario maxRounds salt runId) c.nodeId c.round c := by
    intro c hc
    rw [hlog] at hc
    obtain ⟨r, -, hlt, hc⟩ := mem_runEntries hends (f := Entries.commitments) (fun _ => rfl) hc
    obtain ⟨hround, hown⟩ := own_of_mem_entries hc
    rw [hround]
    exact ⟨hlt, hown⟩
  refine ⟨out, hrun, ?_, ?_, ?_, fun c hc => (hown c hc).2, hledger, ?_⟩
  · intro r hle hlt
    have h0 : maxRounds ≠ 0 := by
      rintro rfl
      exact UInt64.not_lt_zero hlt
    rw [hlog]
    exact filter_runEntries hall hbuild T.wellFormed rfl h0 hle
  · intro rj hrj
    rw [hlog] at hrj
    obtain ⟨r, hle, hlt, hrj⟩ := mem_runEntries hends (f := Entries.rejections) (fun _ => rfl) hrj
    have hround := round_of_mem_expected ((entries_rejections hall hbuild T.wellFormed rfl).mem_iff.mp hrj)
    rw [hround]
    exact ⟨hle, hlt⟩
  · intro p hp
    rw [hlog] at hp
    obtain ⟨r, -, -, hp⟩ := mem_runEntries hends (f := Entries.proposals) (fun _ => rfl) hp
    obtain ⟨hround, hw⟩ := winner_of_mem_entries hp
    rw [hround]
    exact hw
  · -- a digest determines the node and the round, and the log has one commitment of each
    refine List.Nodup.map_on ?_ (List.Nodup.of_map _ hledger)
    intro c hc d hd he
    obtain ⟨hcr, hcown⟩ := hown c hc
    obtain ⟨hdr, hdown⟩ := hown d hd
    obtain ⟨hn, hr⟩ := own_of_hex L.agentsOf hcf hcr hdr hcown hdown he
    rw [hn, hr] at hcown
    exact hcown.unique hdown

namespace Sample

/-- The first provider tampers with its proof and drops; then a replay and a double commit. -/
def eventful : Scenario :=
  { events := [.injectInvalidProof provider₁ 0, .dropNode provider₁ 0, .replayPriorCommitment requester 1 0,
      .doubleCommit provider₂ 1] }

/-- The eventful run is finalized in the second round. -/
theorem eventful_run : ∃ out,
    Runtime.run crypto "run" ((runtime OrderedBus.new eventful 3).withRunSalt salt) = .ok out ∧ out.finalRound = 1 := by
  obtain ⟨out, hrun, hends, -⟩ := run_appends eventful 3 (UInt64.le_refl 3)
  have hfirst : ¬ CleanRound topology.config eventful 0 := not_clean (k := provider₁) (by decide) (by decide)
  have hsecond : CleanRound topology.config eventful 1 :=
    (clean_iff _ _).mpr ⟨by decide, provider₂, by decide, by decide, by decide⟩
  exact ⟨out, hrun, (hends.second (by decide) hfirst hsecond).2⟩

end Sample

/-- The second round of the eventful run, whose matched provider did not drop. -/
theorem forensic_trace_sample : ∃ out,
    Runtime.run Sample.crypto "run" ((Sample.runtime OrderedBus.new Sample.eventful 3).withRunSalt Sample.salt) = .ok out ∧
      (out.log.rejections.filter fun rj => rj.round = 1).Perm [
        { round := 1, nodeId := Sample.provider₁, kind := "commitment", reasonCode := "node_dropped" },
        { round := 1, nodeId := Sample.requester, kind := "commitment", reasonCode := "replay_detected" },
        { round := 1, nodeId := Sample.provider₂, kind := "commitment", reasonCode := "duplicate_commitment" }] := by
  obtain ⟨out, hrun, htrace, -⟩ := forensic_trace Sample.topology Sample.agents Sample.eventful 3 Sample.salt "run"
    Sample.fitsLimits Sample.collisionFree (Sample.new_runtime _ _ _)
  obtain ⟨out', hrun', hfr⟩ := Sample.eventful_run
  obtain rfl : out = out' := Except.ok.inj (hrun.symm.trans hrun')
  have hperm := htrace 1 (by rw [hfr]; decide) (by decide)
  have hexpected : expectedRejections Sample.topology.config Sample.eventful 1 = [
      { round := 1, nodeId := Sample.provider₁, kind := "commitment", reasonCode := "node_dropped" },
      { round := 1, nodeId := Sample.requester, kind := "commitment", reasonCode := "replay_detected" },
      { round := 1, nodeId := Sample.provider₂, kind := "commitment", reasonCode := "duplicate_commitment" }] := by
    decide
  rw [hexpected] at hperm
  exact ⟨out, hrun, hperm⟩

end VertexVeil
