import VertexVeil.Lemmas.Replay
import VertexVeil.Theorems.Verifier

/-!
# Replaying a valid log

The verifier forgets what the round machine remembers: the hashes of other nodes and rounds, the proposal a round already
has, the role of a proposed provider outside the final round. `replay_accepted_iff` says exactly when a valid log is still
accepted by a fresh machine.
-/

namespace VertexVeil

open Codec CoordinationLog VerifierAux ReplayAux

/-! ## When a valid log replays -/

namespace ReplayAux

variable {log : CoordinationLog}

theorem mem_rounds {r : RoundId} :
    r ∈ log.rounds ↔ (∃ c ∈ log.commitments, c.round = r) ∨ ∃ p ∈ log.proposals, p.round = r := by
  simp [rounds, List.mem_insertionSort]

/-- The rounds of a log are in strictly ascending order. -/
theorem rounds_pairwise : log.rounds.Pairwise (· < ·) := by
  have : Std.Total (α := RoundId) (· ≤ ·) := ⟨UInt64.le_total⟩
  have : IsTrans RoundId (· ≤ ·) := ⟨fun _ _ _ => UInt64.le_trans⟩
  have hs := List.pairwise_insertionSort (r := ((· ≤ ·) : RoundId → RoundId → Prop))
    (log.commitments.map (·.round) ++ log.proposals.map (·.round)).dedup
  have hn : log.rounds.Nodup := (List.perm_insertionSort _ _).nodup_iff.mpr (List.nodup_dedup _)
  refine (hs.and hn).imp ?_
  intro a b h
  exact UInt64.lt_of_le_of_ne h.1 h.2

/-- The hashes of all rounds are the hashes of the log. -/
theorem hashes_nodup_iff : ((log.rounds.flatMap log.commitmentsIn).map (·.commitmentHex)).Nodup ↔
    (log.commitments.map (·.commitmentHex)).Nodup := by
  have hnd : log.rounds.Nodup := rounds_pairwise.imp (fun h => UInt64.ne_of_lt h)
  have hp := flatMap_filter_perm (fun c : CommitmentRecord => c.round) hnd (l := log.commitments)
    (fun c hc => mem_rounds.mpr (Or.inl ⟨c, hc, rfl⟩))
  exact (hp.map _).nodup_iff

theorem lacksRequiredCapability_eq_false {i : PublicIntent} : RoundMachine.lacksRequiredCapability i = false ↔
    ∀ n r cap, i = .requester n r cap → cap.asStr ≠ [] := by
  cases i with
  | provider n r claims => simp [RoundMachine.lacksRequiredCapability]
  | requester n r cap => simp [RoundMachine.lacksRequiredCapability]

/-- Every round has at most one proposal exactly when the rounds of the proposals are distinct. -/
theorem single_iff {ps : List ProposalRecord} :
    (∀ r, (ps.filter (fun p => p.round = r)).length ≤ 1) ↔ (ps.map (·.round)).Nodup := by
  rw [List.nodup_iff_count_le_one]
  refine forall_congr' ?_
  intro r
  rw [List.count_eq_countP, List.countP_map, List.countP_eq_length_filter]
  refine iff_of_eq (congrArg (fun l => List.length l ≤ 1) (List.filter_congr ?_))
  intro p _
  simp only [Function.comp, beq_eq_decide]

end ReplayAux

/-- A valid log of an equivocating proposer: two proposals in the final round, the second one carried through. -/
def equivocatedLog : CoordinationLog :=
  { Sample.log₂ with proposals := [Sample.proposal Sample.provider₁, Sample.proposal Sample.provider₂] }

/-- The verifier accepts logs the round machine refuses. -/
theorem valid_log_not_replayed : ¬ ∀ (Γ : Crypto) (T : LoadedTopology Γ) (log : CoordinationLog),
    (verifyLog Γ T.config log).valid = true → ∃ m, log.replay T.config = .ok m := by
  intro h
  obtain ⟨m, hm⟩ := h Sample.crypto Sample.topology equivocatedLog (by decide +kernel)
  have hok : (equivocatedLog.replay Sample.topology.config).isOk = false := by decide
  rw [hm] at hok
  simp [Except.isOk, Except.toBool] at hok

/-- **Replay.** A valid log is accepted at every step by a fresh round machine exactly when no commitment hash occurs twice,
no round has two proposals, every proposal names a provider that committed as one, and every requester's commitment names a
capability. -/
theorem replay_accepted_iff {Γ : Crypto} (T : LoadedTopology Γ) (log : CoordinationLog)
    (hv : (verifyLog Γ T.config log).valid = true) : (∃ m, log.replay T.config = .ok m) ↔ log.Replayable := by
  obtain ⟨-, hs, hk, hps, -⟩ := (structureReasons_eq_nil T.wellFormed).mp (structureReasons_of_valid hv)
  have hb : ∀ r ∈ log.rounds.head?, Before (RoundMachine.new T.config 0) r := by
    intro r _
    by_cases h0 : (0 : RoundId) = r
    · exact Or.inl ⟨h0, rfl, rfl⟩
    · exact Or.inr (UInt64.lt_of_le_of_ne (UInt64.zero_le) h0)
  rw [replay, replayRounds_iff T.wellFormed hs hk hps rounds_pairwise rfl hb, hashes_nodup_iff]
  constructor
  · rintro ⟨hh, -, hr⟩
    refine ⟨hh, single_iff.mp (fun r => ?_), fun p hp => ?_, fun c hc => ?_⟩
    · by_cases hm : r ∈ log.rounds
      · exact (hr r hm).single
      · have : log.proposalsIn r = [] := List.eq_nil_iff_forall_not_mem.mpr (fun p hp =>
          hm (mem_rounds.mpr (Or.inr ⟨p, mem_proposalsIn.mp hp⟩)))
        change (log.proposalsIn r).length ≤ 1
        rw [this]
        exact Nat.zero_le 1
    · exact (hr p.round (mem_rounds.mpr (Or.inr ⟨p, hp, rfl⟩))).providers p (mem_proposalsIn.mpr ⟨hp, rfl⟩)
    · exact lacksRequiredCapability_eq_false.mp
        ((hr c.round (mem_rounds.mpr (Or.inl ⟨c, hc, rfl⟩))).capabilities c (mem_commitmentsIn.mpr ⟨hc, rfl⟩))
  · intro h
    refine ⟨h.hashes, fun c _ hm => by simp [RoundMachine.new] at hm, fun r _ => ⟨fun c hc => ?_, ?_, fun p hp => ?_⟩⟩
    · exact lacksRequiredCapability_eq_false.mpr (h.capabilities c (mem_commitmentsIn.mp hc).1)
    · exact single_iff.mpr h.proposals r
    · exact h.providers p (mem_proposalsIn.mp hp).1

/-- The log of a proposer that does not equivocate replays. -/
theorem replay_accepted_sample : ∃ m, Sample.log₂.replay Sample.topology.config = .ok m := by
  refine (replay_accepted_iff Sample.topology Sample.log₂ Sample.log₂_valid).mpr ⟨?_, ?_, ?_, ?_⟩
  · decide
  · decide
  · intro p hp
    rw [List.mem_singleton.mp hp]
    exact ⟨Sample.provider₂Commitment, by decide, by decide, by decide, rfl⟩
  · intro c hc n r cap hi
    have hne : ∀ c ∈ Sample.log₂.commitments, RoundMachine.lacksRequiredCapability c.publicIntent = false := by
      decide
    exact lacksRequiredCapability_eq_false.mp (hne c hc) n r cap hi

end VertexVeil
