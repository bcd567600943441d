import VertexVeil.Lemmas.Trace

/-!
# Helpers for `Theorems/Trace.lean`: the log of an in-process run

Each round appends its `entries`, so a run that returns has in its log the entries of its rounds and nothing else. What they say
of a round's rejections is, up to their order, what an auditor expects.
-/

namespace VertexVeil

open Codec RuntimeState

section

variable {Γ : Crypto} {s₀ s s' : RuntimeState} {round rounds : RoundId}

/-! ## Runs -/

theorem Traced.start (t : TopologyConfig) (agents : Agents) (scenario : Scenario) (maxRounds : UInt64) (salt : Bytes 32)
    (runId : String) : Traced Γ (.starting t agents scenario maxRounds salt runId)
      (.starting t agents scenario maxRounds salt runId) where
  kept := .start t agents scenario maxRounds salt runId
  log := (CoordinationLog.extend_empty _).symm
  remembered n r c := by
    constructor
    · intro hc
      simp [starting, initial] at hc
    · rintro ⟨hr, -⟩
      exact absurd hr UInt64.not_lt_zero

/-- A round that falls back leads to the next one. -/
theorem Traced.fallback (ht : s₀.topology.WellFormed Γ) (ha : AgentsOf Γ s₀.topology s₀.agents) (hloc : AllLocal s₀)
    (hbuild : Buildable Γ s₀) (hcf : CollisionFree Γ s₀.agents s₀.runSalt rounds) (h : Traced Γ s₀ s)
    (hlt : s.roundMachine.current < rounds) (he : RoundEnds Γ inProcess s.roundMachine.current s .fallback s')
    {m' : RoundMachine} (hadv : s'.roundMachine.advanceFallback = some (.ok (), m')) :
    Traced Γ s₀ { s' with roundMachine := m' } := by
  have hkept := h.kept.fallback ht ha hloc he hadv
  have hlog := h.roundEnds ht ha hloc hbuild hcf hlt he
  obtain ⟨s₁, h₁, hsame⟩ := he.committed
  obtain ⟨-, hremembered⟩ := h.commitmentsDone ht ha hbuild hcf hlt h₁
  obtain ⟨rfl, hnext⟩ := RoundMachine.advanceFallback_ok hadv
  have hcur := he.frame.current
  refine ⟨hkept, ?_, ?_⟩
  · change s'.log = s₀.log.extend (entriesBelow Γ s₀ (s'.roundMachine.current + 1))
    rw [entriesBelow_succ Γ s₀ hnext, hcur, ← CoordinationLog.extend_extend, ← h.log]
    exact hlog
  · intro n r c
    change s'.historicalCommitments (n, r) = some c ↔ r < s'.roundMachine.current + 1 ∧ Own Γ s₀ n r c
    have hlt' : r < s'.roundMachine.current + 1 ↔ r ≤ s.roundMachine.current := by
      rw [UInt64.lt_iff_toNat_lt, UInt64.le_iff_toNat_le, hnext, hcur]
      exact Nat.lt_succ_iff
    rw [hsame.remembered, hlt']
    exact hremembered n r c

/-- How a run that returns ends: in the first clean round, or after its last one when none is clean. -/
def EndsAt (t : TopologyConfig) (scenario : Scenario) (rounds : RoundId) (fin : Bool) (r : RoundId) : Prop :=
  (fin = true ∧ IsLeast {r | r < rounds ∧ CleanRound t scenario r} r) ∨
    (fin = false ∧ (∀ r, r < rounds → ¬ CleanRound t scenario r) ∧ (rounds = 0 ∧ r = 0 ∨ r.toNat + 1 = rounds.toNat))

theorem EndsAt.unique {t : TopologyConfig} {scenario : Scenario} {fin fin' : Bool} {r r' : RoundId}
    (h : EndsAt t scenario rounds fin r) (h' : EndsAt t scenario rounds fin' r') : fin = fin' ∧ r = r' := by
  rcases h with ⟨rfl, hleast⟩ | ⟨rfl, hnone, hlast⟩
  · rcases h' with ⟨rfl, hleast'⟩ | ⟨rfl, hnone', -⟩
    · exact ⟨rfl, UInt64.le_antisymm (hleast.2 hleast'.1) (hleast'.2 hleast.1)⟩
    · exact absurd hleast.1.2 (hnone' r hleast.1.1)
  · rcases h' with ⟨rfl, hleast'⟩ | ⟨rfl, -, hlast'⟩
    · exact absurd hleast'.1.2 (hnone r' hleast'.1.1)
    · refine ⟨rfl, UInt64.toNat_inj.mp ?_⟩
      rcases hlast with ⟨rfl, rfl⟩ | hlast
      · rcases hlast' with ⟨-, rfl⟩ | hlast'
        · rfl
        · simp at hlast'
      · rcases hlast' with ⟨rfl, -⟩ | hlast'
        · simp at hlast
        · omega

theorem EndsAt.lt {t : TopologyConfig} {scenario : Scenario} {fin : Bool} {r : RoundId} (h : EndsAt t scenario rounds fin r)
    (h0 : rounds ≠ 0) : r < rounds := by
  rcases h with ⟨-, hleast⟩ | ⟨-, -, ⟨hz, -⟩ | hlast⟩
  · exact hleast.1.1
  · exact absurd hz h0
  · rw [UInt64.lt_iff_toNat_lt]
    omega

/-- A run of which the second round is the first clean one ends in it. -/
theorem EndsAt.second {t : TopologyConfig} {scenario : Scenario} {fin : Bool} {r : RoundId} (h : EndsAt t scenario rounds fin r)
    (hlt : 1 < rounds) (h0 : ¬ CleanRound t scenario 0) (h1 : CleanRound t scenario 1) : fin = true ∧ r = 1 := by
  refine h.unique (Or.inl ⟨rfl, ⟨hlt, h1⟩, ?_⟩)
  rintro k ⟨-, hk⟩
  rw [UInt64.le_iff_toNat_le]
  refine Nat.one_le_iff_ne_zero.mpr fun hz => h0 ?_
  rwa [← UInt64.toNat_inj.mp (hz.trans UInt64.toNat_zero.symm)]

/-- What the rounds of a run append, up to the last one. -/
def runEntries (Γ : Crypto) (s₀ : RuntimeState) (rounds finalRound : RoundId) : Entries :=
  if rounds = 0 then {} else entriesBelow Γ s₀ finalRound ++ entries Γ s₀ finalRound

/-- How a run ends, from what its rounds return. -/
theorem EndsAt.of_returns {t : TopologyConfig} {scenario : Scenario} {fin : Bool} {r : RoundId} {matched : Prop}
    (h : (fin = true ∧ matched ∧ IsLeast {r | 0 ≤ r ∧ r < rounds ∧ CleanRound t scenario r} r) ∨
      (fin = false ∧ (∀ r, 0 ≤ r → r < rounds → ¬ CleanRound t scenario r) ∧
        (rounds.toNat = 0 ∧ r = 0 ∨ r.toNat + 1 = rounds.toNat))) : EndsAt t scenario rounds fin r := by
  rcases h with ⟨rfl, -, hleast⟩ | ⟨rfl, hnone, hlast⟩
  · refine Or.inl ⟨rfl, hleast.1.2, ?_⟩
    rintro r ⟨hr, hclean⟩
    exact hleast.2 ⟨UInt64.zero_le, hr, hclean⟩
  · refine Or.inr ⟨rfl, fun r hr => hnone r UInt64.zero_le hr, ?_⟩
    rcases hlast with ⟨h0, rfl⟩ | hlast
    · exact Or.inl ⟨UInt64.toNat_inj.mp h0, rfl⟩
    · exact Or.inr hlast

/-- The states a run enters up to its last round are traced. -/
theorem Traced.next (ht : s₀.topology.WellFormed Γ) (ha : AgentsOf Γ s₀.topology s₀.agents) (hloc : AllLocal s₀)
    (hbuild : Buildable Γ s₀) (hcf : CollisionFree Γ s₀.agents s₀.runSalt rounds)
    (hs : s.roundMachine.current ≤ rounds → Traced Γ s₀ s) (he : RoundEnds Γ inProcess s.roundMachine.current s .fallback s')
    {m' : RoundMachine} (hadv : s'.roundMachine.advanceFallback = some (.ok (), m')) (hle : m'.current ≤ rounds) :
    Traced Γ s₀ { s' with roundMachine := m' } := by
  have hadv' := hadv
  obtain ⟨rfl, hnext⟩ := RoundMachine.advanceFallback_ok hadv'
  have hlt : s.roundMachine.current < rounds := by
    rw [UInt64.le_iff_toNat_le] at hle
    rw [UInt64.lt_iff_toNat_lt, ← he.frame.current]
    change (s'.roundMachine.current + 1).toNat ≤ _ at hle
    omega
  exact (hs (UInt64.le_of_lt hlt)).fallback ht ha hloc hbuild hcf hlt he hadv

/-- An in-process run whose commitments are built and have no collisions returns, and its log is what its rounds append. -/
theorem run_appends (T : LoadedTopology Γ) (L : LoadedAgents Γ T.config) (scenario : Scenario) (maxRounds : UInt64)
    (salt : Bytes 32) (runId : String) {rt : Runtime OrderedBus}
    (hbuild : Buildable Γ (.starting T.config L.agents scenario maxRounds salt runId))
    (hcf : CollisionFree Γ L.agents salt maxRounds)
    (hnew : Runtime.new T.config OrderedBus.new L.agents scenario maxRounds = .ok rt) :
    ∃ out, (rt.withRunSalt salt).run Γ runId = .ok out ∧ EndsAt T.config scenario maxRounds out.finalized out.finalRound ∧
      out.log = Runtime.closeLog ((CoordinationLog.new runId).extend
        (runEntries Γ (.starting T.config L.agents scenario maxRounds salt runId) maxRounds out.finalRound))
          out.finalized out.finalRound := by
  obtain rfl := Runtime.new_eq_ok hnew
  have ht := T.wellFormed
  have hloc : AllLocal (.starting T.config L.agents scenario maxRounds salt runId) := fun n hn =>
    L.mem_agents.mpr ⟨n, hn, rfl⟩
  obtain ⟨rt', fin, fr, hrounds, hres⟩ := runRounds_returns maxRounds 0 (k := maxRounds.toNat)
    T.wellFormed L.agentsOf hloc hbuild hcf rfl (.start T.config L.agents scenario maxRounds salt runId)
    (Nat.zero_add maxRounds.toNat)
  have hends : EndsAt T.config scenario maxRounds fin fr := EndsAt.of_returns hres
  refine ⟨_, Runtime.run_of_rounds hrounds, hends, ?_⟩
  by_cases h0 : maxRounds = 0
  · subst h0
    obtain ⟨rfl, -⟩ := Prod.mk.inj (Except.ok.inj hrounds)
    rw [runEntries, if_pos rfl, CoordinationLog.extend_empty]
    rfl
  rw [runEntries, if_neg h0]
  -- a state before a round of the run is traced: the rounds before it are rounds of the run
  have hspec := Runtime.runRounds_spec OrderedBus.delivers
    (P := fun s => s.roundMachine.current ≤ maxRounds →
      Traced Γ (.starting T.config L.agents scenario maxRounds salt runId) s)
    (fun _ _ _ hs he hadv hle => Traced.next ht L.agentsOf hloc hbuild hcf hs he hadv hle) rfl (fun _ => .start ..) hrounds
  rcases hspec with ⟨rfl, s, hs, rfl, he⟩ | ⟨rfl, hs, hlast⟩
  · have hlt : s.roundMachine.current < maxRounds := hends.lt h0
    have htraced := hs (UInt64.le_of_lt hlt)
    have hlog := htraced.roundEnds ht L.agentsOf hloc hbuild hcf hlt he
    rw [htraced.log, CoordinationLog.extend_extend] at hlog
    rw [hlog]
    rfl
  · have hcur : rt'.state.roundMachine.current.toNat = fr.toNat + 1 := by
      rcases hlast with ⟨hz, -⟩ | hcur
      · exact absurd (UInt64.toNat_inj.mp hz) h0
      · exact hcur
    have hlt : fr.toNat < maxRounds.toNat := UInt64.lt_iff_toNat_lt.mp (hends.lt h0)
    have hnext : (fr + 1).toNat = fr.toNat + 1 := by
      have := maxRounds.toNat_lt
      exact RoundId.toNat_succ (by omega)
    have htraced := hs (UInt64.le_iff_toNat_le.mpr (by omega))
    have hlog := htraced.log
    rw [UInt64.toNat_inj.mp (hcur.trans hnext.symm), entriesBelow_succ _ _ hnext] at hlog
    rw [hlog]
    rfl

/-! ## The rejections of a round -/

theorem rejections_concat (Es : List Entries) : (Entries.concat Es).rejections = Es.flatMap (·.rejections) := rfl

/-- A filter by key, cut by the keys. -/
theorem perm_flatMap_filter {α β : Type} [DecidableEq β] (f : α → β) (xs : List α) {ks : List β} (h : ks.Nodup) :
    (ks.flatMap fun k => xs.filter fun x => f x = k).Perm (xs.filter fun x => f x ∈ ks) := by
  induction ks with
  | nil => simp
  | cons k ks ih =>
    obtain ⟨hk, hks⟩ := List.nodup_cons.mp h
    have hsplit := List.filter_append_perm (fun x => decide (f x = k)) (xs.filter fun x => f x ∈ k :: ks)
    have hhead : (xs.filter fun x => f x ∈ k :: ks).filter (fun x => decide (f x = k)) = xs.filter fun x => f x = k := by
      rw [List.filter_filter]
      refine List.filter_congr ?_
      intro x _
      by_cases hx : f x = k
      · simp [hx]
      · simp [hx]
    have htail : (xs.filter fun x => f x ∈ k :: ks).filter (fun x => !decide (f x = k)) = xs.filter fun x => f x ∈ ks := by
      rw [List.filter_filter]
      refine List.filter_congr ?_
      intro x _
      by_cases hx : f x = k
      · simp [hx, hk]
      · simp [hx]
    rw [hhead, htail] at hsplit
    rw [List.flatMap_cons]
    exact ((ih hks).append_left _).trans hsplit

/-- The rejections of one node's messages are the records of its events. -/
theorem injected_perm (scenario : Scenario) (n : NodeId) : (injected round scenario n).Perm
    ((scenario.events.filter fun e => e.node = n).filterMap (ScenarioEvent.record scenario round)) := by
  have hreplays : (scenario.events.filter fun e => e.node = n ∧ e.isReplay = true) =
      (scenario.events.filter fun e => e.node = n).filter ScenarioEvent.isReplay := by
    rw [List.filter_filter]
    refine List.filter_congr ?_
    intro e _
    by_cases he : e.isReplay = true <;> simp [he]
  have hothers : (scenario.events.filter fun e => e.node = n ∧ e.isReplay = false) =
      (scenario.events.filter fun e => e.node = n).filter (fun e => !e.isReplay) := by
    rw [List.filter_filter]
    refine List.filter_congr ?_
    intro e _
    by_cases he : e.isReplay = true <;> simp [he]
  rw [injected, ← List.filterMap_append, hreplays, hothers]
  exact (List.filter_append_perm _ _).filterMap _

/-- The agents are those of the topology's nodes. -/
def AllAgents (s : RuntimeState) : Prop := ∀ n, n ∈ s.agents ↔ ∃ node ∈ s.topology.nodes, node.id = n

theorem AllAgents.keys_perm (ht : s.topology.WellFormed Γ) (h : AllAgents s) :
    s.agents.keys.Perm (s.topology.nodes.map (·.id)) := by
  have hnd : s.agents.keys.Nodup := Std.TreeMap.nodup_keys
  rw [List.perm_ext_iff_of_nodup hnd ht.nodup]
  intro n
  rw [Std.TreeMap.mem_keys, h n, List.mem_map]

/-- The rejections of the commitment phase: dropped nodes, and the records of the nodes' events. -/
theorem commitEntries_rejections (ht : s₀.topology.WellFormed Γ) (hall : AllAgents s₀) :
    (commitEntries Γ s₀ round).rejections.Perm
      ((s₀.topology.nodes.filter fun n => s₀.scenario.hasDropped n.id round).map (fun n => droppedRecord round n.id) ++
        (s₀.scenario.events.filter fun e => ∃ n ∈ s₀.topology.nodes, n.id = e.node).filterMap
          (ScenarioEvent.record s₀.scenario round)) := by
  have hkeys := hall.keys_perm ht
  have hnd : s₀.agents.keys.Nodup := Std.TreeMap.nodup_keys
  refine List.Perm.append ?_ ?_
  · have hdropped := (hkeys.filter fun n => s₀.scenario.hasDropped n round).map (droppedRecord round)
    rw [List.filter_map, List.map_map] at hdropped
    exact hdropped
  · rw [rejections_concat, List.flatMap_map]
    have hnodes : (s₀.agents.keys.flatMap fun n => injected round s₀.scenario n).Perm (s₀.agents.keys.flatMap fun n =>
        (s₀.scenario.events.filter fun e => e.node = n).filterMap (ScenarioEvent.record s₀.scenario round)) :=
      List.Perm.flatMap_left _ fun n _ => injected_perm s₀.scenario n
    have hevents := (perm_flatMap_filter ScenarioEvent.node s₀.scenario.events hnd).filterMap
      (ScenarioEvent.record s₀.scenario round)
    rw [List.filterMap_flatMap] at hevents
    have hmem : (s₀.scenario.events.filter fun e => e.node ∈ s₀.agents.keys) =
        s₀.scenario.events.filter fun e => ∃ n ∈ s₀.topology.nodes, n.id = e.node := by
      refine List.filter_congr ?_
      intro e _
      rw [decide_eq_decide, Std.TreeMap.mem_keys, hall]
    rw [hmem] at hevents
    exact hnodes.trans hevents

theorem receiptEntries_rejections (p : ProposalRecord) : (receiptEntries Γ s₀ round p).rejections = [] := by
  unfold receiptEntries
  split <;> rfl

theorem proofEntries_rejections (n : NodeId) (c : CommitmentRecord) : (proofEntries Γ s₀ round n c).rejections =
    if (n, round) ∈ s₀.invalidProofSchedule then [tamperedRecord round n] else [] := by
  unfold proofEntries
  split <;> rfl

/-- The rejections after the commitment phase. -/
theorem closingEntries_rejections (hall : AllAgents s₀) (hbuild : Buildable Γ s₀) (ht : s₀.topology.WellFormed Γ)
    (hsch : s₀.invalidProofSchedule = s₀.scenario.invalidProofs) :
    (closingEntries Γ s₀ round).rejections = closingRejections s₀.topology s₀.scenario round := by
  have hown : ∀ n ∈ s₀.agents, s₀.scenario.hasDropped n round = false → ∃ c, ownCommitment Γ s₀ round n = some c := by
    intro n hn hd
    obtain ⟨c, hc⟩ := hbuild n hn round
    exact ⟨c, ownCommitment_own ⟨hd, hc⟩⟩
  obtain ⟨n, hn, hmem, hrole, -⟩ := ht.requester_unique
  obtain ⟨cap, -, hcap, -⟩ := ht.required n hmem hrole
  obtain ⟨q, -, hq⟩ := ht.deterministicProposer_eq round
  have hnagent : n.id ∈ s₀.agents := (hall _).mpr ⟨n, hmem, rfl⟩
  by_cases hd : s₀.scenario.hasDropped n.id round = true
  · rw [closingEntries_missing hn hd]
    simp only [closingRejections, hn, hd, if_true]
  · have hd : s₀.scenario.hasDropped n.id round = false := by simpa using hd
    cases hw : winner s₀.topology s₀.scenario cap round with
    | none =>
      rw [closingEntries_infeasible hn hd hcap hq hw]
      simp only [closingRejections, hn, hd, Bool.false_eq_true, if_false, hcap, Option.bind_some, hw, hq]
    | some k =>
      obtain ⟨⟨⟨m, hm, rfl, -⟩, hkd⟩, -⟩ := winner_isLeast hw
      obtain ⟨cr, hcr⟩ := hown n.id hnagent hd
      obtain ⟨cp, hcp⟩ := hown m.id ((hall _).mpr ⟨m, hm, rfl⟩) hkd
      rw [closingEntries_match (p := ⟨q, round, n.id, m.id, cap⟩) hn hd hcap hq rfl rfl hw, matchEntries]
      simp only [Entries.rejections_append, receiptEntries_rejections, hcr, hcp, Option.elim_some, proofEntries_rejections,
        List.append_nil, closingRejections, hn, hd, Bool.false_eq_true, if_false, hcap, Option.bind_some, hw, hsch]
      by_cases h1 : (n.id, round) ∈ s₀.scenario.invalidProofs <;> by_cases h2 : (m.id, round) ∈ s₀.scenario.invalidProofs <;>
        simp [h1, h2]

/-- What a round records as rejected is, in some order, what an auditor expects of it. -/
theorem entries_rejections (hall : AllAgents s₀) (hbuild : Buildable Γ s₀) (ht : s₀.topology.WellFormed Γ)
    (hsch : s₀.invalidProofSchedule = s₀.scenario.invalidProofs) :
    (entries Γ s₀ round).rejections.Perm (expectedRejections s₀.topology s₀.scenario round) := by
  rw [entries, Entries.rejections_append, expectedRejections, closingEntries_rejections hall hbuild ht hsch]
  exact (commitEntries_rejections ht hall).append_right _

theorem round_of_record {scenario : Scenario} {e : ScenarioEvent} {rj : RejectionRecord}
    (h : ScenarioEvent.record scenario round e = some rj) : rj.round = round := by
  cases e with
  | replayPriorCommitment n r' k =>
    simp only [ScenarioEvent.record, Option.ite_none_right_eq_some, Option.some.injEq] at h
    rw [← h.2]
  | doubleCommit n r' =>
    simp only [ScenarioEvent.record, Option.ite_none_right_eq_some, Option.some.injEq] at h
    rw [← h.2]
  | dropNode n r' => simp [ScenarioEvent.record] at h
  | injectInvalidProof n r' => simp [ScenarioEvent.record] at h

theorem round_of_mem_closing {t : TopologyConfig} {scenario : Scenario} {rj : RejectionRecord}
    (h : rj ∈ closingRejections t scenario round) : rj.round = round := by
  unfold closingRejections at h
  split at h
  · exact absurd h List.not_mem_nil
  · split at h
    · rw [List.mem_singleton.mp h]
    · split at h
      · split at h
        · exact absurd h List.not_mem_nil
        · rw [List.mem_singleton.mp h]
      · obtain ⟨n, -, rfl⟩ := List.mem_map.mp h
        rfl

/-- What is expected of a round is labelled with it. -/
theorem round_of_mem_expected {t : TopologyConfig} {scenario : Scenario} {rj : RejectionRecord}
    (h : rj ∈ expectedRejections t scenario round) : rj.round = round := by
  rcases List.mem_append.mp h with h | h
  · rcases List.mem_append.mp h with h | h
    · obtain ⟨n, -, rfl⟩ := List.mem_map.mp h
      rfl
    · obtain ⟨e, -, he⟩ := List.mem_filterMap.mp h
      exact round_of_record he
  · exact round_of_mem_closing h

/-- Of lists laid end to end, those elements that belong to one of them. -/
theorem filter_flatMap_range {α : Type} {f : Nat → List α} {p : α → Bool} {n r : Nat} (hr : r < n)
    (h : ∀ k, k < n → ∀ a ∈ f k, p a = decide (k = r)) : ((List.range n).flatMap f).filter p = f r := by
  induction n with
  | zero => exact absurd hr (Nat.not_lt_zero r)
  | succ n ih =>
    rw [List.range_succ, List.flatMap_append, List.filter_append, List.flatMap_singleton]
    by_cases hn : r = n
    · subst hn
      have hlast : (f r).filter p = f r := by
        rw [List.filter_eq_self]
        intro a ha
        simpa using h r (Nat.lt_succ_self r) a ha
      have hbefore : ((List.range r).flatMap f).filter p = [] := by
        rw [List.filter_eq_nil_iff]
        intro a ha
        obtain ⟨k, hk, ha⟩ := List.mem_flatMap.mp ha
        have hk := List.mem_range.mp hk
        rw [h k (Nat.lt_succ_of_lt hk) a ha]
        simpa using Nat.ne_of_lt hk
      rw [hbefore, hlast, List.nil_append]
    · have hlast : (f n).filter p = [] := by
        rw [List.filter_eq_nil_iff]
        intro a ha
        rw [h n (Nat.lt_succ_self n) a ha]
        simpa using fun he => hn he.symm
      rw [ih (by omega) (fun k hk => h k (Nat.lt_succ_of_lt hk)), hlast, List.append_nil]

/-- The rounds up to the last one, laid end to end. -/
theorem runEntries_eq (h0 : rounds ≠ 0) (r : RoundId) : runEntries Γ s₀ rounds r =
    Entries.concat ((List.range (r.toNat + 1)).map fun k => entries Γ s₀ (UInt64.ofNat k)) := by
  rw [runEntries, if_neg h0, List.range_succ, List.map_append, List.map_singleton, Entries.concat_append_singleton,
    UInt64.ofNat_toNat]
  rfl

/-- What a run that ends as it should appends is what some round of it appends. -/
theorem mem_runEntries {t : TopologyConfig} {scenario : Scenario} {fin : Bool} {fr : RoundId}
    (hends : EndsAt t scenario rounds fin fr) {α : Type} {f : Entries → List α}
    (hf : ∀ Es, f (Entries.concat Es) = Es.flatMap f) {a : α} (h : a ∈ f (runEntries Γ s₀ rounds fr)) :
    ∃ r, r ≤ fr ∧ r < rounds ∧ a ∈ f (entries Γ s₀ r) := by
  by_cases h0 : rounds = 0
  · rw [runEntries, if_pos h0] at h
    have hnil : f {} = [] := hf []
    rw [hnil] at h
    exact absurd h List.not_mem_nil
  · rw [runEntries_eq h0, hf, List.flatMap_map] at h
    obtain ⟨k, hk, ha⟩ := List.mem_flatMap.mp h
    have hk := Nat.le_of_lt_succ (List.mem_range.mp hk)
    have hfr := fr.toNat_lt
    have hkn : (UInt64.ofNat k).toNat = k := UInt64.toNat_ofNat_of_lt' (Nat.lt_of_le_of_lt hk hfr)
    have hle : UInt64.ofNat k ≤ fr := by
      rw [UInt64.le_iff_toNat_le, hkn]
      exact hk
    exact ⟨UInt64.ofNat k, hle, UInt64.lt_of_le_of_lt hle (hends.lt h0), ha⟩

/-- What a round of a run appends, the run does. -/
theorem mem_runEntries_of_mem (h0 : rounds ≠ 0) {r fr : RoundId} (hle : r ≤ fr) {α : Type} {f : Entries → List α}
    (hf : ∀ Es, f (Entries.concat Es) = Es.flatMap f) {a : α} (h : a ∈ f (entries Γ s₀ r)) :
    a ∈ f (runEntries Γ s₀ rounds fr) := by
  rw [runEntries_eq h0, hf, List.flatMap_map]
  refine List.mem_flatMap.mpr ⟨r.toNat, List.mem_range.mpr (Nat.lt_succ_of_le (UInt64.le_iff_toNat_le.mp hle)), ?_⟩
  rw [UInt64.ofNat_toNat]
  exact h

/-- Of what a run records as rejected, the records of one of its rounds. -/
theorem filter_runEntries (hall : AllAgents s₀) (hbuild : Buildable Γ s₀) (ht : s₀.topology.WellFormed Γ)
    (hsch : s₀.invalidProofSchedule = s₀.scenario.invalidProofs) (h0 : rounds ≠ 0) {r fr : RoundId} (hr : r ≤ fr) :
    ((runEntries Γ s₀ rounds fr).rejections.filter fun rj => rj.round = r).Perm
      (expectedRejections s₀.topology s₀.scenario r) := by
  have hcut : (runEntries Γ s₀ rounds fr).rejections.filter (fun rj => rj.round = r) = (entries Γ s₀ r).rejections := by
    rw [runEntries_eq h0, rejections_concat, List.flatMap_map]
    have hrange : r.toNat < fr.toNat + 1 := Nat.lt_succ_of_le (UInt64.le_iff_toNat_le.mp hr)
    rw [filter_flatMap_range hrange, UInt64.ofNat_toNat]
    intro k hk rj hrj
    have hfr := fr.toNat_lt
    have hround := round_of_mem_expected ((entries_rejections hall hbuild ht hsch).mem_iff.mp hrj)
    have hkn : (UInt64.ofNat k).toNat = k := UInt64.toNat_ofNat_of_lt' (by change k < 2 ^ 64; omega)
    rw [decide_eq_decide, hround, ← UInt64.toNat_inj, hkn]
  rw [hcut]
  exact entries_rejections hall hbuild ht hsch

/-! ## The commitments and the proposals of a round -/

/-- The phases after a proposal append no commitment, and no other proposal. -/
theorem matchEntries_proposals (p : ProposalRecord) :
    (matchEntries Γ s₀ round p).commitments = [] ∧ (matchEntries Γ s₀ round p).proposals = [p] := by
  have hproof : ∀ n, ((ownCommitment Γ s₀ round n).elim {} (proofEntries Γ s₀ round n)).commitments = [] ∧
      ((ownCommitment Γ s₀ round n).elim {} (proofEntries Γ s₀ round n)).proposals = [] := by
    intro n
    cases ownCommitment Γ s₀ round n with
    | none => exact ⟨rfl, rfl⟩
    | some c =>
      simp only [Option.elim_some, proofEntries]
      split <;> exact ⟨rfl, rfl⟩
  have hreceipt : (receiptEntries Γ s₀ round p).commitments = [] ∧ (receiptEntries Γ s₀ round p).proposals = [] := by
    unfold receiptEntries
    split <;> exact ⟨rfl, rfl⟩
  constructor
  · simp only [matchEntries, Entries.commitments_append, (hproof _).1, hreceipt.1, List.append_nil]
  · simp only [matchEntries, Entries.proposals_append, (hproof _).2, hreceipt.2, List.append_nil]

theorem closingEntries_commitments : (closingEntries Γ s₀ round).commitments = [] := by
  unfold closingEntries
  split
  · rfl
  · split
    · rfl
    · split
      · split
        · rfl
        · exact (matchEntries_proposals _).1
      · rfl

/-- The commitments of a round are own commitments. -/
theorem own_of_mem_entries {c : CommitmentRecord} (h : c ∈ (entries Γ s₀ round).commitments) :
    c.round = round ∧ Own Γ s₀ c.nodeId round c := by
  rw [entries, Entries.commitments_append, closingEntries_commitments, List.append_nil, commitEntries,
    Entries.commitments_append, List.nil_append] at h
  obtain ⟨E, hE, hc⟩ := List.mem_flatMap.mp h
  obtain ⟨n, -, rfl⟩ := List.mem_map.mp hE
  have hown := own_of_ownCommitment (Option.mem_toList.mp hc)
  exact ⟨hown.builds.round, hown.builds.nodeId.symm ▸ hown⟩

/-- The proposal of a round is for its winner. -/
theorem winner_of_mem_entries {p : ProposalRecord} (h : p ∈ (entries Γ s₀ round).proposals) :
    p.round = round ∧ winner s₀.topology s₀.scenario p.matchedCapability round = some p.candidateProvider := by
  have hcommit : (commitEntries Γ s₀ round).proposals = [] := by
    simp only [commitEntries, Entries.proposals_append, List.nil_append, Entries.concat, List.flatMap_eq_nil_iff,
      List.mem_map]
    rintro E ⟨n, -, rfl⟩
    rfl
  rw [entries, Entries.proposals_append, hcommit, List.nil_append] at h
  unfold closingEntries at h
  split at h
  · exact absurd h List.not_mem_nil
  · split at h
    · exact absurd h List.not_mem_nil
    · split at h
      · split at h
        · exact absurd h List.not_mem_nil
        · rename_i hw
          rw [(matchEntries_proposals _).2] at h
          rw [List.mem_singleton.mp h]
          exact ⟨rfl, hw⟩
      · exact absurd h List.not_mem_nil

/-- A round with a match has in the log the proposal of its proposer. -/
theorem proposal_mem_runEntries {n : NodeConfig} {q k : NodeId} {cap : CapabilityTag} {r fr : RoundId}
    (hn : s₀.topology.requester = some n) (hd : s₀.scenario.hasDropped n.id r = false) (hcap : n.requiredCapability = some cap)
    (hq : deterministicProposer s₀.topology r = .ok q) (hw : winner s₀.topology s₀.scenario cap r = some k) (h0 : rounds ≠ 0)
    (hle : r ≤ fr) : ⟨q, r, n.id, k, cap⟩ ∈ (runEntries Γ s₀ rounds fr).proposals := by
  refine mem_runEntries_of_mem h0 hle (f := Entries.proposals) (fun _ => rfl) ?_
  have hmatch : closingEntries Γ s₀ r = matchEntries Γ s₀ r ⟨q, r, n.id, k, cap⟩ :=
    closingEntries_match hn hd hcap hq rfl rfl hw
  rw [entries, Entries.proposals_append, hmatch, (matchEntries_proposals _).2]
  exact List.mem_append_right _ (List.mem_singleton.mpr rfl)

end

end VertexVeil
