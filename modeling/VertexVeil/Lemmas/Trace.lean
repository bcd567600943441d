import VertexVeil.Trace
import VertexVeil.Lemmas.Progress

/-!
# Helpers for `Theorems/Trace.lean`: what an in-process round appends

`Traced` says of a state before a round that its log is the start's log with the entries of the earlier rounds, and that the
nodes' own commitments of these rounds are remembered. Each phase appends its part of `entries`, so a round keeps it.
-/

namespace VertexVeil

open Codec RuntimeState

/-! ## Records that are appended -/

namespace Entries

@[simp] theorem commitments_append (E F : Entries) : (E ++ F).commitments = E.commitments ++ F.commitments := rfl

@[simp] theorem proposals_append (E F : Entries) : (E ++ F).proposals = E.proposals ++ F.proposals := rfl

@[simp] theorem proofs_append (E F : Entries) : (E ++ F).proofs = E.proofs ++ F.proofs := rfl

@[simp] theorem receipts_append (E F : Entries) : (E ++ F).receipts = E.receipts ++ F.receipts := rfl

@[simp] theorem rejections_append (E F : Entries) : (E ++ F).rejections = E.rejections ++ F.rejections := rfl

theorem append_eq (E F : Entries) : E ++ F = {
    commitments := E.commitments ++ F.commitments, proposals := E.proposals ++ F.proposals, proofs := E.proofs ++ F.proofs
    receipts := E.receipts ++ F.receipts, rejections := E.rejections ++ F.rejections } := rfl

theorem append_assoc (E F G : Entries) : E ++ F ++ G = E ++ (F ++ G) := by
  simp only [append_eq, List.append_assoc]

theorem append_empty (E : Entries) : E ++ {} = E := by
  simp only [append_eq, List.append_nil]

theorem concat_cons (E : Entries) (Es : List Entries) : concat (E :: Es) = E ++ concat Es := by
  simp only [concat, List.flatMap_cons, append_eq]

theorem concat_append_singleton (E : Entries) (Es : List Entries) : concat (Es ++ [E]) = concat Es ++ E := by
  simp only [concat, List.flatMap_append, List.flatMap_singleton, append_eq]

end Entries

namespace CoordinationLog

theorem extend_empty (log : CoordinationLog) : log.extend {} = log := by
  simp only [extend, List.append_nil, List.map_nil, List.toFinset_nil, Finset.union_empty]

theorem extend_extend (log : CoordinationLog) (E F : Entries) : (log.extend E).extend F = log.extend (E ++ F) := by
  simp only [extend, Entries.append_eq, List.append_assoc, List.map_append, List.toFinset_append, Finset.union_assoc]

theorem appendRejection_eq (log : CoordinationLog) (rj : RejectionRecord) :
    log.appendRejection rj = log.extend { rejections := [rj] } := by
  simp only [extend, appendRejection, List.append_nil, List.map_nil, List.toFinset_nil, Finset.union_empty]

theorem appendProposal_eq (log : CoordinationLog) (p : ProposalRecord) :
    log.appendProposal p = log.extend { proposals := [p] } := by
  simp only [extend, appendProposal, List.append_nil, List.map_nil, List.toFinset_nil, Finset.union_empty]

theorem appendProof_eq (log : CoordinationLog) (a : ProofArtifactRecord) :
    log.appendProof a = log.extend { proofs := [a] } := by
  simp only [extend, appendProof, List.append_nil, List.map_nil, List.toFinset_nil, Finset.union_empty]

theorem appendReceipt_eq (log : CoordinationLog) (r : CompletionReceiptRecord) :
    log.appendReceipt r = log.extend { receipts := [r] } := by
  simp only [extend, appendReceipt, List.append_nil, List.map_nil, List.toFinset_nil, Finset.union_empty]

end CoordinationLog

namespace RuntimeState

/-- A state with records appended to its log. -/
def extendLog (s : RuntimeState) (E : Entries) : RuntimeState := { s with log := s.log.extend E }

theorem extendLog_empty (s : RuntimeState) : s.extendLog {} = s := by
  rw [extendLog, CoordinationLog.extend_empty]

theorem extendLog_extendLog (s : RuntimeState) (E F : Entries) : (s.extendLog E).extendLog F = s.extendLog (E ++ F) := by
  simp only [extendLog, CoordinationLog.extend_extend]

theorem reject_eq (s : RuntimeState) (round : RoundId) (nodeId : NodeId) (kind reasonCode : String) :
    s.reject round nodeId kind reasonCode = s.extendLog { rejections := [{ round, nodeId, kind, reasonCode }] } := by
  simp only [reject, CoordinationLog.appendRejection_eq, extendLog]

end RuntimeState

section

variable {Γ : Crypto} {s₀ s s' x : RuntimeState} {round rounds : RoundId}

theorem entriesBelow_succ (Γ : Crypto) (s₀ : RuntimeState) {r : RoundId} (h : (r + 1).toNat = r.toNat + 1) :
    entriesBelow Γ s₀ (r + 1) = entriesBelow Γ s₀ r ++ entries Γ s₀ r := by
  rw [entriesBelow, h, List.range_succ, List.map_append, List.map_singleton, Entries.concat_append_singleton,
    UInt64.ofNat_toNat]
  rfl

/-- The machine takes an own commitment that it has not seen: it joins the log. -/
theorem log_takeCommitment_eq {t : TopologyConfig} (h : Ledger t x) {c : CommitmentRecord}
    (hc : RoundMachine.Committable x.roundMachine c) :
    (x.takeCommitment c).log = x.log.extend { commitments := [c] } := by
  rw [h.log_takeCommitment hc]
  simp only [CoordinationLog.extend, List.append_nil, List.map_singleton, List.toFinset_cons, List.toFinset_nil]
  congr 1
  rw [Finset.insert_eq, Finset.union_comm]
  rfl

/-! ## Messages that are refused -/

/-- What a commitment of a node of the topology, labelled for the round, says of the node. -/
structure Labelled (m : RoundMachine) (c : CommitmentRecord) : Prop where
  unproposed : m.proposal = none
  round : c.round = m.current
  node : ∃ n, m.topology.findNode c.nodeId = some n ∧ c.publicIntent.role = n.role
  intentRound : c.publicIntent.round = m.current
  intentNode : c.publicIntent.nodeId = c.nodeId

/-- A labelled commitment of a node that has committed is a duplicate. -/
theorem Labelled.duplicate {m : RoundMachine} {c : CommitmentRecord} (h : Labelled m c) (hheld : c.nodeId ∈ m.commitments) :
    m.acceptCommitment c = (.error (.duplicateCommitment m.current), m) := by
  obtain ⟨n, hn, hrole⟩ := h.node
  have hcont : m.commitments.contains c.nodeId = true := Std.TreeMap.contains_iff_mem.mpr hheld
  simp only [RoundMachine.acceptCommitment, h.unproposed, Option.isSome_none, Bool.false_eq_true, if_false, h.round, ne_eq,
    not_true_eq_false, hn, hrole, h.intentRound, h.intentNode, hcont, if_true]

/-- A labelled commitment of a node that has not committed, with a digest that was seen, is a replay. -/
theorem Labelled.replay {m : RoundMachine} {c : CommitmentRecord} (h : Labelled m c) (hfresh : c.nodeId ∉ m.commitments)
    (hseen : c.commitmentHex ∈ m.historyHex) : m.acceptCommitment c = (.error .replayDetected, m) := by
  obtain ⟨n, hn, hrole⟩ := h.node
  have hcont : m.commitments.contains c.nodeId = false := by
    rw [← Bool.not_eq_true, Std.TreeMap.contains_iff_mem]
    exact hfresh
  simp only [RoundMachine.acceptCommitment, h.unproposed, Option.isSome_none, Bool.false_eq_true, if_false, h.round, ne_eq,
    not_true_eq_false, hn, hrole, h.intentRound, h.intentNode, hcont, hseen, if_true]

/-- A refused commitment leaves its code in the log and nothing else. -/
theorem handleCommitment_refused {c : CommitmentRecord} {e : RoundError}
    (h : x.roundMachine.acceptCommitment c = (.error e, x.roundMachine)) :
    handleCommitment round x { origin := c.nodeId, payload := .commitment c } =
      x.reject round c.nodeId "commitment" (roundErrorCode e) := by
  simp only [handleCommitment, ne_eq, not_true_eq_false, if_false, h]

/-- Messages that are all refused with one record each. -/
theorem foldl_refused {batch : List CoordinationMessage} {rj : RejectionRecord}
    (h : ∀ msg ∈ batch, ∀ y : RuntimeState, y.roundMachine = x.roundMachine →
      handleCommitment round y msg = y.extendLog { rejections := [rj] }) :
    batch.foldl (handleCommitment round) x = x.extendLog { rejections := List.replicate batch.length rj } := by
  induction batch generalizing x with
  | nil => exact x.extendLog_empty.symm
  | cons msg batch ih =>
    have hrest := @ih (x.extendLog { rejections := [rj] }) (fun msg hmsg y hy => h msg (List.mem_cons_of_mem _ hmsg) y hy)
    rw [List.foldl_cons, h msg List.mem_cons_self x rfl, hrest, extendLog_extendLog]
    rfl

/-- Messages that are all refused with the same record: as many records as messages. -/
theorem replicate_length_filterMap {α β γ : Type} {f : α → Option β} {g : α → Option γ} {c : γ} {xs : List α}
    (h : ∀ a ∈ xs, g a = (f a).map fun _ => c) : List.replicate (xs.filterMap f).length c = xs.filterMap g := by
  rw [← List.map_const', List.map_filterMap]
  exact (List.filterMap_congr h).symm

/-! ## The messages of one node -/

theorem RuntimeState.Own.labelled (ha : AgentsOf Γ s₀.topology s₀.agents) {m : RoundMachine} {n : NodeId} {c : CommitmentRecord}
    (h : Own Γ s₀ n m.current c) (htopo : m.topology = s₀.topology) (hp : m.proposal = none) : Labelled m c where
  unproposed := hp
  round := h.builds.round
  node := by
    rw [h.builds.nodeId, htopo]
    exact h.builds.role ha
  intentRound := h.builds.intentRound
  intentNode := h.builds.intentNode.trans h.builds.nodeId.symm

theorem role_updateIntentRound (i : PublicIntent) (r : RoundId) : (updateIntentRound i r).role = i.role := by
  cases i <;> rfl

theorem nodeId_updateIntentRound (i : PublicIntent) (r : RoundId) : (updateIntentRound i r).nodeId = i.nodeId := by
  cases i <;> rfl

theorem round_updateIntentRound (i : PublicIntent) (r : RoundId) : (updateIntentRound i r).round = r := by
  cases i <;> rfl

/-- A commitment of an earlier round under the label of this one. -/
theorem RuntimeState.Own.relabelled (ha : AgentsOf Γ s₀.topology s₀.agents) {m : RoundMachine} {n : NodeId} {k : RoundId}
    {c : CommitmentRecord} (h : Own Γ s₀ n k c) (htopo : m.topology = s₀.topology) (hp : m.proposal = none) :
    Labelled m { c with round := m.current, publicIntent := updateIntentRound c.publicIntent m.current } where
  unproposed := hp
  round := rfl
  node := by
    rw [role_updateIntentRound, htopo, h.builds.nodeId]
    exact h.builds.role ha
  intentRound := round_updateIntentRound _ _
  intentNode := by
    rw [nodeId_updateIntentRound, h.builds.intentNode, h.builds.nodeId]

/-- What the runtime remembers of a node before a round: its own commitment of each earlier round in which it had not
dropped. -/
def Remembered (Γ : Crypto) (s₀ : RuntimeState) (round : RoundId) (s : RuntimeState) (n : NodeId) : Prop :=
  ∀ r c, s.historicalCommitments (n, r) = some c ↔ r < round ∧ Own Γ s₀ n r c

/-- The replay of an event, refused: its record. -/
theorem record_replay (hbuild : Buildable Γ s₀) {n : NodeId} (hn : n ∈ s₀.agents) (hrem : Remembered Γ s₀ round s n)
    (k : RoundId) (f : CommitmentRecord → CoordinationMessage) :
    (if k < round ∧ s₀.scenario.hasDropped n k = false then
        some ({ round, nodeId := n, kind := "commitment", reasonCode := "replay_detected" } : RejectionRecord) else none) =
      ((s.historicalCommitments (n, k)).map f).map fun _ =>
        { round, nodeId := n, kind := "commitment", reasonCode := "replay_detected" } := by
  split
  · rename_i hk
    obtain ⟨c, hc⟩ := hbuild n hn k
    rw [(hrem k c).mpr ⟨hk.1, hk.2, hc⟩]
    rfl
  · rename_i hk
    have hnone : s.historicalCommitments (n, k) = none := by
      rw [Option.eq_none_iff_forall_ne_some]
      intro c hc
      obtain ⟨hlt, hown⟩ := (hrem k c).mp hc
      exact hk ⟨hlt, hown.1⟩
    rw [hnone]
    rfl

/-- The replays of a node are refused, each with the record of its event. -/
theorem foldl_replays (ha : AgentsOf Γ s₀.topology s₀.agents) (hbuild : Buildable Γ s₀) (hconf : SameConfig s₀ s) {n : NodeId}
    (hn : n ∈ s₀.agents) (hrem : Remembered Γ s₀ round s n) (hcur : x.roundMachine.current = round)
    (htopo : x.roundMachine.topology = s₀.topology) (hp : x.roundMachine.proposal = none)
    (hfresh : n ∉ x.roundMachine.commitments) (hseen : SeenBefore Γ s₀ round x.roundMachine) :
    (s.replays n round).foldl (handleCommitment round) x = x.extendLog {
      rejections := (s₀.scenario.events.filter fun e => e.node = n ∧ e.isReplay = true).filterMap
        (ScenarioEvent.record s₀.scenario round) } := by
  have hrefused : ∀ msg ∈ s.replays n round, ∀ y : RuntimeState, y.roundMachine = x.roundMachine →
      handleCommitment round y msg = y.extendLog { rejections :=
        [{ round, nodeId := n, kind := "commitment", reasonCode := "replay_detected" }] } := by
    intro msg hmsg y hy
    obtain ⟨e, he, hmap⟩ := List.mem_filterMap.mp hmsg
    split at hmap
    · rename_i node r₀ k
      obtain ⟨prior, hprior, rfl⟩ := Option.map_eq_some_iff.mp hmap
      have htarget := (List.mem_filter.mp he).2
      simp only [ScenarioEvent.targets, decide_eq_true_eq] at htarget
      obtain ⟨rfl, -⟩ := htarget
      obtain ⟨hlt, hown⟩ := (hrem k prior).mp hprior
      obtain rfl : prior.nodeId = node := hown.builds.nodeId
      have hlab := hown.relabelled ha htopo hp
      rw [hcur] at hlab
      have hacc := hlab.replay hfresh (hseen prior.nodeId k prior hlt hown)
      rw [← hy] at hacc
      exact (handleCommitment_refused hacc).trans (reject_eq _ _ _ _ _)
    · simp at hmap
  rw [foldl_refused hrefused, replays, Scenario.eventsForRound, hconf.scenario, List.filterMap_filter,
    replicate_length_filterMap (g := fun e => if e.node = n ∧ e.isReplay = true then
      ScenarioEvent.record s₀.scenario round e else none), List.filterMap_filter]
  · simp only [decide_eq_true_eq]
  · intro e _
    cases e with
    | replayPriorCommitment node r' k =>
      by_cases hnode : node = n
      · subst hnode
        by_cases hr : r' = round
        · simp only [ScenarioEvent.node, ScenarioEvent.isReplay, ScenarioEvent.targets, ScenarioEvent.record, hr, and_self,
            true_and, if_true, decide_true]
          exact record_replay hbuild hn hrem k _
        · simp only [ScenarioEvent.targets, ScenarioEvent.record, hr, and_false, false_and, if_false, decide_false,
            Bool.false_eq_true, ite_self, Option.map_none]
      · simp only [ScenarioEvent.node, ScenarioEvent.targets, hnode, false_and, if_false, decide_false, Bool.false_eq_true,
          Option.map_none]
    | doubleCommit node r' => simp [ScenarioEvent.isReplay]
    | dropNode node r' => simp [ScenarioEvent.isReplay]
    | injectInvalidProof node r' => simp [ScenarioEvent.isReplay]

/-- The double commits of a node that has committed are refused, each with the record of its event. -/
theorem foldl_doubleCommits (ha : AgentsOf Γ s₀.topology s₀.agents) (hscen : s.scenario = s₀.scenario) {n : NodeId}
    {c : CommitmentRecord} (hown : Own Γ s₀ n round c) (hhist : s.historicalCommitments (n, round) = some c)
    (hcur : x.roundMachine.current = round) (htopo : x.roundMachine.topology = s₀.topology)
    (hp : x.roundMachine.proposal = none) (hheld : n ∈ x.roundMachine.commitments) :
    (s.doubleCommits n round).foldl (handleCommitment round) x = x.extendLog {
      rejections := (s₀.scenario.events.filter fun e => e.node = n ∧ e.isReplay = false).filterMap
        (ScenarioEvent.record s₀.scenario round) } := by
  have hnode := hown.builds.nodeId
  have hrefused : ∀ msg ∈ s.doubleCommits n round, ∀ y : RuntimeState, y.roundMachine = x.roundMachine →
      handleCommitment round y msg = y.extendLog { rejections :=
        [{ round, nodeId := n, kind := "commitment", reasonCode := "duplicate_commitment" }] } := by
    intro msg hmsg y hy
    obtain ⟨e, he, hmap⟩ := List.mem_filterMap.mp hmsg
    split at hmap
    · rename_i node r₀
      obtain ⟨rec, hrec, rfl⟩ := Option.map_eq_some_iff.mp hmap
      have htarget := (List.mem_filter.mp he).2
      simp only [ScenarioEvent.targets, decide_eq_true_eq] at htarget
      obtain ⟨rfl, rfl⟩ := htarget
      obtain rfl : c = rec := Option.some.inj (hhist.symm.trans hrec)
      have hlab : Labelled x.roundMachine c := Own.labelled ha (hcur.symm ▸ hown) htopo hp
      have hacc := hlab.duplicate (hnode.symm ▸ hheld)
      rw [← hy] at hacc
      have hcode := (handleCommitment_refused (x := y) hacc).trans (reject_eq y r₀ c.nodeId _ _)
      rw [hnode] at hcode
      exact hcode
    · simp at hmap
  rw [foldl_refused hrefused, doubleCommits, Scenario.eventsForRound, hscen, List.filterMap_filter,
    replicate_length_filterMap (g := fun e => if e.node = n ∧ e.isReplay = false then
      ScenarioEvent.record s₀.scenario round e else none), List.filterMap_filter]
  · simp only [decide_eq_true_eq]
  · intro e _
    cases e with
    | doubleCommit node r' =>
      by_cases hnode : node = n
      · subst hnode
        by_cases hr : r' = round
        · simp [ScenarioEvent.node, ScenarioEvent.isReplay, ScenarioEvent.targets, ScenarioEvent.record, hr, hown.1, hhist]
        · simp [ScenarioEvent.targets, ScenarioEvent.record, hr]
      · simp [ScenarioEvent.node, ScenarioEvent.targets, hnode]
    | replayPriorCommitment node r' k => simp [ScenarioEvent.isReplay]
    | dropNode node r' => simp [ScenarioEvent.record]
    | injectInvalidProof node r' => simp [ScenarioEvent.record]

/-- A commitment that passes the machine's checks is taken. -/
theorem handleCommitment_taken (round : RoundId) {t : TopologyConfig} (h : Ledger t x) {c : CommitmentRecord}
    (hc : RoundMachine.Committable x.roundMachine c) :
    handleCommitment round x { origin := c.nodeId, payload := .commitment c } = x.takeCommitment c := by
  have hkey := h.key_notMem hc
  simp only [handleCommitment, ne_eq, not_true_eq_false, if_false, RoundMachine.acceptCommitment_of_committable hc,
    CoordinationLog.appendCommitment, if_neg hkey, takeCommitment]

/-- A node that has dropped is not recorded for double commits. -/
theorem doubles_dropped {scenario : Scenario} {n : NodeId} (hd : scenario.hasDropped n round = true) :
    (scenario.events.filter fun e => e.node = n ∧ e.isReplay = false).filterMap
      (ScenarioEvent.record scenario round) = [] := by
  rw [List.filterMap_eq_nil_iff]
  intro e he
  have hnode := (List.mem_filter.mp he).2
  simp only [decide_eq_true_eq] at hnode
  cases e with
  | doubleCommit node r' =>
    obtain ⟨rfl, -⟩ := hnode
    simp only [ScenarioEvent.node] at hd
    simp only [ScenarioEvent.record, hd, Bool.true_eq_false, and_false, if_false]
  | replayPriorCommitment node r' k => simp [ScenarioEvent.isReplay] at hnode
  | dropNode node r' => rfl
  | injectInvalidProof node r' => rfl

theorem ownCommitment_dropped {n : NodeId} (hd : s₀.scenario.hasDropped n round = true) :
    ownCommitment Γ s₀ round n = none := if_pos hd

theorem ownCommitment_own {n : NodeId} {c : CommitmentRecord} (h : Own Γ s₀ n round c) :
    ownCommitment Γ s₀ round n = some c := by
  simp only [ownCommitment, h.1, h.2, Bool.false_eq_true, if_false, Except.toOption]

theorem own_of_ownCommitment {n : NodeId} {c : CommitmentRecord} (h : ownCommitment Γ s₀ round n = some c) :
    Own Γ s₀ n round c := by
  unfold ownCommitment at h
  split at h
  · simp at h
  · rename_i hd
    refine ⟨by simpa using hd, ?_⟩
    cases hb : s₀.buildCommitment Γ n round with
    | error e => simp [hb, Except.toOption] at h
    | ok d =>
      rw [hb] at h
      exact congrArg Except.ok (Option.some.inj h)

/-- The messages of one node whose commitment was not seen: what they append. -/
theorem drain_node_log (ht : s₀.topology.WellFormed Γ) (ha : AgentsOf Γ s₀.topology s₀.agents) (hbuild : Buildable Γ s₀)
    (hconf : SameConfig s₀ s) {n : NodeId} (hn : n ∈ s₀.agents) (hrem : Remembered Γ s₀ round s n)
    (hb : (s.broadcastCommitment Γ round n).2 = .ok s') (hx : Ledger.At s₀.topology round x)
    (hp : x.roundMachine.proposal = none) (hfresh : n ∉ x.roundMachine.commitments)
    (hseen : SeenBefore Γ s₀ round x.roundMachine)
    (hunseen : ∀ c, Own Γ s₀ n round c → c.commitmentHex ∉ x.roundMachine.historyHex) :
    ((s.broadcastCommitment Γ round n).1.foldl (handleCommitment round) x).log = x.log.extend (nodeEntries Γ s₀ round n) := by
  obtain ⟨hl, hcur⟩ := id hx
  have hreplays := foldl_replays ha hbuild hconf hn hrem hcur hl.machine.topology hp hfresh hseen
  by_cases hd : s₀.scenario.hasDropped n round = true
  · have he : s.broadcastCommitment Γ round n =
        (s.replays n round, .ok (s.reject round n "commitment" "node_dropped")) := if_pos (hconf.scenario ▸ hd)
    rw [he, hreplays, extendLog, nodeEntries, ownCommitment_dropped hd, injected, doubles_dropped hd, List.append_nil]
    rfl
  · rcases broadcastCommitment_cases hb with ⟨hd', -⟩ | ⟨hd', c, hc, rfl⟩
    · exact absurd (hconf.scenario ▸ hd') hd
    · have hown : Own Γ s₀ n round c := ⟨hconf.scenario ▸ hd', (hconf.buildCommitment Γ n round).symm.trans hc⟩
      have he : (s.broadcastCommitment Γ round n).1 = s.replays n round ++ [{ origin := n, payload := .commitment c }] ++
          (s.remember n round c).doubleCommits n round := by
        simp only [broadcastCommitment, hd', hc, Bool.false_eq_true, if_false]
      obtain ⟨y, hy⟩ : ∃ y, y = (s.replays n round).foldl (handleCommitment round) x := ⟨_, rfl⟩
      have hyat : Ledger.At s₀.topology round y :=
        hy ▸ List.foldlRecOn _ _ hx (fun _ hP msg _ => hP.handleCommitment msg)
      rw [hreplays] at hy
      have hmy : y.roundMachine = x.roundMachine := by
        rw [hy]
        rfl
      have hpy : y.roundMachine.proposal = none := hmy ▸ hp
      have hown' : Own Γ s₀ n y.roundMachine.current c := hyat.2.symm ▸ hown
      have hcomm : RoundMachine.Committable y.roundMachine c := hown'.committable ht ha hyat.1.machine.topology
        hpy (hmy ▸ hfresh) (hmy ▸ hunseen c hown)
      have htake := handleCommitment_taken round hyat.1 hcomm
      rw [hown.builds.nodeId] at htake
      have hheld : n ∈ (y.takeCommitment c).roundMachine.commitments := by
        rw [Std.TreeMap.mem_iff_isSome_getElem?]
        simp only [takeCommitment, RoundMachine.getElem?_addCommitment, hown.builds.nodeId, if_true, Option.isSome_some]
      have hdoubles := foldl_doubleCommits (s := s.remember n round c) (x := y.takeCommitment c) ha hconf.scenario hown
        (remember_self s n round c) hyat.2 hyat.1.machine.topology hpy hheld
      rw [he, List.foldl_append, List.foldl_append, hreplays, ← hy, List.foldl_cons, List.foldl_nil, htake, hdoubles, extendLog,
        log_takeCommitment_eq hyat.1 hcomm, hy, extendLog, CoordinationLog.extend_extend, CoordinationLog.extend_extend,
        nodeEntries, ownCommitment_own hown]
      rfl

/-! ## The commitment phase -/

/-- The own commitments of a round have distinct digests. -/
def Distinct (Γ : Crypto) (s₀ : RuntimeState) (round : RoundId) : Prop :=
  ∀ n k c d, Own Γ s₀ n round c → Own Γ s₀ k round d → c.commitmentHex = d.commitmentHex → n = k

/-- The messages of several nodes: what they append. -/
theorem drain_nodes_log (ht : s₀.topology.WellFormed Γ) (ha : AgentsOf Γ s₀.topology s₀.agents) (hbuild : Buildable Γ s₀)
    (hdist : Distinct Γ s₀ round) {nodes : List NodeId} (hnd : nodes.Nodup) (hagents : ∀ n ∈ nodes, n ∈ s₀.agents)
    {msgs : List CoordinationMessage} (hconf : SameConfig s₀ s) (hrem : ∀ n ∈ nodes, Remembered Γ s₀ round s n)
    (hb : s.broadcastCommitmentsOf Γ round nodes = (msgs, .ok s')) (hx : Ledger.At s₀.topology round x)
    (hp : x.roundMachine.proposal = none) (hfresh : ∀ n ∈ nodes, n ∉ x.roundMachine.commitments)
    (hseen : SeenBefore Γ s₀ round x.roundMachine)
    (hunseen : ∀ n ∈ nodes, ∀ c, Own Γ s₀ n round c → c.commitmentHex ∉ x.roundMachine.historyHex) :
    (msgs.foldl (handleCommitment round) x).log =
      x.log.extend (Entries.concat (nodes.map (nodeEntries Γ s₀ round))) := by
  induction nodes generalizing s x msgs with
  | nil =>
    simp only [broadcastCommitmentsOf, Prod.mk.injEq] at hb
    rw [← hb.1]
    exact x.log.extend_empty.symm
  | cons n nodes ih =>
    obtain ⟨hn, hnd'⟩ := List.nodup_cons.mp hnd
    obtain ⟨s₁, h₁, h₂, hmsgs⟩ := andThen_eq_ok hb
    have hremn := hrem n List.mem_cons_self
    have hfreshn := hfresh n List.mem_cons_self
    have hstep := drain_node ht ha hconf (fun r c hc => (hremn r c).mp hc) h₁ hx hp hfreshn hseen
    have hlog := drain_node_log ht ha hbuild hconf (hagents n List.mem_cons_self) hremn h₁ hx hp hfreshn hseen
      (hunseen n List.mem_cons_self)
    have hat : Ledger.At s₀.topology round ((s.broadcastCommitment Γ round n).1.foldl (handleCommitment round) x) :=
      List.foldlRecOn _ _ hx (fun _ hP msg _ => hP.handleCommitment msg)
    have hne : ∀ k ∈ nodes, n ≠ k := by
      rintro k hk rfl
      exact hn hk
    have hmem : ∀ k ∈ nodes, k ∈ n :: nodes := fun k hk => List.mem_cons_of_mem _ hk
    rw [hmsgs, List.foldl_append, List.map_cons, Entries.concat_cons, ← CoordinationLog.extend_extend, ← hlog]
    refine ih hnd' (fun k hk => hagents k (hmem k hk)) (hconf.broadcastCommitment h₁) ?_ (Prod.ext rfl h₂) hat ?_ ?_ ?_ ?_
    · intro k hk r c
      rw [historical_broadcastCommitment h₁ (fun he => hne k hk (Prod.mk.inj he).1.symm)]
      exact hrem k (hmem k hk) r c
    · rw [hstep, proposal_ownStep, hp]
    · intro k hk
      rw [hstep]
      exact notMem_ownStep (hne k hk) (hfresh k (hmem k hk))
    · intro k r c hr hc
      rw [hstep]
      exact historyHex_ownStep (hseen k r c hr hc)
    · intro k hk c hc hin
      rw [hstep] at hin
      rcases seen_of_ownSteps [n] hin with hin | ⟨n', hn', d, hd, he⟩
      · exact hunseen k (hmem k hk) c hc hin
      · rw [List.mem_singleton.mp hn'] at hd
        exact hne k hk (hdist _ _ _ _ hd hc he)

/-- What the commitment broadcasts append: a record for each node that has dropped. -/
theorem broadcastCommitmentsOf_log (hscen : s.scenario = s₀.scenario) {nodes : List NodeId} {msgs : List CoordinationMessage}
    (hb : s.broadcastCommitmentsOf Γ round nodes = (msgs, .ok s')) : s'.log = s.log.extend {
      rejections := (nodes.filter fun n => s₀.scenario.hasDropped n round).map (droppedRecord round) } := by
  induction nodes generalizing s msgs with
  | nil =>
    simp only [broadcastCommitmentsOf, Prod.mk.injEq, Except.ok.injEq] at hb
    rw [← hb.2]
    exact s.log.extend_empty.symm
  | cons n nodes ih =>
    obtain ⟨s₁, h₁, h₂, -⟩ := andThen_eq_ok hb
    rcases broadcastCommitment_cases h₁ with ⟨hd, rfl⟩ | ⟨hd, c, -, rfl⟩
    · rw [ih (s := s.reject round n "commitment" "node_dropped") hscen (Prod.ext rfl h₂), reject_eq, extendLog,
        CoordinationLog.extend_extend, List.filter_cons_of_pos (hscen ▸ hd)]
      rfl
    · rw [ih (s := s.remember n round c) hscen (Prod.ext rfl h₂), List.filter_cons_of_neg (by rw [← hscen, hd]; simp)]
      rfl

/-- A node that broadcasts its commitment of a round is remembered for it. -/
theorem broadcastCommitmentsOf_remembers (hconf : SameConfig s₀ s) {n : NodeId} {c : CommitmentRecord}
    (hown : Own Γ s₀ n round c) {nodes : List NodeId} (hn : n ∈ nodes) {msgs : List CoordinationMessage}
    (hb : s.broadcastCommitmentsOf Γ round nodes = (msgs, .ok s')) : s'.historicalCommitments (n, round) = some c := by
  induction nodes generalizing s msgs with
  | nil => exact absurd hn List.not_mem_nil
  | cons k nodes ih =>
    obtain ⟨s₁, h₁, h₂, -⟩ := andThen_eq_ok hb
    have hconf₁ := hconf.broadcastCommitment h₁
    rcases List.mem_cons.mp hn with rfl | hn
    · have hfirst : s₁.historicalCommitments (n, round) = some c := by
        rcases broadcastCommitment_cases h₁ with ⟨hd, -⟩ | ⟨-, d, hd, rfl⟩
        · rw [hconf.scenario, hown.1] at hd
          simp at hd
        · rw [hconf.buildCommitment, hown.2, Except.ok.injEq] at hd
          rw [remember_self, hd]
      -- from here on the node can only be remembered for the same commitment
      refine (broadcastCommitmentsOf_invariant (P := fun s' : RuntimeState =>
        SameConfig s₀ s' ∧ s'.historicalCommitments (n, round) = some c) ?_ ?_ ⟨hconf₁, hfirst⟩ (Prod.ext rfl h₂)).2
      · rintro x y ⟨hx, hxc⟩ ⟨_, _, _, -, rfl⟩
        exact ⟨⟨hx.1, hx.2, hx.3, hx.4, hx.5⟩, hxc⟩
      · rintro x k rec ⟨hx, hxc⟩ - hrec
        refine ⟨⟨hx.1, hx.2, hx.3, hx.4, hx.5⟩, ?_⟩
        by_cases hk : n = k
        · subst hk
          rw [hx.buildCommitment, hown.2, Except.ok.injEq] at hrec
          rw [remember_self, hrec]
        · rw [remember_of_ne _ _ (fun he => hk (Prod.mk.inj he).1)]
          exact hxc
    · exact ih hconf₁ hn (Prod.ext rfl h₂)

/-- The commitment broadcasts of a round leave the other rounds as they are remembered. -/
theorem broadcastCommitmentsOf_historical {nodes : List NodeId} {msgs : List CoordinationMessage}
    (hb : s.broadcastCommitmentsOf Γ round nodes = (msgs, .ok s')) {n : NodeId} {r : RoundId} (hr : r ≠ round) :
    s'.historicalCommitments (n, r) = s.historicalCommitments (n, r) := by
  refine broadcastCommitmentsOf_invariant (P := fun s' : RuntimeState =>
    s'.historicalCommitments (n, r) = s.historicalCommitments (n, r)) ?_ ?_ rfl hb
  · rintro x y hx ⟨_, _, _, -, rfl⟩
    exact hx
  · rintro x k rec hx - -
    rw [remember_of_ne _ _ (fun he => hr (Prod.mk.inj he).2)]
    exact hx

/-- What holds before each round of a run that was configured as `s₀`, when commitments are built and have no collisions: the
log has what the earlier rounds appended, and their commitments are remembered. -/
structure Traced (Γ : Crypto) (s₀ s : RuntimeState) : Prop where
  kept : InProcess Γ s₀ s
  log : s.log = s₀.log.extend (entriesBelow Γ s₀ s.roundMachine.current)
  remembered : ∀ n, Remembered Γ s₀ s.roundMachine.current s n

/-- Without collisions the own commitments of a round have distinct digests. -/
theorem distinct_of_collisionFree (ha : AgentsOf Γ s₀.topology s₀.agents)
    (hcf : CollisionFree Γ s₀.agents s₀.runSalt rounds) (hlt : round < rounds) : Distinct Γ s₀ round :=
  fun _ _ _ _ hc hd he => (own_of_hex ha hcf hlt hlt hc hd he).1

/-- The commitment phase of a round: what it appends, and what is remembered after it. -/
theorem Traced.commitmentsDone (ht : s₀.topology.WellFormed Γ) (ha : AgentsOf Γ s₀.topology s₀.agents)
    (hbuild : Buildable Γ s₀) (hcf : CollisionFree Γ s₀.agents s₀.runSalt rounds) (h : Traced Γ s₀ s)
    (hlt : s.roundMachine.current < rounds) (hd : CommitmentsDone Γ inProcess s.roundMachine.current s s') :
    s'.log = s.log.extend (commitEntries Γ s₀ s.roundMachine.current) ∧
      ∀ n r c, s'.historicalCommitments (n, r) = some c ↔ r ≤ s.roundMachine.current ∧ Own Γ s₀ n r c := by
  have hin := h.kept
  have hremembers := hd.remembers hin.config hin.remembers
  obtain ⟨hb, rfl⟩ := hd
  rename_i msgs s₁
  have hat := hin.before.ledger.broadcastCommitments hb
  rw [broadcastCommitments, hin.config.agents] at hb
  have hnd : s₀.agents.keys.Nodup := Std.TreeMap.nodup_keys
  constructor
  · rw [drainCommitments, drain_nodes_log ht ha hbuild (distinct_of_collisionFree ha hcf hlt) hnd
      (fun n hn => Std.TreeMap.mem_keys.mp hn) hin.config (fun n _ => h.remembered n) hb hat.1 (hat.2 ▸ hin.unproposed)
      (fun n _ => hat.2 ▸ hin.empty n) (hat.2 ▸ hin.seen), broadcastCommitmentsOf_log hin.config.scenario hb,
      CoordinationLog.extend_extend]
    · rfl
    · intro n _ c hown hseen
      rw [hat.2] at hseen
      obtain ⟨k, r, d, hr, hd, hx⟩ := hin.history _ hseen
      exact UInt64.ne_of_lt hr (own_of_hex ha hcf (UInt64.lt_trans hr hlt) hlt hd hown hx).2
  · intro n r c
    refine ⟨hremembers n r c, ?_⟩
    rintro ⟨hr, hown⟩
    rw [historical_drainCommitments]
    by_cases he : r = s.roundMachine.current
    · subst he
      exact broadcastCommitmentsOf_remembers hin.config hown (Std.TreeMap.mem_keys.mpr hown.builds.mem_agents) hb
    · rw [broadcastCommitmentsOf_historical hb he]
      exact (h.remembered n r c).mpr ⟨UInt64.lt_of_le_of_ne hr he, hown⟩

/-! ## The match of a round -/

/-- The first provider in stable key order that passes a test has the least key of those that do. -/
theorem isLeast_of_find {t : TopologyConfig} {test : NodeConfig → Bool} {node : NodeConfig}
    (h : t.providersStableOrder.find? test = some node) :
    IsLeast {k | ∃ m ∈ t.nodes, m.id = k ∧ m.role = .provider ∧ test m = true} node.id := by
  have hsorted : (t.providersStableOrder.map (·.id)).Pairwise (· ≤ ·) := by
    rw [TopologyConfig.providersStableOrder, List.map_insertionSort _ (· ≤ ·) _ _ (fun _ _ _ _ => Iff.rfl)]
    exact List.pairwise_insertionSort _ _
  obtain ⟨htest, as, bs, hl, has⟩ := List.find?_eq_some_iff_append.mp h
  obtain ⟨hmem, hrole⟩ := TopologyConfig.mem_providersStableOrder.mp (List.mem_of_find?_eq_some h)
  refine ⟨⟨node, hmem, rfl, hrole, htest⟩, ?_⟩
  rintro k ⟨m, hm, rfl, hr, hp⟩
  have hin := TopologyConfig.mem_providersStableOrder.mpr ⟨hm, hr⟩
  rw [hl, List.mem_append, List.mem_cons] at hin
  rw [hl, List.map_append, List.map_cons, List.pairwise_append, List.pairwise_cons] at hsorted
  rcases hin with hin | rfl | hin
  · have := has m hin
    rw [hp] at this
    simp at this
  · exact le_refl m.id
  · exact hsorted.2.1.1 m.id (List.mem_map.mpr ⟨m, hin, rfl⟩)

/-- The provider that is matched has the least key of the willing ones. -/
theorem winner_isLeast {t : TopologyConfig} {scenario : Scenario} {cap : CapabilityTag} {r : RoundId} {k : NodeId}
    (h : winner t scenario cap r = some k) : IsLeast {k | Willing t scenario cap r k} k := by
  obtain ⟨node, hnode, rfl⟩ := Option.map_eq_some_iff.mp h
  have hleast := isLeast_of_find hnode
  simp only [decide_eq_true_eq] at hleast
  obtain ⟨⟨m, hm, hid, hr, hc, hd⟩, hle⟩ := hleast
  refine ⟨⟨⟨m, hm, hid, hr, hc⟩, hid ▸ hd⟩, ?_⟩
  rintro j ⟨⟨m', hm', rfl, hr', hc'⟩, hd'⟩
  exact hle ⟨m', hm', rfl, hr', hc', hd'⟩

/-- A provider is matched exactly when some provider is willing. -/
theorem winner_eq_none {t : TopologyConfig} {scenario : Scenario} {cap : CapabilityTag} {r : RoundId} :
    winner t scenario cap r = none ↔ ∀ k, ¬ Willing t scenario cap r k := by
  rw [winner, Option.map_eq_none_iff, List.find?_eq_none]
  simp only [decide_eq_true_eq]
  constructor
  · rintro h k ⟨⟨m, hm, rfl, hr, hc⟩, hd⟩
    exact h m (TopologyConfig.mem_providersStableOrder.mpr ⟨hm, hr⟩) ⟨hc, hd⟩
  · rintro h m hm ⟨hc, hd⟩
    obtain ⟨hmem, hr⟩ := TopologyConfig.mem_providersStableOrder.mp hm
    exact h m.id ⟨⟨m, hmem, rfl, hr, hc⟩, hd⟩

theorem winner_of_isLeast {t : TopologyConfig} {scenario : Scenario} {cap : CapabilityTag} {r : RoundId} {k : NodeId}
    (h : IsLeast {k | Willing t scenario cap r k} k) : winner t scenario cap r = some k := by
  cases hw : winner t scenario cap r with
  | none => exact absurd h.1 (winner_eq_none.mp hw k)
  | some j => rw [(winner_isLeast hw).unique h]

/-- Whether a round is clean, from its winner. -/
theorem cleanRound_iff {t : TopologyConfig} {scenario : Scenario} {r : RoundId} {n : NodeConfig} {cap : CapabilityTag}
    (hn : t.requester = some n) (hcap : n.requiredCapability = some cap) :
    CleanRound t scenario r ↔ scenario.hasDropped n.id r = false ∧ ∃ k, winner t scenario cap r = some k ∧
      ScenarioEvent.injectInvalidProof n.id r ∉ scenario.events ∧ ScenarioEvent.injectInvalidProof k r ∉ scenario.events := by
  constructor
  · rintro ⟨n', cap', k, hn', hcap', hd, hleast, h1, h2⟩
    obtain rfl : n = n' := Option.some.inj (hn.symm.trans hn')
    obtain rfl : cap = cap' := Option.some.inj (hcap.symm.trans hcap')
    exact ⟨hd, k, winner_of_isLeast hleast, h1, h2⟩
  · rintro ⟨hd, k, hw, h1, h2⟩
    exact ⟨n, cap, k, hn, hcap, hd, winner_isLeast hw, h1, h2⟩

/-! ## The later phases -/

/-- The record of a round whose requester has dropped. -/
theorem closingEntries_missing {n : NodeConfig} (hn : s₀.topology.requester = some n)
    (hd : s₀.scenario.hasDropped n.id round = true) : closingEntries Γ s₀ round =
      { rejections := [{ round, nodeId := n.id, kind := "round", reasonCode := "requester_missing" }] } := by
  simp only [closingEntries, hn, hd, if_true]

/-- The record of a round in which no provider can be matched. -/
theorem closingEntries_infeasible {n : NodeConfig} {cap : CapabilityTag} {q : NodeId} (hn : s₀.topology.requester = some n)
    (hd : s₀.scenario.hasDropped n.id round = false) (hcap : n.requiredCapability = some cap)
    (hq : deterministicProposer s₀.topology round = .ok q) (hw : winner s₀.topology s₀.scenario cap round = none) :
    closingEntries Γ s₀ round =
      { rejections := [{ round, nodeId := q, kind := "proposal", reasonCode := "no_feasible_provider" }] } := by
  simp only [closingEntries, hn, hd, Bool.false_eq_true, if_false, hcap, hq, hw]

/-- What a round with a match appends after its commitment phase. -/
theorem closingEntries_match {n : NodeConfig} {p : ProposalRecord} (hn : s₀.topology.requester = some n)
    (hd : s₀.scenario.hasDropped n.id round = false) (hcap : n.requiredCapability = some p.matchedCapability)
    (hq : deterministicProposer s₀.topology round = .ok p.proposer) (hr : p.round = round) (hpn : p.candidateRequester = n.id)
    (hw : winner s₀.topology s₀.scenario p.matchedCapability round = some p.candidateProvider) :
    closingEntries Γ s₀ round = matchEntries Γ s₀ round p := by
  simp only [closingEntries, hn, hd, Bool.false_eq_true, if_false, hcap, hq, hw]
  rw [← hpn, ← hr]

/-- The proof of a participant: what it appends. -/
theorem handleProof_entries (hsch : s.invalidProofSchedule = s₀.invalidProofSchedule) {n : NodeId} {c : CommitmentRecord}
    (hd : c.HasDigest) (hc : x.roundMachine.commitments[n]? = some c) :
    handleProof round x { origin := n, payload := .proof (s.artifact Γ round n c) } =
      x.extendLog (proofEntries Γ s₀ round n c) := by
  rw [handleProof_artifact round hd hc, proofEntries, hsch]
  split
  · rw [reject_eq]
    rfl
  · rw [CoordinationLog.appendProof_eq]
    rfl

/-- The proof phase of a match: what it appends. -/
theorem ProofsDone.extends {p : ProposalRecord} {cr cp : CommitmentRecord}
    (hsch : s.invalidProofSchedule = s₀.invalidProofSchedule) (hr : p.candidateRequester ∈ s.agents)
    (hp : p.candidateProvider ∈ s.agents) (hcr : s.roundMachine.commitments[p.candidateRequester]? = some cr)
    (hcp : s.roundMachine.commitments[p.candidateProvider]? = some cp) (hdr : cr.HasDigest) (hdp : cp.HasDigest)
    (h : ProofsDone Γ inProcess round p s s') : s' = s.extendLog
      (proofEntries Γ s₀ round p.candidateRequester cr ++ proofEntries Γ s₀ round p.candidateProvider cp) := by
  obtain ⟨hb, rfl⟩ := h
  rw [broadcastProofs_eq Γ round hr hp hcr hcp] at hb
  obtain ⟨rfl, -⟩ := Prod.mk.inj hb
  have hcp' : (s.extendLog (proofEntries Γ s₀ round p.candidateRequester cr)).roundMachine.commitments[p.candidateProvider]? =
      some cp := hcp
  rw [drainProofs, List.foldl_cons, List.foldl_cons, List.foldl_nil, handleProof_entries hsch hdr hcr,
    handleProof_entries hsch hdp hcp', extendLog_extendLog]

/-- The commitment phase of a round, when commitments are built and have no collisions. -/
structure Committed (Γ : Crypto) (s₀ : RuntimeState) (round : RoundId) (s : RuntimeState) : Prop where
  inRound : InRound Γ s₀ round s
  own : HoldsOwn Γ s₀ round s.roundMachine
  unproposed : s.roundMachine.proposal = none

theorem Traced.committed (ht : s₀.topology.WellFormed Γ) (ha : AgentsOf Γ s₀.topology s₀.agents)
    (hcf : CollisionFree Γ s₀.agents s₀.runSalt rounds) (h : Traced Γ s₀ s) (hlt : s.roundMachine.current < rounds)
    (hd : CommitmentsDone Γ inProcess s.roundMachine.current s s') : Committed Γ s₀ s.roundMachine.current s' where
  inRound := h.kept.inRound ht ha hd
  own := by
    rw [h.kept.machine ht ha hd]
    exact h.kept.holdsOwn ha hcf hlt
  unproposed := hd.proposal.trans h.kept.unproposed

/-- Whether the requester has committed is decided by whether it has dropped. -/
theorem Committed.requesterIn_iff (ht : s₀.topology.WellFormed Γ) (hloc : AllLocal s₀) (hbuild : Buildable Γ s₀)
    (h : Committed Γ s₀ round s) {n : NodeConfig} (hn : s₀.topology.requester = some n) :
    n.id ∈ s.roundMachine.commitments ↔ s₀.scenario.hasDropped n.id round = false := by
  obtain ⟨n', hn', hmem, -⟩ := ht.requester_unique
  obtain rfl : n' = n := Option.some.inj (hn'.symm.trans hn)
  exact h.own.mem_iff hbuild (hloc n' hmem)

/-- The proposal of a round with a match. -/
theorem Committed.proposalDone (ht : s₀.topology.WellFormed Γ) (ha : AgentsOf Γ s₀.topology s₀.agents) (hloc : AllLocal s₀)
    (hbuild : Buildable Γ s₀) (h : Committed Γ s₀ round s) (hreq : RequesterIn s) (hd : ProposalDone inProcess round s s') :
    ∃ p, Picked s₀ s.roundMachine p ∧ p.round = round ∧ closingEntries Γ s₀ round = matchEntries Γ s₀ round p ∧
      s' = s.takeProposal p := by
  obtain ⟨p, hp, hprop, hround, rfl⟩ := h.inRound.proposalDone ht ha hloc hreq h.unproposed hd
  obtain ⟨n, hn, hpn, hcap⟩ := hp.requester
  obtain ⟨hl, hcur⟩ := h.inRound.ledger
  have hdrop := (h.requesterIn_iff ht hloc hbuild hn).mp (hpn ▸ hp.committed)
  have hq : deterministicProposer s₀.topology round = .ok p.proposer := by
    have := RoundMachine.currentProposer_eq_ok.mp hprop.proposer
    rwa [hl.machine.topology, hcur] at this
  have hleast := hp.least
  rw [h.own.claimants_eq hloc hbuild] at hleast
  exact ⟨p, hp, hround, closingEntries_match hn hdrop hcap hq hround hpn (winner_of_isLeast hleast), rfl⟩

/-- The proofs of a round with a match. -/
theorem Committed.proofsDone (ht : s₀.topology.WellFormed Γ) (hloc : AllLocal s₀) (h : Committed Γ s₀ round s)
    {p : ProposalRecord} (hp : Picked s₀ s.roundMachine p) (hd : ProofsDone Γ inProcess round p (s.takeProposal p) s') :
    s' = (s.takeProposal p).extendLog
      ((ownCommitment Γ s₀ round p.candidateRequester).elim {} (proofEntries Γ s₀ round p.candidateRequester) ++
        (ownCommitment Γ s₀ round p.candidateProvider).elim {} (proofEntries Γ s₀ round p.candidateProvider)) := by
  obtain ⟨n, hn, hpn, -⟩ := hp.requester
  obtain ⟨n', hn', hmem, -⟩ := ht.requester_unique
  obtain rfl : n' = n := Option.some.inj (hn'.symm.trans hn)
  obtain ⟨⟨node, hnode, hnid, -⟩, hin⟩ := hp.least.1
  have hloc' : ∀ k ∈ s₀.topology.nodes, k.id ∈ s.agents := fun k hk => h.inRound.config.agents ▸ hloc k hk
  obtain ⟨cr, hcr⟩ := Option.isSome_iff_exists.mp (Std.TreeMap.mem_iff_isSome_getElem?.mp hp.committed)
  obtain ⟨cp, hcp⟩ := Option.isSome_iff_exists.mp (Std.TreeMap.mem_iff_isSome_getElem?.mp hin)
  have hr := (h.own _ _).mp hcr
  have hpr := (h.own _ _).mp hcp
  rw [ownCommitment_own hr, ownCommitment_own hpr]
  exact ProofsDone.extends h.inRound.config.schedule (hpn ▸ hloc' n' hmem) (hnid ▸ hloc' node hnode) hcr hcp
    hr.builds.hasDigest hpr.builds.hasDigest hd

theorem log_takeProposal (s : RuntimeState) (p : ProposalRecord) :
    (s.takeProposal p).log = s.log.extend { proposals := [p] } := by
  rw [takeProposal, CoordinationLog.appendProposal_eq]

/-- A match is complete exactly when neither proof is scheduled to be tampered with. -/
theorem Picked.completes_iff {m : RoundMachine} {p : ProposalRecord} (hp : Picked s₀ m p) : Completes s₀ round m ↔
    ¬ ((p.candidateRequester, round) ∈ s₀.invalidProofSchedule ∨ (p.candidateProvider, round) ∈ s₀.invalidProofSchedule) := by
  rw [not_or]
  constructor
  · rintro ⟨q, hq, hclean⟩
    obtain ⟨hr, hpv⟩ := hp.unique hq
    rwa [hr, hpv] at hclean
  · intro hclean
    exact ⟨p, hp, hclean⟩

/-- A round without a match appends the record of that. -/
theorem Committed.infeasible (ht : s₀.topology.WellFormed Γ) (ha : AgentsOf Γ s₀.topology s₀.agents) (hloc : AllLocal s₀)
    (hbuild : Buildable Γ s₀) (h : Committed Γ s₀ round s) (hreq : RequesterIn s) {msgs : List CoordinationMessage}
    (hb : s.broadcastProposal round = (msgs, .ok (false, s'))) : s'.log = s.log.extend (closingEntries Γ s₀ round) := by
  obtain ⟨n, hn, hmem⟩ := hreq
  rw [h.inRound.config.topology] at hn
  obtain ⟨req, hreq⟩ := Option.isSome_iff_exists.mp (Std.TreeMap.mem_iff_isSome_getElem?.mp hmem)
  have hdrop := (h.requesterIn_iff ht hloc hbuild hn).mp hmem
  obtain ⟨cap, hcap, ⟨hno, q, hq, hb'⟩ | ⟨p, -, -, -, -, hb'⟩⟩ :=
    h.inRound.broadcastProposal_eq ht ha hloc hn hreq h.unproposed
  · rw [hb'] at hb
    simp only [Prod.mk.injEq, Except.ok.injEq, true_and] at hb
    have hw : winner s₀.topology s₀.scenario cap round = none := by
      rw [winner_eq_none]
      intro k hk
      have hset := h.own.claimants_eq hloc hbuild cap
      exact hno k (hset.symm ▸ hk : k ∈ {k | Claimant s₀.topology cap s.roundMachine k})
    rw [← hb.2, reject_eq, extendLog, closingEntries_infeasible hn hdrop hcap hq hw]
  · rw [hb'] at hb
    simp at hb

/-- What a round with a match appends up to its proofs. -/
theorem Committed.matched (ht : s₀.topology.WellFormed Γ) (ha : AgentsOf Γ s₀.topology s₀.agents) (hloc : AllLocal s₀)
    (hbuild : Buildable Γ s₀) (h : Committed Γ s₀ round s) (hreq : RequesterIn s) {s₂ : RuntimeState}
    (h₂ : ProposalDone inProcess round s s₂) {p : ProposalRecord} (hp : s₂.log.proposalOf round = some p)
    (h₃ : ProofsDone Γ inProcess round p s₂ s') :
    Picked s₀ s.roundMachine p ∧ closingEntries Γ s₀ round = matchEntries Γ s₀ round p ∧
      s'.roundMachine.commitments = s.roundMachine.commitments ∧ s'.log = s.log.extend ({ proposals := [p] } ++
        ((ownCommitment Γ s₀ round p.candidateRequester).elim {} (proofEntries Γ s₀ round p.candidateRequester) ++
          (ownCommitment Γ s₀ round p.candidateProvider).elim {} (proofEntries Γ s₀ round p.candidateProvider))) := by
  obtain ⟨q, hq, hround, hclose, rfl⟩ := h.proposalDone ht ha hloc hbuild hreq h₂
  rw [← hround, proposalOf_takeProposal, Option.some.injEq] at hp
  subst hp
  have hproofs := h.proofsDone ht hloc hq h₃
  refine ⟨hq, hclose, ?_, ?_⟩
  · rw [hproofs]
    rfl
  · rw [hproofs, extendLog, log_takeProposal, CoordinationLog.extend_extend]

/-- **A round appends its entries.** -/
theorem Traced.roundEnds (ht : s₀.topology.WellFormed Γ) (ha : AgentsOf Γ s₀.topology s₀.agents) (hloc : AllLocal s₀)
    (hbuild : Buildable Γ s₀) (hcf : CollisionFree Γ s₀.agents s₀.runSalt rounds) (h : Traced Γ s₀ s)
    (hlt : s.roundMachine.current < rounds) {o : RoundOutcome} (he : RoundEnds Γ inProcess s.roundMachine.current s o s') :
    s'.log = s.log.extend (entries Γ s₀ s.roundMachine.current) := by
  have houtcome := (h.kept.ended ht ha hloc he).outcome
  have hcommit : ∀ s₁, CommitmentsDone Γ inProcess s.roundMachine.current s s₁ →
      Committed Γ s₀ s.roundMachine.current s₁ ∧ s₁.log = s.log.extend (commitEntries Γ s₀ s.roundMachine.current) :=
    fun s₁ h₁ => ⟨h.committed ht ha hcf hlt h₁, (h.commitmentsDone ht ha hbuild hcf hlt h₁).1⟩
  rw [entries, ← CoordinationLog.extend_extend]
  cases he with
  | @requesterMissing s₁ n h₁ hn hmiss =>
    obtain ⟨hc, hlog⟩ := hcommit s₁ h₁
    rw [hc.inRound.config.topology] at hn
    rw [hc.requesterIn_iff ht hloc hbuild hn, Bool.not_eq_false] at hmiss
    rw [reject_eq, extendLog, hlog, closingEntries_missing hn hmiss]
  | @noCandidate s₁ s₂ msgs h₁ hreq hb =>
    obtain ⟨hc, hlog⟩ := hcommit s₁ h₁
    rw [hc.infeasible ht ha hloc hbuild hreq hb, hlog]
  | @noProposal s₁ s₂ h₁ hreq h₂ hnone =>
    obtain ⟨hc, -⟩ := hcommit s₁ h₁
    obtain ⟨p, -, -, hround, rfl⟩ := hc.inRound.proposalDone ht ha hloc hreq hc.unproposed h₂
    rw [← hround, proposalOf_takeProposal] at hnone
    simp at hnone
  | @missingProof s₁ s₂ s₃ p h₁ hreq h₂ hp h₃ hmissing =>
    obtain ⟨hc, hlog⟩ := hcommit s₁ h₁
    obtain ⟨hq, hclose, hcm, hmatch⟩ := hc.matched ht ha hloc hbuild hreq h₂ hp h₃
    have htampered : ¬ Completes s₀ s.roundMachine.current s₁.roundMachine := by
      rw [← completes_congr hcm, ← houtcome]
      exact RoundOutcome.noConfusion
    rw [hq.completes_iff, not_not] at htampered
    rw [hmatch, hlog, hclose, matchEntries, receiptEntries, if_pos htampered, Entries.append_empty, Entries.append_assoc]
  | @finalized s₁ s₂ s₃ s₄ p h₁ hreq h₂ hp h₃ hboth h₄ =>
    obtain ⟨hc, hlog⟩ := hcommit s₁ h₁
    obtain ⟨hq, hclose, hcm, hmatch⟩ := hc.matched ht ha hloc hbuild hreq h₂ hp h₃
    have hclean : Completes s₀ s.roundMachine.current s₁.roundMachine := by
      rw [← completes_congr (h₄.sameCommitments.machine.trans hcm), ← houtcome]
    rw [hq.completes_iff] at hclean
    have hconf : SameConfig s₀ s₃ := hc.inRound.config.trans (h₂.frame.trans h₃.frame).config
    have hprov : p.candidateProvider ∈ s₃.agents := by
      obtain ⟨⟨node, hnode, hnid, -⟩, -⟩ := hq.least.1
      rw [hconf.agents, ← hnid]
      exact hloc node hnode
    have hreceipt := congrArg RuntimeState.log (ReceiptsDone.eq hprov h₄)
    dsimp only at hreceipt
    rw [CoordinationLog.appendReceipt_eq, receiptSignatureHex_eq hconf, hmatch, CoordinationLog.extend_extend, hlog] at hreceipt
    rw [hreceipt, hclose, matchEntries, receiptEntries, if_neg hclean]
    simp only [Entries.append_assoc]

/-- The commitments of a round are those of its commitment phase. -/
theorem RoundEnds.committed {R : Delivery} {o : RoundOutcome} (h : RoundEnds Γ R round s o s') :
    ∃ s₁, CommitmentsDone Γ R round s s₁ ∧ SameCommitments s₁ s' := by
  cases h with
  | requesterMissing h₁ _ _ => exact ⟨_, h₁, ⟨rfl, rfl, rfl, rfl⟩⟩
  | noCandidate h₁ _ hb =>
    rcases broadcastProposal_cases hb with ⟨hf, -⟩ | ⟨-, -, hr⟩
    · simp at hf
    · exact ⟨_, h₁, .of_rejects hr⟩
  | noProposal h₁ _ h₂ _ => exact ⟨_, h₁, h₂.sameCommitments⟩
  | missingProof h₁ _ h₂ _ h₃ _ => exact ⟨_, h₁, h₂.sameCommitments.trans h₃.sameCommitments⟩
  | finalized h₁ _ h₂ _ h₃ _ h₄ =>
    exact ⟨_, h₁, h₂.sameCommitments.trans (h₃.sameCommitments.trans h₄.sameCommitments)⟩

end

end VertexVeil
