import Mathlib.Data.Finset.Lattice.Lemmas
import VertexVeil.Fixtures
import VertexVeil.Persistence
import VertexVeil.Soundness

/-!
# The index of a log

The index that decides which commitments a log takes is not on disk. Computed again it is the one the log had, so a log does not
show whether it was ever written and read back.
-/

namespace VertexVeil

open Codec CoordinationLog

/-! ## The index over the life of a log -/

/-- The index holds the keys of the commitments, and these are distinct. -/
structure CoordinationLog.Indexed (log : CoordinationLog) : Prop where
  keys : log.commitmentKeys = (log.commitments.map (·.key)).toFinset
  nodup : (log.commitments.map (·.key)).Nodup

namespace PersistenceAux

variable {log log' : CoordinationLog}

/-- The loop takes records with distinct keys that it has not seen, all of them. -/
theorem reindexFrom_eq {cs : List CommitmentRecord} {keys : Finset (NodeId × RoundId)} (hnd : (cs.map (·.key)).Nodup)
    (hfresh : ∀ c ∈ cs, c.key ∉ keys) : reindexFrom cs keys = (.ok (), keys ∪ (cs.map (·.key)).toFinset) := by
  induction cs generalizing keys with
  | nil => simp [reindexFrom]
  | cons c cs ih =>
    rw [List.map_cons, List.nodup_cons] at hnd
    obtain ⟨hc, hnd⟩ := hnd
    have hrest : ∀ d ∈ cs, d.key ∉ insert c.key keys := by
      intro d hd
      rw [Finset.mem_insert, not_or]
      refine ⟨fun he => hc (he ▸ List.mem_map_of_mem hd), hfresh d (List.mem_cons_of_mem _ hd)⟩
    have hstep : reindexFrom (c :: cs) keys = reindexFrom cs (insert c.key keys) := if_neg (hfresh c List.mem_cons_self)
    rw [hstep, ih hnd hrest, List.map_cons, List.toFinset_cons, Finset.insert_union, Finset.union_insert]

/-- The index of a log that lost it is found again. -/
theorem reindex_eq (h : log.Indexed) : ({ log with commitmentKeys := ∅ } : CoordinationLog).reindex = (.ok (), log) := by
  have hloop : reindexFrom log.commitments ∅ = (.ok (), ∅ ∪ (log.commitments.map (·.key)).toFinset) :=
    reindexFrom_eq h.nodup (by simp)
  rw [Finset.empty_union, ← h.keys] at hloop
  simp only [reindex, hloop]

/-- What is read back is what was written. -/
theorem reload_eq (S : LogSerde) (h : log.Indexed) : readCoordinationLog S (S.toString log) = .ok log := by
  simp only [readCoordinationLog, S.fromStr_toString, reindex_eq h]

theorem mem_keys (h : log.Indexed) {k : NodeId × RoundId} : k ∈ log.commitmentKeys ↔ ∃ c ∈ log.commitments, c.key = k := by
  rw [h.keys, List.mem_toFinset, List.mem_map]

/-- Appending a commitment keeps the index, whether it is taken or not. -/
theorem Indexed.appendCommitment (h : log.Indexed) (c : CommitmentRecord) : (log.appendCommitment c).2.Indexed := by
  unfold CoordinationLog.appendCommitment
  split
  · exact h
  · rename_i hc
    refine ⟨?_, ?_⟩
    · rw [List.map_append, List.map_singleton, List.toFinset_append, ← h.keys, Finset.insert_eq, Finset.union_comm]
      rfl
    · rw [List.map_append, List.map_singleton, List.nodup_append_comm, List.singleton_append, List.nodup_cons]
      refine ⟨fun hm => hc ?_, h.nodup⟩
      rw [h.keys, List.mem_toFinset]
      exact hm

/-- Every call keeps the index. -/
theorem Indexed.exec (S : LogSerde) (h : log.Indexed) {call : LogCall} (hs : call.exec S log = some log') : log'.Indexed := by
  cases call with
  | appendCommitment c =>
    obtain rfl := Option.some.inj hs
    exact Indexed.appendCommitment h c
  | reload =>
    rw [LogCall.exec, reload_eq S h] at hs
    obtain rfl := Option.some.inj hs
    exact h
  | appendProposal p | appendProof a | appendReceipt r | appendRejection r | setAbortReason reason =>
    obtain rfl := Option.some.inj hs
    exact ⟨h.keys, h.nodup⟩
  | setFinalRound round finalized =>
    obtain rfl := Option.some.inj hs
    exact ⟨h.keys, h.nodup⟩

theorem indexed_of_reachable {S : LogSerde} (h : (logMachine S).Reachable log) : log.Indexed := by
  refine h.invariant (P := CoordinationLog.Indexed) (fun log hlog => ?_) (fun _ _ _ _ hi hs => Indexed.exec S hi hs)
  obtain ⟨runId, rfl⟩ := hlog
  exact ⟨rfl, List.nodup_nil⟩

/-- A commitment is refused exactly when its key is taken, and then nothing changes. -/
theorem appendCommitment_cases (log : CoordinationLog) (c : CommitmentRecord) :
    (c.key ∈ log.commitmentKeys ∧ log.appendCommitment c = (.error (.duplicateCommitment c.round), log)) ∨
      (c.key ∉ log.commitmentKeys ∧ (log.appendCommitment c).1 = .ok ()) := by
  unfold CoordinationLog.appendCommitment
  split
  · rename_i h
    exact Or.inl ⟨h, rfl⟩
  · rename_i h
    exact Or.inr ⟨h, rfl⟩

end PersistenceAux

open PersistenceAux

/-- **The index of a log.** Over any appends, refused ones among them, settings, and writing and reading back: the index is the
set of the keys of the commitments, which are distinct; a commitment is refused exactly when one with its key is there, and then
the log is as it was; and the log is read back as it was, so that the verifier says the same of it. -/
theorem log_index (S : LogSerde) {log : CoordinationLog} (h : (logMachine S).Reachable log) :
    (∀ k, k ∈ log.commitmentKeys ↔ ∃ c ∈ log.commitments, (c.nodeId, c.round) = k) ∧
    (log.commitments.map fun c => (c.nodeId, c.round)).Nodup ∧
    (∀ c, (∃ e, (log.appendCommitment c).1 = .error e) ↔ ∃ d ∈ log.commitments, d.nodeId = c.nodeId ∧ d.round = c.round) ∧
    (∀ c e log', log.appendCommitment c = (.error e, log') → log' = log) ∧
    readCoordinationLog S (S.toString log) = .ok log ∧
    ∀ (Γ : Crypto) (t : TopologyConfig) log', readCoordinationLog S (S.toString log) = .ok log' →
      verifyLog Γ t log' = verifyLog Γ t log := by
  have hi := indexed_of_reachable h
  have hread := reload_eq S hi
  refine ⟨fun k => mem_keys hi, hi.nodup, fun c => ?_, fun c e log' he => ?_, hread, fun Γ t log' hlog' => ?_⟩
  · have hkey : (∃ d ∈ log.commitments, d.nodeId = c.nodeId ∧ d.round = c.round) ↔ c.key ∈ log.commitmentKeys := by
      rw [mem_keys hi]
      simp only [CommitmentRecord.key, Prod.mk.injEq]
    rw [hkey]
    rcases appendCommitment_cases log c with ⟨hc, he⟩ | ⟨hc, he⟩
    · exact iff_of_true ⟨_, congrArg Prod.fst he⟩ hc
    · exact iff_of_false (by rw [he]; simp) hc
  · rcases appendCommitment_cases log c with ⟨-, hc⟩ | ⟨-, hc⟩
    · exact (Prod.mk.inj (he.symm.trans hc)).2
    · rw [he] at hc
      cases hc
  · rw [hread, Except.ok.injEq] at hlog'
    rw [hlog']

/-- A commitment, the same again after the log was written and read back, and the end of the run. -/
def reloadedCalls : List LogCall :=
  [.appendCommitment Sample.requesterCommitment, .reload, .appendCommitment Sample.requesterCommitment,
    .setAbortReason "max_rounds_exceeded", .reload]

/-- The log that was read back twice has the commitment once and refuses it. -/
theorem log_index_sample : ∃ log, (logMachine LogSerde.json).run (.new "run") reloadedCalls = some log ∧
    log.commitments = [Sample.requesterCommitment] ∧ ∃ e, (log.appendCommitment Sample.requesterCommitment).1 = .error e := by
  obtain ⟨log, hrun, hc⟩ : ∃ log, (logMachine LogSerde.json).run (.new "run") reloadedCalls = some log ∧
      log.commitments = [Sample.requesterCommitment] :=
    Option.map_eq_some_iff.mp (show ((logMachine LogSerde.json).run (.new "run") reloadedCalls).map (·.commitments) =
      some [Sample.requesterCommitment] by decide +kernel)
  refine ⟨log, hrun, hc, ((log_index LogSerde.json (.run (.start ⟨"run", rfl⟩) hrun)).2.2.1 _).mpr ?_⟩
  exact ⟨_, hc ▸ List.mem_cons_self, rfl, rfl⟩

end VertexVeil
