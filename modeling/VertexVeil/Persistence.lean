import VertexVeil.Lib.Transition
import VertexVeil.Serde

/-!
# The log between memory and disk

The index of a log is not written with it: a log that was read back has an empty one until it is computed again. `LogSerde` is
what the writer and the reader of the log rely on of the serializer, and `LogSerde.json` is such a serializer: it writes the
fields in their order, leaves the abort reason out when there is none, and reads what it writes.
-/

namespace VertexVeil

open Codec Json

/-- A serializer of logs: reading back what was written restores every field but the index, which is neither written nor
read. -/
structure LogSerde where
  toString : CoordinationLog → Text
  fromStr : Text → Except String CoordinationLog
  fromStr_toString : ∀ log, fromStr (toString log) = .ok { log with commitmentKeys := ∅ }

/-- Read a log from the text of its file. -/
def readCoordinationLog (S : LogSerde) (text : Text) : Except ArtifactError CoordinationLog :=
  match S.fromStr text with
  | .error e => .error (.serialization e)
  | .ok log =>
    match log.reindex with
    | (.error e, _) => .error e
    | (.ok (), log) => .ok log

/-! ## The JSON of a log -/

namespace LogSerde

/-- A string, by its characters. -/
def string : Format String :=
  Format.string.map (fun s => some (String.ofList s)) String.toList (fun s => by rw [String.ofList_toList])

/-- A schema version, by its number. -/
def schemaVersion : Format UInt32 :=
  Format.nat.map (fun n => if n < 2 ^ 32 then some (UInt32.ofNat n) else none) UInt32.toNat (fun v => by
    rw [if_pos v.toNat_lt, UInt32.ofNat_toNat])

/-- The fields of a rejection. -/
def rejection : Format RejectionRecord :=
  ((Serde.roundId.field "round".toList).pair ((Serde.nodeId.field "node_id".toList).pair
    ((string.field "kind".toList).pair (string.field "reason_code".toList)))).map
      (fun x => some ⟨x.1, x.2.1, x.2.2.1, x.2.2.2⟩) (fun r => (r.round, r.nodeId, r.kind, r.reasonCode)) (fun _ => rfl)

/-- The records of a section of the log. -/
def records {α : Type} (key : String) (F : Format α) : Format (List α) :=
  (F.object.array (fun _ _ => rfl)).field key.toList

/-- The fields of a log that are written: all but the index. -/
abbrev Fields : Type :=
  (String × UInt32 × List CommitmentRecord × List ProposalRecord × List ProofArtifactRecord × List CompletionReceiptRecord ×
    List RejectionRecord × RoundId × Bool) × Option String

def fieldsOf (log : CoordinationLog) : Fields :=
  ((log.runId, log.schemaVersion, log.commitments, log.proposals, log.proofs, log.receipts, log.rejections, log.finalRound,
    log.finalized), log.abortReason)

/-- The log with given fields and nothing in its index. -/
def ofFields : Fields → CoordinationLog
  | ((runId, schemaVersion, commitments, proposals, proofs, receipts, rejections, finalRound, finalized), abortReason) =>
    { runId, schemaVersion, commitments, proposals, proofs, receipts, rejections, finalRound, finalized, abortReason,
      commitmentKeys := ∅ }

/-- The fields of a log. -/
def fields : Format Fields :=
  ((string.field "run_id".toList).pair ((schemaVersion.field "schema_version".toList).pair
    ((records "commitments" Serde.commitment).pair ((records "proposals" Serde.proposal).pair
      ((records "proofs" Serde.proof).pair ((records "receipts" Serde.receipt).pair ((records "rejections" rejection).pair
        ((Serde.roundId.field "final_round".toList).pair (Format.bool.field "finalized".toList))))))))).objectLast
          (string.field "abort_reason".toList)

/-- The serializer that writes the JSON of a log. -/
def json : LogSerde where
  toString log := fields.write (fieldsOf log)
  fromStr text :=
    match fields.read text with
    | some (x, []) => .ok (ofFields x)
    | some (_, _ :: _) => .error "trailing characters"
    | none => .error "invalid log"
  fromStr_toString log := by
    have hread := fields.read_write (fieldsOf log) [] trivial
    rw [List.append_nil] at hread
    rw [hread]
    rfl

end LogSerde

/-! ## A log through its life -/

/-- What is done to a log: a call of one of its methods, or writing it and reading it back. -/
inductive LogCall where
  | appendCommitment (c : CommitmentRecord)
  | appendProposal (p : ProposalRecord)
  | appendProof (a : ProofArtifactRecord)
  | appendReceipt (r : CompletionReceiptRecord)
  | appendRejection (r : RejectionRecord)
  | setFinalRound (round : RoundId) (finalized : Bool)
  | setAbortReason (reason : String)
  | reload

/-- The log after a call. A log that cannot be read back is given up. -/
def LogCall.exec (S : LogSerde) (log : CoordinationLog) : LogCall → Option CoordinationLog
  | appendCommitment c => some (log.appendCommitment c).2
  | appendProposal p => some (log.appendProposal p)
  | appendProof a => some (log.appendProof a)
  | appendReceipt r => some (log.appendReceipt r)
  | appendRejection r => some (log.appendRejection r)
  | setFinalRound round finalized => some (log.setFinalRound round finalized)
  | setAbortReason reason => some (log.setAbortReason reason)
  | reload => (readCoordinationLog S (S.toString log)).toOption

/-- The logs of runs, as a machine. -/
def logMachine (S : LogSerde) : Transition.Machine CoordinationLog LogCall where
  start log := ∃ runId, log = .new runId
  exec := LogCall.exec S

end VertexVeil
