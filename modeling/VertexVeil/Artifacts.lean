import VertexVeil.Intents

/-!
# The public coordination record

The records a run publishes and the log that keeps them. The log only grows; its index of commitment keys is private to it
and decides which commitments it takes.
-/

namespace VertexVeil

open Codec

/-- A node's commitment to its private intent for a round, with the public intent it binds. -/
structure CommitmentRecord where
  nodeId : NodeId
  round : RoundId
  commitmentHex : Text
  publicIntent : PublicIntent
  deriving DecidableEq

/-- The proposal of a round's proposer. -/
structure ProposalRecord where
  proposer : NodeId
  round : RoundId
  candidateRequester : NodeId
  candidateProvider : NodeId
  matchedCapability : CapabilityTag
  deriving DecidableEq

/-- A proof artifact. -/
structure ProofArtifactRecord where
  nodeId : NodeId
  round : RoundId
  publicInputsHex : Text
  proofHex : Text
  deriving DecidableEq

/-- The signed completion receipt of the matched provider. -/
structure CompletionReceiptRecord where
  provider : NodeId
  round : RoundId
  signatureHex : Text
  deriving DecidableEq

/-- A message the runtime refused, with a label for its class and a code for the reason. -/
structure RejectionRecord where
  round : RoundId
  nodeId : NodeId
  kind : String
  reasonCode : String
  deriving DecidableEq

/-- The report of the standalone verifier. -/
structure VerifierReport where
  runId : String
  valid : Bool
  finalRound : RoundId
  reasons : List String
  deriving DecidableEq

/-- Errors of the log and of its files. An error keeps the text its message shows. -/
inductive ArtifactError where
  | invalidOutputPath (why : String)
  | duplicateCommitment (round : RoundId)
  | io (why : String)
  | serialization (why : String)
  deriving DecidableEq

/-- The canonical ordered public record of a run. -/
structure CoordinationLog where
  runId : String
  schemaVersion : UInt32
  commitments : List CommitmentRecord
  proposals : List ProposalRecord
  proofs : List ProofArtifactRecord
  receipts : List CompletionReceiptRecord
  rejections : List RejectionRecord
  finalRound : RoundId
  finalized : Bool
  abortReason : Option String
  commitmentKeys : Finset (NodeId × RoundId)
  deriving DecidableEq

namespace CoordinationLog

/-- The empty log of a run. -/
def new (runId : String) : CoordinationLog :=
  { runId, schemaVersion := 1, commitments := [], proposals := [], proofs := [], receipts := [], rejections := [],
    finalRound := 0, finalized := false, abortReason := none, commitmentKeys := ∅ }

/-- Append a commitment, unless its `(node, round)` pair is recorded already. -/
def appendCommitment (log : CoordinationLog) (c : CommitmentRecord) : Except ArtifactError Unit × CoordinationLog :=
  if (c.nodeId, c.round) ∈ log.commitmentKeys then (.error (.duplicateCommitment c.round), log)
  else (.ok (), { log with
    commitmentKeys := insert (c.nodeId, c.round) log.commitmentKeys, commitments := log.commitments ++ [c] })

def appendProposal (log : CoordinationLog) (p : ProposalRecord) : CoordinationLog :=
  { log with proposals := log.proposals ++ [p] }

def appendProof (log : CoordinationLog) (p : ProofArtifactRecord) : CoordinationLog :=
  { log with proofs := log.proofs ++ [p] }

def appendReceipt (log : CoordinationLog) (r : CompletionReceiptRecord) : CoordinationLog :=
  { log with receipts := log.receipts ++ [r] }

def appendRejection (log : CoordinationLog) (r : RejectionRecord) : CoordinationLog :=
  { log with rejections := log.rejections ++ [r] }

def setFinalRound (log : CoordinationLog) (round : RoundId) (finalized : Bool) : CoordinationLog :=
  { log with finalRound := round, finalized := finalized }

def setAbortReason (log : CoordinationLog) (reason : String) : CoordinationLog :=
  { log with abortReason := some reason }

/-- The loop of `reindex`: the keys that are in the index when it ends. -/
def reindexFrom : List CommitmentRecord → Finset (NodeId × RoundId) → Except ArtifactError Unit × Finset (NodeId × RoundId)
  | [], keys => (.ok (), keys)
  | c :: cs, keys =>
    if (c.nodeId, c.round) ∈ keys then (.error (.duplicateCommitment c.round), keys)
    else reindexFrom cs (insert (c.nodeId, c.round) keys)

/-- Compute the index from the commitments again. -/
def reindex (log : CoordinationLog) : Except ArtifactError Unit × CoordinationLog :=
  ((reindexFrom log.commitments ∅).1, { log with commitmentKeys := (reindexFrom log.commitments ∅).2 })

/-- The logged commitment of a node in a round: the first one. -/
def commitmentOf (log : CoordinationLog) (node : NodeId) (round : RoundId) : Option CommitmentRecord :=
  log.commitments.find? (fun c => c.nodeId = node ∧ c.round = round)

/-- The proposal of a round: the last one logged. -/
def proposalOf (log : CoordinationLog) (round : RoundId) : Option ProposalRecord :=
  log.proposals.reverse.find? (fun p => p.round = round)

/-- The commitments of a round, in log order. -/
def commitmentsIn (log : CoordinationLog) (round : RoundId) : List CommitmentRecord :=
  log.commitments.filter (fun c => c.round = round)

/-- The proposals of a round, in log order. -/
def proposalsIn (log : CoordinationLog) (round : RoundId) : List ProposalRecord :=
  log.proposals.filter (fun p => p.round = round)

/-- Whether a node has a logged proof in a round. -/
def hasProof (log : CoordinationLog) (node : NodeId) (round : RoundId) : Bool :=
  log.proofs.any (fun p => p.round = round ∧ p.nodeId = node)

/-! ## What the lookups find -/

theorem commitmentOf_some {log : CoordinationLog} {node : NodeId} {round : RoundId} {c : CommitmentRecord}
    (h : log.commitmentOf node round = some c) : c ∈ log.commitments ∧ c.nodeId = node ∧ c.round = round :=
  ⟨List.mem_of_find?_eq_some h, by simpa using List.find?_some h⟩

theorem proposalOf_some {log : CoordinationLog} {round : RoundId} {p : ProposalRecord}
    (h : log.proposalOf round = some p) : p ∈ log.proposals ∧ p.round = round :=
  ⟨List.mem_reverse.mp (List.mem_of_find?_eq_some h), by simpa using List.find?_some h⟩

theorem proposalOf_eq_none {log : CoordinationLog} {round : RoundId} :
    log.proposalOf round = none ↔ ∀ p ∈ log.proposals, p.round ≠ round := by
  simp [proposalOf]

theorem mem_commitmentsIn {log : CoordinationLog} {round : RoundId} {c : CommitmentRecord} :
    c ∈ log.commitmentsIn round ↔ c ∈ log.commitments ∧ c.round = round := by
  simp [commitmentsIn]

theorem mem_proposalsIn {log : CoordinationLog} {round : RoundId} {p : ProposalRecord} :
    p ∈ log.proposalsIn round ↔ p ∈ log.proposals ∧ p.round = round := by
  simp [proposalsIn]

theorem hasProof_iff {log : CoordinationLog} {node : NodeId} {round : RoundId} :
    log.hasProof node round = true ↔ ∃ p ∈ log.proofs, p.round = round ∧ p.nodeId = node := by
  simp [hasProof]

/-- Where the keys of the commitments are distinct, a logged commitment is the one found under its key. -/
theorem commitmentOf_eq {log : CoordinationLog} (hn : (log.commitments.map fun c => (c.nodeId, c.round)).Nodup)
    {c : CommitmentRecord} (hc : c ∈ log.commitments) : log.commitmentOf c.nodeId c.round = some c := by
  obtain ⟨d, hd⟩ : ∃ d, log.commitmentOf c.nodeId c.round = some d := by
    rw [← Option.isSome_iff_exists, commitmentOf, List.find?_isSome]
    exact ⟨c, hc, by simp⟩
  obtain ⟨hm, hnode, hround⟩ := commitmentOf_some hd
  rw [hd, Option.some.injEq]
  exact List.inj_on_of_nodup_map hn hm hc (Prod.ext hnode hround)

end CoordinationLog

end VertexVeil
