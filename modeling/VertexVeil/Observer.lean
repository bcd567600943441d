import VertexVeil.Runtime

/-!
# What a run tells its observer

The runtime calls its observer when a record is taken, when a round is over and when the run is given up. The definitions follow
those of the runtime, with the calls left in: `Told` is a result with the milestones told on the way. A milestone that has been
told stays told when the run ends in an error.
-/

namespace VertexVeil

open Codec

/-- A call of the observer. -/
inductive Milestone where
  | commitment (node : NodeId) (round : RoundId)
  | proposal (proposer : NodeId) (round : RoundId) (matchedCapability : Text)
  | proofVerified (node : NodeId) (round : RoundId)
  | receipt (provider : NodeId) (round : RoundId)
  | roundCommitted (round : RoundId) (finalized : Bool)
  | abort (reason : String) (round : RoundId)
  deriving DecidableEq

/-- A result, and what the observer was told before it. -/
structure Told (α : Type) where
  milestones : List Milestone
  result : Except (Fault RuntimeError) α

namespace Told

variable {α β : Type}

/-- A step after another, on its result. -/
def andThen (x : Told α) (f : α → Told β) : Told β :=
  match x.result with
  | .ok a => { milestones := x.milestones ++ (f a).milestones, result := (f a).result }
  | .error e => { milestones := x.milestones, result := .error e }

instance : Monad Told where
  pure a := { milestones := [], result := .ok a }
  bind := andThen

/-- A step that tells nothing. -/
def silent (x : Except (Fault RuntimeError) α) : Told α := { milestones := [], result := x }

/-- Tell the observer. -/
def tell (milestones : List Milestone) : Told Unit := { milestones, result := .ok () }

@[simp] theorem milestones_pure (a : α) : (pure a : Told α).milestones = [] := rfl

@[simp] theorem result_pure (a : α) : (pure a : Told α).result = pure a := rfl

@[simp] theorem milestones_silent (x : Except (Fault RuntimeError) α) : (silent x).milestones = [] := rfl

@[simp] theorem result_silent (x : Except (Fault RuntimeError) α) : (silent x).result = x := rfl

@[simp] theorem milestones_tell (ms : List Milestone) : (tell ms).milestones = ms := rfl

@[simp] theorem result_tell (ms : List Milestone) : (tell ms).result = pure () := rfl

/-- The result of a step after another does not depend on what is told. -/
@[simp] theorem result_bind (x : Told α) (f : α → Told β) : (x >>= f).result = x.result >>= fun a => (f a).result := by
  cases h : x.result <;> simp only [bind, andThen, h, Except.bind]

/-- What is told by two steps, when the first one has a result. -/
theorem milestones_bind {x : Told α} {a : α} (h : x.result = .ok a) (f : α → Told β) :
    (x >>= f).milestones = x.milestones ++ (f a).milestones := by
  simp only [bind, andThen, h]

end Told

/-! ## The calls of the drains -/

/-- The call when a message of the commitment phase is handled. -/
def toldCommitment (round : RoundId) (s : RuntimeState) (msg : CoordinationMessage) : List Milestone :=
  match msg.payload with
  | .commitment rec =>
    if msg.origin ≠ rec.nodeId then []
    else match s.roundMachine.acceptCommitment rec with
      | (.ok (), _) =>
        match s.log.appendCommitment rec with
        | (.ok (), _) => [.commitment rec.nodeId round]
        | (.error _, _) => []
      | (.error _, _) => []
  | _ => []

/-- The call when a message of the proposal phase is handled. -/
def toldProposal (round : RoundId) (s : RuntimeState) (msg : CoordinationMessage) : List Milestone :=
  match msg.payload with
  | .proposal p =>
    if msg.origin ≠ p.proposer then []
    else match s.roundMachine.acceptProposal p with
      | (.ok (), _) => [.proposal p.proposer round p.matchedCapability.asStr]
      | (.error _, _) => []
  | _ => []

/-- The call when a message of the proof phase is handled. -/
def toldProof (round : RoundId) (s : RuntimeState) (msg : CoordinationMessage) : List Milestone :=
  match msg.payload with
  | .proof rec =>
    if msg.origin ≠ rec.nodeId then []
    else if rec.round ≠ round then []
    else match s.roundMachine.commitments[rec.nodeId]? with
      | none => []
      | some expected =>
        if extractCommitmentHashHex rec.publicInputsHex ≠ some expected.commitmentHex then []
        else [.proofVerified rec.nodeId round]
  | _ => []

/-- The call when a message of the receipt phase is handled. -/
def toldReceipt (round : RoundId) (_ : RuntimeState) (msg : CoordinationMessage) : List Milestone :=
  match msg.payload with
  | .receipt r =>
    if msg.origin ≠ r.provider then []
    else if r.round ≠ round then []
    else if r.signatureHex = [] then []
    else [.receipt r.provider round]
  | _ => []

namespace Observed

/-- Handle the messages of a phase, and make the calls. -/
def drain (told : RuntimeState → CoordinationMessage → List Milestone)
    (handle : RuntimeState → CoordinationMessage → RuntimeState) : List CoordinationMessage → RuntimeState → Told RuntimeState
  | [], s => pure s
  | msg :: batch, s => do
    Told.tell (told s msg)
    drain told handle batch (handle s msg)

/-! ## Rounds and runs -/

variable {τ : Type} [CoordinationTransport τ]

/-- The steps of a round from the receipts on. -/
def receiptPhase (Γ : Crypto) (round : RoundId) (proposal : ProposalRecord) (rt : Runtime τ) : Told (RoundOutcome × Runtime τ) := do
  let ((), t) ← Told.silent (Runtime.emit rt.transport (rt.state.broadcastReceipt Γ round proposal))
  let (batch, t) := Runtime.receive round .receipts t
  let s ← drain (toldReceipt round) (RuntimeState.handleReceipt round) batch rt.state
  return (.finalized, ⟨s, t⟩)

/-- The steps of a round from the proofs on. -/
def proofPhase (Γ : Crypto) (round : RoundId) (proposal : ProposalRecord) (rt : Runtime τ) : Told (RoundOutcome × Runtime τ) := do
  let ((), t) ← Told.silent (Runtime.emit rt.transport (rt.state.broadcastProofs Γ round proposal))
  let (batch, t) := Runtime.receive round .proofs t
  let s ← drain (toldProof round) (RuntimeState.handleProof round) batch rt.state
  if s.log.hasProof proposal.candidateRequester round ∧ s.log.hasProof proposal.candidateProvider round then
    receiptPhase Γ round proposal ⟨s, t⟩
  else return (.fallback, ⟨s, t⟩)

/-- The steps of a round from the proposal on. -/
def proposalPhase (Γ : Crypto) (round : RoundId) (rt : Runtime τ) : Told (RoundOutcome × Runtime τ) := do
  let ((proposed, s), t) ← Told.silent (Runtime.emit rt.transport (rt.state.broadcastProposal round))
  if ¬ proposed then return (.fallback, ⟨s, t⟩)
  else
    let (batch, t) := Runtime.receive round .proposal t
    let s ← drain (toldProposal round) (RuntimeState.handleProposal round) batch s
    match s.log.proposalOf round with
    | none => return (.fallback, ⟨s, t⟩)
    | some proposal => proofPhase Γ round proposal ⟨s, t⟩

/-- `run_one_round` -/
def runOneRound (Γ : Crypto) (round : RoundId) (rt : Runtime τ) : Told (RoundOutcome × Runtime τ) := do
  let (s, t) ← Told.silent (Runtime.emit rt.transport (rt.state.broadcastCommitments Γ round))
  let (batch, t) := Runtime.receive round .commitments t
  let s ← drain (toldCommitment round) (RuntimeState.handleCommitment round) batch s
  match s.topology.requester with
  | none => Told.silent (.error (.panic "from_raw enforces exactly one requester"))
  | some requester =>
    if ¬ s.roundMachine.commitments.contains requester.id then
      return (.fallback, ⟨s.reject round requester.id "round" "requester_missing", t⟩)
    else proposalPhase Γ round ⟨s, t⟩

/-- The rounds of a run, `rounds` at most. -/
def runRounds (Γ : Crypto) : Nat → RoundId → Runtime τ → Told (Runtime τ × Bool × RoundId)
  | 0, finalRound, rt => return (rt, false, finalRound)
  | rounds + 1, _, rt => do
    let round := rt.state.roundMachine.current
    let (outcome, rt) ← runOneRound Γ round rt
    Told.tell [.roundCommitted round (outcome = .finalized)]
    match outcome with
    | .finalized => return (rt, true, round)
    | .fallback => do
      let rt ← Told.silent rt.advanceFallback
      runRounds Γ rounds round rt

/-- `run_with_transport` -/
def runWithTransport (Γ : Crypto) (runId : String) (rt : Runtime τ) : Told (RuntimeOutcome × τ) := do
  let (rt, finalized, finalRound) ← runRounds Γ rt.state.maxRounds.toNat 0 (rt.withLog runId)
  Told.tell (if finalized then [] else [.abort "max_rounds_exceeded" finalRound])
  return ({ log := Runtime.closeLog rt.state.log finalized finalRound, finalized, finalRound }, rt.transport)

end Observed

/-! ## The transcript of a log -/

namespace CoordinationLog

/-- The records of a round, as they are told: those of a kind in log order, and the kinds in the order of the phases. -/
def milestonesIn (log : CoordinationLog) (round : RoundId) : List Milestone :=
  (log.commitmentsIn round).map (fun c => .commitment c.nodeId round) ++
  (log.proposals.filter (·.round = round)).map (fun p => .proposal p.proposer round p.matchedCapability.asStr) ++
  (log.proofs.filter (·.round = round)).map (fun a => .proofVerified a.nodeId round) ++
  (log.receipts.filter (·.round = round)).map (fun r => .receipt r.provider round)

/-- What is told of some rounds from one on: the records of each, and that it is over. The last one may be finalized. -/
def transcript (log : CoordinationLog) (finalized : Bool) (first rounds : Nat) : List Milestone :=
  (List.range' first rounds).flatMap fun k =>
    log.milestonesIn (UInt64.ofNat k) ++ [.roundCommitted (UInt64.ofNat k) (finalized && k + 1 = first + rounds)]

end CoordinationLog

end VertexVeil
