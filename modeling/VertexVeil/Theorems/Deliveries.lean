import VertexVeil.Lemmas.Alike
import VertexVeil.Lemmas.Embedded
import VertexVeil.Lemmas.Thinned
import VertexVeil.Theorems.Runtime

/-!
# What a run makes of what is delivered

`proofs_not_reused`: the proofs of a log embed distinct digests, one for each node and round. `same_deliveries`: what a run
records is a matter of what is delivered, not of who runs it. `rejected_inert`: of what is delivered, what is rejected does not
matter.
-/

namespace VertexVeil

open Codec RoundMachine

/-! ## Accepted proofs are not reused -/

/-- **Accepted proofs are not reused.** Whatever the transport delivers, a proof in the log of a run that returns embeds the text
of the commitment its node has in its round, and proofs that embed the same text are of one node and one round. -/
theorem proofs_not_reused {Γ : Crypto} (T : LoadedTopology Γ) {τ : Type} [CoordinationTransport τ] (transport : τ)
    (agents : Agents) (scenario : Scenario) (maxRounds : UInt64) (salt : Bytes 32) (runId : String) {rt : Runtime τ}
    {out : RuntimeOutcome} (hnew : Runtime.new T.config transport agents scenario maxRounds = .ok rt)
    (hrun : (rt.withRunSalt salt).run Γ runId = .ok out) :
    (∀ a ∈ out.log.proofs, ∃ c, out.log.HasCommitment a.nodeId a.round c ∧
      extractCommitmentHashHex a.publicInputsHex = some c.commitmentHex) ∧
    ∀ a ∈ out.log.proofs, ∀ b ∈ out.log.proofs,
      extractCommitmentHashHex a.publicInputsHex = extractCommitmentHashHex b.publicInputsHex →
        a.nodeId = b.nodeId ∧ a.round = b.round := by
  obtain ⟨rt', hrounds, hlog⟩ := Runtime.run_eq_ok hrun
  obtain rfl := Runtime.new_eq_ok hnew
  obtain ⟨hl, -⟩ := (Ledger.At.kept T.wellFormed).runRounds ⟨.initial runId 0 rfl rfl rfl, rfl⟩ hrounds
  have he := Embedded.kept.runRounds .start hrounds
  have ha := archive_of_reachable he.machine
  obtain ⟨reason, hclosed⟩ := closeLog_eq rt'.state.log out.finalized out.finalRound
  rw [hlog, hclosed]
  refine ⟨fun a hm => ?_, fun a hm b hm' hx => ?_⟩
  · obtain ⟨c, hc, hx⟩ := he.proofs a hm
    exact ⟨c, hl.holds_iff.mp hc, hx⟩
  · obtain ⟨c, hc, hcx⟩ := he.proofs a hm
    obtain ⟨d, hd, hdx⟩ := he.proofs b hm'
    rw [hcx, hdx, Option.some.injEq] at hx
    obtain ⟨hround, hnode⟩ := ha.distinct _ _ _ _ _ _ hc hd hx
    exact ⟨hnode, hround⟩

/-- The proofs of the clean run. -/
theorem proofs_not_reused_sample : ∃ out : RuntimeOutcome,
    Runtime.run Sample.crypto "run" ((Sample.runtime OrderedBus.new .empty 1).withRunSalt Sample.salt) = .ok out ∧
      ∀ a ∈ out.log.proofs, ∃ c, out.log.HasCommitment a.nodeId a.round c ∧
        extractCommitmentHashHex a.publicInputsHex = some c.commitmentHex := by
  obtain ⟨out, hrun, -⟩ := Sample.run_finalizes
  exact ⟨out, hrun, (proofs_not_reused Sample.topology OrderedBus.new Sample.agents.agents .empty 1 Sample.salt "run"
    (Sample.new_runtime _ _ _) hrun).1⟩

/-! ## Equal deliveries make equal records -/

/-- **Equal deliveries make equal records.** Runs over the same deliveries in every phase of every round, of runtimes of one
topology with any agents, scenarios and salts and the same bound on the rounds, agree when they return: their logs differ at
most in the run id and the rejections, and they end in the same round in the same way. -/
theorem same_deliveries {Γ : Crypto} (T : LoadedTopology Γ) (d : Deliveries) (maxRounds : UInt64)
    {agents agents' : Agents} {scenario scenario' : Scenario} {salt salt' : Bytes 32} {runId runId' : String}
    {rt rt' : Runtime Deliveries} {out out' : RuntimeOutcome}
    (hnew : Runtime.new T.config d agents scenario maxRounds = .ok rt)
    (hnew' : Runtime.new T.config d agents' scenario' maxRounds = .ok rt')
    (hrun : (rt.withRunSalt salt).run Γ runId = .ok out) (hrun' : (rt'.withRunSalt salt').run Γ runId' = .ok out') :
    out'.log.record = out.log.record ∧ out'.finalized = out.finalized ∧ out'.finalRound = out.finalRound := by
  obtain rfl := Runtime.new_eq_ok hnew
  obtain rfl := Runtime.new_eq_ok hnew'
  obtain ⟨rt₁, hrounds, hlog⟩ := Runtime.run_eq_ok hrun
  obtain ⟨rt₁', hrounds', hlog'⟩ := Runtime.run_eq_ok hrun'
  -- both end as a listener that starts in the first one's state
  obtain ⟨he, ha⟩ := runRounds_listen T (x := .starting T.config agents scenario maxRounds salt runId)
    (.initial runId 0 rfl rfl rfl) rfl (.refl _) hrounds
  obtain ⟨he', ha'⟩ := runRounds_listen T (s := .starting T.config agents' scenario' maxRounds salt' runId')
    (x := .starting T.config agents scenario maxRounds salt runId) (.initial runId' 0 rfl rfl rfl) rfl ⟨rfl, rfl, rfl⟩ hrounds'
  obtain ⟨hfin, hfr⟩ := Prod.mk.inj (he'.symm.trans he)
  have hrec := (ha.trans ha'.symm).record
  refine ⟨?_, hfin, hfr⟩
  rw [hlog, hlog', record_closeLog, record_closeLog, hfin, hfr, hrec]

/-- The requester's own process and one that runs all agents record the same of the same deliveries. -/
theorem same_deliveries_sample : ∃ out out' : RuntimeOutcome,
    Runtime.run Sample.crypto "run" ((Sample.requesterRuntime [Sample.receipt]).withRunSalt Sample.salt) = .ok out ∧
      Runtime.run Sample.crypto "all" ((Sample.runtime (Sample.deliveries [Sample.receipt]) Sample.stubborn 1).withRunSalt
        Sample.salt) = .ok out' ∧ out'.log.record = out.log.record := by
  obtain ⟨out, hrun, -⟩ := Sample.of_outcome (f := fun _ => ()) (a := ()) (x := Runtime.run Sample.crypto "run"
    ((Sample.requesterRuntime [Sample.receipt]).withRunSalt Sample.salt)) (by decide +kernel)
  obtain ⟨out', hrun', -⟩ := Sample.of_outcome (f := fun _ => ()) (a := ()) (x := Runtime.run Sample.crypto "all"
    ((Sample.runtime (Sample.deliveries [Sample.receipt]) Sample.stubborn 1).withRunSalt Sample.salt)) (by decide +kernel)
  exact ⟨out, out', hrun, hrun', (same_deliveries Sample.topology _ 1 (Sample.new_requesterRuntime _)
    (Sample.new_runtime _ _ _) hrun hrun').1⟩

/-! ## Rejected messages are inert -/

/-- **Rejected messages are inert.** Take the deliveries of a run that returns and leave out, in any phases of its rounds, any of
the messages whose handling logged a rejection there: the run over the rest returns too, in the same round and the same way, and
its log has the same commitments, proposals, proofs, receipts and abort reason. -/
theorem rejected_inert {Γ : Crypto} (T : LoadedTopology Γ) {d d' : Deliveries} {agents : Agents} {scenario : Scenario}
    {maxRounds : UInt64} {salt : Bytes 32} {runId : String} {rt : Runtime Deliveries} {out : RuntimeOutcome}
    (hnew : Runtime.new T.config d agents scenario maxRounds = .ok rt) (hrun : (rt.withRunSalt salt).run Γ runId = .ok out)
    (hthin : Thinned Γ d d' ((rt.withRunSalt salt).withLog runId).state maxRounds) :
    ∃ rt' out', Runtime.new T.config d' agents scenario maxRounds = .ok rt' ∧
      (rt'.withRunSalt salt).run Γ runId = .ok out' ∧ out'.log.record = out.log.record ∧
      out'.finalized = out.finalized ∧ out'.finalRound = out.finalRound := by
  have hnew' := Runtime.new_transport hnew d'
  obtain rfl := Runtime.new_eq_ok hnew
  obtain ⟨rt₁, hrounds, hlog⟩ := Runtime.run_eq_ok hrun
  have hself : Twin (.starting T.config agents scenario maxRounds salt runId)
    (.starting T.config agents scenario maxRounds salt runId) := ⟨.refl _, rfl⟩
  obtain ⟨rt₂, hrounds', htw⟩ := Runtime.runRounds_thinned T.wellFormed hthin (.initial runId 0 rfl rfl rfl) .start
    (Nat.le_of_eq (Nat.zero_add _)) hself hrounds
  refine ⟨_, _, hnew', Runtime.run_of_rounds hrounds', ?_, rfl, rfl⟩
  rw [hlog, record_closeLog, record_closeLog, htw.alike.record]

/-- The sample deliveries with a receipt that comes before its phase. -/
def earlyReceipt : Deliveries where
  schedule round phase :=
    if phase = .commitments then
      { origin := Sample.provider₁, payload := .receipt Sample.receipt } :: (Sample.deliveries [Sample.receipt]).schedule round phase
    else (Sample.deliveries [Sample.receipt]).schedule round phase

/-- The early receipt is rejected in every state. -/
theorem thinned_earlyReceipt (s₀ : RuntimeState) (maxRounds : UInt64) :
    Thinned Sample.crypto earlyReceipt (Sample.deliveries [Sample.receipt]) s₀ maxRounds := by
  intro s _ _ phase s₁ _
  by_cases hp : phase = .commitments
  · subst hp
    refine .drop ?_ (.refl _ _ _ _)
    intro he
    have := congrArg List.length he
    simp [Phase.handle, RuntimeState.handleCommitment, RuntimeState.reject, CoordinationLog.appendRejection] at this
  · simp only [earlyReceipt, if_neg hp]
    exact .refl _ _ _ _

/-- Without the early receipt the requester's process records the same. -/
theorem rejected_inert_sample : ∃ out out' : RuntimeOutcome,
    Runtime.run Sample.crypto "run" (({ Sample.requesterRuntime [] with
      transport := earlyReceipt } : Runtime Deliveries).withRunSalt Sample.salt) = .ok out ∧
      Runtime.run Sample.crypto "run" ((Sample.requesterRuntime [Sample.receipt]).withRunSalt Sample.salt) = .ok out' ∧
      out'.log.record = out.log.record := by
  obtain ⟨out, hrun, -⟩ := Sample.of_outcome (f := fun _ => ()) (a := ()) (x := Runtime.run Sample.crypto "run"
    (({ Sample.requesterRuntime [] with transport := earlyReceipt } : Runtime Deliveries).withRunSalt Sample.salt))
    (by decide +kernel)
  have hnew := Runtime.new_transport (Sample.new_requesterRuntime []) earlyReceipt
  obtain ⟨rt', out', hnew', hrun', hrec, -⟩ := rejected_inert Sample.topology hnew hrun (thinned_earlyReceipt _ 1)
  rw [Sample.new_requesterRuntime, Except.ok.injEq] at hnew'
  exact ⟨out, out', hrun, hnew' ▸ hrun', hrec⟩

end VertexVeil
