import VertexVeil.Lemmas.Ledger

/-!
# Helpers for the theorems about panics

`NoPanic` and its rules, then one lemma a step of a round. What the proof phase looks up is there because the ledger ties the
proposals of the log to the commitments of the round machine.
-/

namespace VertexVeil

/-- A call that does not panic: it returns a value or an error. -/
def NoPanic {ε α : Type} (x : Except (Fault ε) α) : Prop := ∀ msg, x ≠ .error (.panic msg)

namespace NoPanic

variable {ε α β : Type}

theorem ok (a : α) : NoPanic (.ok a : Except (Fault ε) α) := by
  intro msg h
  simp at h

theorem error (e : ε) : NoPanic (.error (.error e) : Except (Fault ε) α) := by
  intro msg h
  simp at h

theorem bind {x : Except (Fault ε) α} {f : α → Except (Fault ε) β} (hx : NoPanic x) (hf : ∀ a, x = .ok a → NoPanic (f a)) :
    NoPanic (x >>= f) := by
  cases x with
  | ok a => exact hf a rfl
  | error e =>
    intro msg h
    exact hx msg (congrArg Except.error (Except.error.inj h))

/-- What goes on without a panic panics where it starts. -/
theorem bind_iff {x : Except (Fault ε) α} {f : α → Except (Fault ε) β} (hf : ∀ a, NoPanic (f a)) :
    NoPanic (x >>= f) ↔ NoPanic x := by
  refine ⟨?_, fun hx => hx.bind fun a _ => hf a⟩
  intro h
  cases x with
  | ok a => exact .ok a
  | error e =>
    intro msg he
    exact h msg (congrArg Except.error (Except.error.inj he))

end NoPanic

open Codec RuntimeState

variable {Γ : Crypto} {t : TopologyConfig} {s s' : RuntimeState} {round : RoundId}

/-! ## Broadcasting steps -/

theorem NoPanic.andThen {α β : Type} {x : Emit α} {f : α → Emit β} (hx : NoPanic x.2)
    (hf : ∀ a, x.2 = .ok a → NoPanic (f a).2) : NoPanic (x.andThen f).2 := by
  unfold Emit.andThen
  split
  · rename_i a ha
    exact hf a ha
  · rename_i e he
    rw [he] at hx
    intro msg h
    exact hx msg (congrArg Except.error (Except.error.inj h))

/-- What the transport refuses is an error. -/
theorem NoPanic.emit {α τ : Type} [CoordinationTransport τ] {b : τ} {e : Emit α} (h : NoPanic e.2) :
    NoPanic (Runtime.emit b e) := by
  unfold Runtime.emit
  split
  · exact .error _
  · split
    · rename_i err herr
      rw [herr] at h
      intro msg he
      exact h msg (congrArg Except.error (Except.error.inj he))
    · exact .ok _

/-- Building a commitment: an agent acts for a node of the topology, and a requester's node requires a capability. -/
theorem noPanic_buildCommitment (htopo : s.topology = t) (ha : AgentsOf Γ t s.agents) (n : NodeId) (r : RoundId) :
    NoPanic (s.buildCommitment Γ n r) := by
  unfold buildCommitment
  split
  · exact .error _
  · rename_i agent hagent
    obtain ⟨node, hnode, hacts⟩ := ha n agent hagent
    rw [htopo, hnode]
    dsimp only
    cases hacts with
    | requester i hrole hid hcap hkey =>
      simp only [AgentState.ofRequester, hcap]
      split
      · exact .error _
      · exact .ok _
    | provider i hrole hid hclaims hkey =>
      simp only [AgentState.ofProvider]
      split
      · exact .error _
      · exact .ok _

theorem noPanic_broadcastCommitmentsOf (htopo : s.topology = t) (ha : AgentsOf Γ t s.agents) (round : RoundId)
    (nodes : List NodeId) : NoPanic (s.broadcastCommitmentsOf Γ round nodes).2 := by
  induction nodes generalizing s with
  | nil => exact .ok _
  | cons n nodes ih =>
    refine .andThen ?_ ?_
    · have hbuild := noPanic_buildCommitment htopo ha n round
      unfold broadcastCommitment
      split
      · exact .ok _
      · split
        · rename_i e he
          rw [he] at hbuild
          intro msg h
          exact hbuild msg (congrArg Except.error (Except.error.inj h))
        · exact .ok _
    · intro s₁ h₁
      rcases broadcastCommitment_cases h₁ with ⟨-, rfl⟩ | ⟨-, c, -, rfl⟩
      · exact ih htopo ha
      · exact ih htopo ha

/-- The proposal: the topology has a requester. -/
theorem noPanic_broadcastProposal (ht : t.WellFormed Γ) (htopo : s.topology = t) (round : RoundId) :
    NoPanic (s.broadcastProposal round).2 := by
  obtain ⟨n, hn, -⟩ := ht.requester_unique
  unfold broadcastProposal
  rw [htopo, hn]
  dsimp only
  split
  · exact .error _
  · split
    · exact .ok _
    · split
      · exact .ok _
      · split
        · exact .ok _
        · exact .ok _
        · exact .ok _

/-- A proof is made for a node whose commitment the machine holds. -/
theorem noPanic_broadcastProof {n : NodeId} {c : CommitmentRecord} (h : s.roundMachine.commitments[n]? = some c)
    (round : RoundId) : NoPanic (s.broadcastProof Γ round n).2 := by
  unfold broadcastProof
  split
  · exact .ok _
  · rw [h]
    exact .ok _

/-- The participants of a proposal found in the log have commitments that the machine holds. -/
theorem Ledger.At.participants (h : Ledger.At t round s) {p : ProposalRecord} (hp : s.log.proposalOf round = some p) :
    (∃ c, s.roundMachine.commitments[p.candidateRequester]? = some c) ∧
      ∃ c, s.roundMachine.commitments[p.candidateProvider]? = some c := by
  obtain ⟨hmem, hround⟩ := CoordinationLog.proposalOf_some hp
  obtain ⟨hsound, -⟩ := h.1.proposals p hmem
  obtain ⟨req, -, -, hreq, -⟩ := hsound.requester
  obtain ⟨prov, hprov, -⟩ := hsound.provider
  rw [hround, ← h.2] at hreq hprov
  exact ⟨⟨req, (h.1.held_iff _ _).mpr hreq⟩, prov, (h.1.held_iff _ _).mpr hprov⟩

theorem noPanic_broadcastProofs (h : Ledger.At t round s) {p : ProposalRecord} (hp : s.log.proposalOf round = some p) :
    NoPanic (s.broadcastProofs Γ round p).2 := by
  obtain ⟨⟨req, hreq⟩, prov, hprov⟩ := h.participants hp
  exact .andThen (noPanic_broadcastProof hreq round) (fun _ _ => noPanic_broadcastProof hprov round)

theorem noPanic_broadcastReceipt (s : RuntimeState) (round : RoundId) (p : ProposalRecord) :
    NoPanic (s.broadcastReceipt Γ round p).2 := by
  unfold broadcastReceipt
  dsimp only
  split
  · exact .ok _
  · exact .ok _

/-! ## Phases, rounds, runs -/

namespace Runtime

variable {τ : Type} [CoordinationTransport τ]

theorem noPanic_receiptPhase (p : ProposalRecord) (rt : Runtime τ) : NoPanic (receiptPhase Γ round p rt) :=
  .bind (.emit (noPanic_broadcastReceipt rt.state round p)) (fun _ _ => .ok _)

theorem noPanic_proofPhase {rt : Runtime τ} (h : Ledger.At t round rt.state) {p : ProposalRecord}
    (hp : rt.state.log.proposalOf round = some p) : NoPanic (proofPhase Γ round p rt) := by
  refine .bind (.emit (noPanic_broadcastProofs h hp)) ?_
  rintro ⟨⟨⟩, b⟩ -
  dsimp only
  split
  · exact noPanic_receiptPhase p _
  · exact .ok _

theorem noPanic_proposalPhase (ht : t.WellFormed Γ) {rt : Runtime τ} (h : Ledger.At t round rt.state) :
    NoPanic (proposalPhase Γ round rt) := by
  refine .bind (.emit (noPanic_broadcastProposal ht h.1.topology round)) ?_
  rintro ⟨⟨proposed, s₁⟩, b⟩ hemit
  obtain ⟨he, hr, -⟩ := emit_receive round (delivers_any τ) trivial hemit .proposal
  dsimp only
  cases proposed with
  | false => exact .ok _
  | true =>
    simp only [not_true_eq_false, if_false]
    split
    · exact .ok _
    · rename_i p hp
      exact noPanic_proofPhase (h.proposalDone ht (.intro he hr)) hp

/-- A round does not panic, whatever is delivered in it. -/
theorem noPanic_runOneRound (ht : t.WellFormed Γ) {rt : Runtime τ} (h : Ledger.At t round rt.state)
    (ha : AgentsOf Γ t rt.state.agents) : NoPanic (runOneRound Γ round rt) := by
  refine .bind (.emit (noPanic_broadcastCommitmentsOf h.1.topology ha round _)) ?_
  rintro ⟨s₁, b⟩ hemit
  obtain ⟨he, hr, -⟩ := emit_receive round (delivers_any τ) trivial hemit .commitments
  have hat := h.commitmentsDone (.intro he hr)
  obtain ⟨n, hn, -⟩ := ht.requester_unique
  dsimp only
  rw [hat.1.topology, hn]
  dsimp only
  split
  · exact .ok _
  · exact noPanic_proposalPhase ht hat

/-- The rounds of a run do not panic, while their numbers do not overflow. -/
theorem noPanic_runRounds (ht : t.WellFormed Γ) {n : Nat} {fr : RoundId} {rt : Runtime τ} (h : BeforeRound t rt.state)
    (ha : AgentsOf Γ t rt.state.agents) (hn : rt.state.roundMachine.current.toNat + n < 2 ^ 64) :
    NoPanic (runRounds Γ n fr rt) := by
  induction n generalizing fr rt with
  | zero => exact .ok _
  | succ n ih =>
    refine .bind (noPanic_runOneRound ht ⟨h.ledger, rfl⟩ ha) ?_
    rintro ⟨o, rt₁⟩ hround
    obtain ⟨hends, -⟩ := runOneRound_ends (delivers_any τ) trivial hround
    cases o with
    | finalized => exact .ok _
    | fallback =>
      -- the round that falls back is not the last one there is
      have hlt : rt₁.state.roundMachine.current.toNat + 1 < 2 ^ 64 := by
        rw [hends.frame.current]
        omega
      obtain ⟨m', hadv⟩ : ∃ m', rt₁.state.roundMachine.advanceFallback = some (.ok (), m') :=
        ⟨_, RoundMachine.advanceFallback_of_lt hlt⟩
      have hstep : rt₁.advanceFallback = .ok { rt₁ with state := { rt₁.state with roundMachine := m' } } := by
        simp only [Runtime.advanceFallback, hadv]
      dsimp only
      rw [hstep]
      refine ih (h.fallback ht hends hadv) ?_ ?_
      · rw [← hends.frame.agents] at ha
        exact ha
      · obtain ⟨rfl, hnext⟩ := RoundMachine.advanceFallback_ok hadv
        change (rt₁.state.roundMachine.current + 1).toNat + n < 2 ^ 64
        rw [hnext, hends.frame.current]
        omega

/-- The run of a process with loaded agents does not panic. -/
theorem noPanic_run (T : LoadedTopology Γ) {agents : Agents} (ha : AgentsOf Γ T.config agents) (transport : τ)
    (scenario : Scenario) (maxRounds : UInt64) (salt : Bytes 32) (runId : String) :
    NoPanic ((({ state := .initial T.config agents scenario maxRounds, transport } : Runtime τ).withRunSalt salt).run Γ runId) := by
  have hrounds : NoPanic (runRounds Γ maxRounds.toNat 0
      ((({ state := .initial T.config agents scenario maxRounds, transport } : Runtime τ).withRunSalt salt).withLog runId)) := by
    refine noPanic_runRounds T.wellFormed .start ha ?_
    have := maxRounds.toNat_lt
    change 0 + maxRounds.toNat < 2 ^ 64
    omega
  exact .bind (.bind hrounds (fun _ _ => .ok _)) (fun _ _ => .ok _)

end Runtime

end VertexVeil
