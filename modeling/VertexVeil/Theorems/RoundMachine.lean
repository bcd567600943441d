import VertexVeil.Fixtures
import VertexVeil.Lemmas.Archive

/-!
# The round machine

What the acceptance of a proposal says about the winner: `deriveCandidate` looks at all the commitments of the round, the
machine at the two the proposal names. What holds of the machine over whole runs, and how far one node's commitments can keep
another's out.
-/

namespace VertexVeil

open Codec RoundMachine

/-! ## How far acceptance determines the winner -/

/-- The machine of the sample topology with the commitments of the requester and of the two providers it may match. -/
def committedMachine : RoundMachine :=
  ((((RoundMachine.new Sample.topology.config 0).acceptCommitment Sample.requesterCommitment).2.acceptCommitment
    Sample.provider₁Commitment).2.acceptCommitment Sample.provider₂Commitment).2

theorem committedMachine_reachable : (machine Sample.topology.config).Reachable committedMachine :=
  .step (a := .acceptCommitment Sample.provider₂Commitment)
    (.step (a := .acceptCommitment Sample.provider₁Commitment)
      (.step (a := .acceptCommitment Sample.requesterCommitment) (.start ⟨0, rfl⟩) rfl) rfl) rfl

/-- An accepted proposal need not name the provider `deriveCandidate` picks. -/
theorem accepted_proposal_not_candidate : ¬ ∀ (Γ : Crypto) (T : LoadedTopology Γ) (m m' : RoundMachine),
    (machine T.config).Reachable m → ∀ n req, T.config.requester = some n → m.commitments[n.id]? = some req →
      ∀ p, m.acceptProposal p = (.ok (), m') →
        deriveCandidate m.current req (m.providersSnapshot n.id) =
          .ok (some ⟨p.candidateRequester, p.candidateProvider, p.matchedCapability⟩) := by
  intro h
  have hok : (committedMachine.acceptProposal (Sample.proposal Sample.provider₂)).1 = .ok () := by decide
  have := h Sample.crypto Sample.topology committedMachine _ committedMachine_reachable Sample.requesterConfig
    Sample.requesterCommitment (by decide) (by decide) (Sample.proposal Sample.provider₂)
    (Prod.ext hok rfl)
  exact absurd this (by decide)

/-- **Accepted proposals are feasible.** In every reachable state that holds the requester's commitment, a proposal the
machine accepts names the requester, the capability and a feasible provider; `deriveCandidate` succeeds with the same
requester and capability and a provider at or below the proposed one, and the two are the same exactly when no feasible
provider has a smaller key. -/
theorem accepted_proposal_feasible {Γ : Crypto} (T : LoadedTopology Γ) {m m' : RoundMachine}
    (hm : (machine T.config).Reachable m) {n : NodeConfig} (hn : T.config.requester = some n) {req : CommitmentRecord}
    (hreq : m.commitments[n.id]? = some req) {p : ProposalRecord} (hp : m.acceptProposal p = (.ok (), m')) :
    p.candidateProvider ∈ feasibleProviders m.current req (m.providersSnapshot n.id) ∧
    ∃ c, deriveCandidate m.current req (m.providersSnapshot n.id) = .ok (some c) ∧
      c.requester = p.candidateRequester ∧ c.matchedCapability = p.matchedCapability ∧
      c.provider ≤ p.candidateProvider ∧
      (c.provider = p.candidateProvider ↔
        ∀ k ∈ feasibleProviders m.current req (m.providersSnapshot n.id), p.candidateProvider ≤ k) := by
  exact feasible_of_proposable T (inv_of_reachable hm) hn hreq (acceptProposal_ok hp).1

/-- A proposal for the second provider is accepted though the first one is feasible. -/
theorem accepted_proposal_feasible_sample : ∃ c,
    deriveCandidate 0 Sample.requesterCommitment (committedMachine.providersSnapshot Sample.requester) = .ok (some c) ∧
      c.provider ≤ Sample.provider₂ := by
  have hok : (committedMachine.acceptProposal (Sample.proposal Sample.provider₂)).1 = .ok () := by decide
  obtain ⟨-, c, hc, -, -, hle, -⟩ := accepted_proposal_feasible Sample.topology committedMachine_reachable
    (n := Sample.requesterConfig) (by decide)
    (show committedMachine.commitments[Sample.requester]? = some Sample.requesterCommitment by decide)
    (p := Sample.proposal Sample.provider₂) (Prod.ext hok rfl)
  exact ⟨c, hc, hle⟩

/-! ## The machine over whole runs -/

/-- **The round machine over whole runs.** From any start round and over any calls, a machine holds, in the active round and the
past ones, the commitments its calls were granted and no others: each under its own node, in the role the topology gives it and
with the round it was accepted in. Their texts are distinct and the history is their set, past rounds ascend to the active one,
the proposal of a round is by its proposer and stands on commitments of the round, and a call that returns an error changes
nothing. -/
theorem machine_archive {Γ : Crypto} (T : LoadedTopology Γ) (start : RoundId) (calls : List RoundCall) {m : RoundMachine}
    (h : (machine T.config).run (.new T.config start) calls = some m) :
    Archive T.config m ∧ (∀ c, (∃ r n, m.Holds r n c) ↔ c ∈ grantedBy (.new T.config start) calls) ∧
      ((grantedBy (.new T.config start) calls).map (·.commitmentHex)).Nodup ∧
      (∀ x, x ∈ m.historyHex ↔ x ∈ (grantedBy (.new T.config start) calls).map (·.commitmentHex)) ∧
      ∀ call e m', RoundCall.call m call = some (.error e, m') → m' = m := by
  have hc := collects_run h
  refine ⟨archive_of_reachable (.run (.start ⟨start, rfl⟩) h), fun c => ?_, hc.distinct, fun x => ?_,
    fun _ _ _ => call_error⟩
  · rw [hc.held]
    refine ⟨fun hh => hh.resolve_left ?_, Or.inr⟩
    rintro ⟨r, n, hn⟩
    exact not_holds_new _ _ hn
  · rw [hc.history]
    refine ⟨fun hx => hx.resolve_left ?_, Or.inr⟩
    exact Finset.notMem_empty x

/-- Two commitments, one of them offered again, and the next round. -/
def fallbackCalls : List RoundCall :=
  [.acceptCommitment Sample.requesterCommitment, .acceptCommitment Sample.provider₁Commitment,
    .acceptCommitment Sample.requesterCommitment, .acceptProposal (Sample.proposal Sample.provider₁), .advanceFallback]

/-- The machine is granted the two commitments once and keeps them in the past round. -/
theorem machine_archive_sample : ∃ m, (machine Sample.topology.config).run (.new Sample.topology.config 0) fallbackCalls =
    some m ∧ Archive Sample.topology.config m ∧ ∃ r n, m.Holds r n Sample.requesterCommitment := by
  obtain ⟨m, hm⟩ := Option.isSome_iff_exists.mp (show
    ((machine Sample.topology.config).run (.new Sample.topology.config 0) fallbackCalls).isSome = true by decide)
  obtain ⟨ha, hh, -⟩ := machine_archive Sample.topology 0 fallbackCalls hm
  exact ⟨m, hm, ha, (hh Sample.requesterCommitment).mpr (by decide)⟩

/-! ## Whether a node can keep another's commitment out -/

/-- The first provider's commitment, with the text of the requester's. -/
def copiedCommitment : CommitmentRecord :=
  { Sample.provider₁Commitment with commitmentHex := Sample.requesterCommitment.commitmentHex }

/-- A provider that commits with the requester's text before the requester does keeps the requester's commitment out. -/
theorem commitment_suppressed : ¬ ∀ (Γ : Crypto) (T : LoadedTopology Γ) (m : RoundMachine),
    (machine T.config).Reachable m → m.proposal = none → ∀ c, c.nodeId ∉ m.commitments → (m.acceptCommitment c).1 = .ok () →
      ∀ cs : List CommitmentRecord, (∀ d ∈ cs, d.nodeId ≠ c.nodeId) → ((m.offered cs).acceptCommitment c).1 = .ok () := by
  intro h
  have := h Sample.crypto Sample.topology (.new Sample.topology.config 0) (.start ⟨0, rfl⟩) rfl Sample.requesterCommitment
    (by simp [RoundMachine.new]) (by decide) [copiedCommitment] (by decide)
  exact absurd this (by decide)

/-- **Commitments of other nodes.** A commitment the machine would accept is still accepted after any records of other nodes
were offered exactly when none of these that carries its text passes the checks in the state it is offered in. -/
theorem accepted_after_iff {m : RoundMachine} {c : CommitmentRecord} (hc : (m.acceptCommitment c).1 = .ok ())
    {cs : List CommitmentRecord} (hcs : ∀ d ∈ cs, d.nodeId ≠ c.nodeId) :
    ((m.offered cs).acceptCommitment c).1 = .ok () ↔ ∀ before d, before ++ [d] <+: cs →
      d.commitmentHex = c.commitmentHex → ¬ Committable (m.offered before) d := by
  rw [acceptCommitment_eq_ok, committable_offered_iff hcs]
  exact and_iff_right (acceptCommitment_eq_ok.mp hc)

/-- A provider that has committed and then offers the requester's text does not keep the requester's commitment out. -/
theorem accepted_after_sample : (((RoundMachine.new Sample.topology.config 0).offered
    [Sample.provider₁Commitment, copiedCommitment]).acceptCommitment Sample.requesterCommitment).1 = .ok () := by
  refine (accepted_after_iff (m := .new Sample.topology.config 0) (c := Sample.requesterCommitment) (by decide)
    (show ∀ d ∈ [Sample.provider₁Commitment, copiedCommitment], d.nodeId ≠ Sample.requesterCommitment.nodeId by decide)).mpr ?_
  intro before d hp hx hok
  cases before with
  | nil =>
    obtain ⟨rfl, -⟩ := List.cons_prefix_cons.mp hp
    exact absurd hx (by decide)
  | cons a before =>
    obtain ⟨rfl, hrest⟩ := List.cons_prefix_cons.mp hp
    cases before with
    | nil =>
      -- the copy is refused: its node has committed
      obtain ⟨rfl, -⟩ := List.cons_prefix_cons.mp hrest
      exact absurd (acceptCommitment_eq_ok.mpr hok) (by decide)
    | cons b before =>
      have hnil := List.prefix_nil.mp (List.cons_prefix_cons.mp hrest).2
      simp at hnil

end VertexVeil
