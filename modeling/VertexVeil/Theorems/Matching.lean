import VertexVeil.Fixtures
import VertexVeil.Lemmas.InProcess
import VertexVeil.Theorems.RoundMachine

/-!
# Candidates and proposals

`candidate_formation`: the candidate of a round is a matter of which records are feasible, not of how they are listed.
`proposal_accepted_iff`: what the round machine checks of a proposal is the match predicate, so what `deriveCandidate` picks is
accepted.
-/

namespace VertexVeil

open Codec

/-! ## Candidate formation -/

/-- A requester's intent that no candidate can be formed for: it is no requester's, it is of another round, or it names no
capability. -/
def Unmatchable (round : RoundId) : PublicIntent → Prop
  | .provider _ _ _ => True
  | .requester _ r requiredCapability => r ≠ round ∨ requiredCapability.asStr = []

namespace MatchingAux

variable {round : RoundId} {requester : CommitmentRecord} {providers providers' : List CommitmentRecord}

/-- An intent is matchable or it is a requester's of the round that names a capability. -/
theorem matchable_of_not_unmatchable {intent : PublicIntent} (h : ¬ Unmatchable round intent) :
    ∃ n cap, intent = .requester n round cap ∧ cap.asStr ≠ [] := by
  cases intent with
  | provider n r claims => exact absurd trivial h
  | requester n r cap =>
    simp only [Unmatchable, not_or, not_not] at h
    obtain ⟨rfl, hcap⟩ := h
    exact ⟨n, cap, rfl, hcap⟩

theorem deriveCandidate_error_iff :
    (∃ e, deriveCandidate round requester providers = .error e) ↔ Unmatchable round requester.publicIntent := by
  constructor
  · intro h
    obtain ⟨e, he⟩ := h
    by_contra hm
    obtain ⟨n, cap, hintent, hcap⟩ := matchable_of_not_unmatchable hm
    simp only [deriveCandidate, hintent, ne_eq, not_true_eq_false, if_false, hcap] at he
    split at he
    · simp at he
    · simp at he
  · intro hu
    unfold deriveCandidate
    split
    · exact ⟨_, rfl⟩
    · rename_i n r cap hintent
      rw [hintent] at hu
      split
      · exact ⟨_, rfl⟩
      · rename_i hr
        rw [if_pos (hu.resolve_left hr)]
        exact ⟨_, rfl⟩

/-- The candidate depends on the records only through the identifiers of the feasible ones, in any order. -/
theorem deriveCandidate_congr
    (h : (feasibleProviders round requester providers').Perm (feasibleProviders round requester providers)) :
    deriveCandidate round requester providers' = deriveCandidate round requester providers := by
  have hsort : (feasibleProviders round requester providers').insertionSort (· ≤ ·) =
      (feasibleProviders round requester providers).insertionSort (· ≤ ·) := by
    refine List.Perm.eq_of_pairwise' (r := (· ≤ ·)) (List.pairwise_insertionSort _ _) (List.pairwise_insertionSort _ _) ?_
    exact (List.perm_insertionSort _ _).trans (h.trans (List.perm_insertionSort _ _).symm)
  unfold deriveCandidate
  rw [hsort]

end MatchingAux

open MatchingAux

/-- **Candidate formation.** Deriving a candidate fails exactly for a requester's record that is unmatchable. For any other one
there is no candidate exactly when no listed record satisfies the match predicate, and else the candidate is the requester, its
capability and the least node among the records that do. Reordering the list, and adding or removing records that do not,
changes nothing. -/
theorem candidate_formation (round : RoundId) (requester : CommitmentRecord) (providers : List CommitmentRecord) :
    ((∃ e, deriveCandidate round requester providers = .error e) ↔ Unmatchable round requester.publicIntent) ∧
    (∀ n cap, requester.publicIntent = .requester n round cap → cap.asStr ≠ [] →
      (deriveCandidate round requester providers = .ok none ↔
        ∀ p ∈ providers, matchPredicate requester.publicIntent p.publicIntent round ≠ .ok ()) ∧
      ∀ c, deriveCandidate round requester providers = .ok (some c) ↔
        c.requester = requester.nodeId ∧ c.matchedCapability = cap ∧
          IsLeast {k | ∃ p ∈ providers, p.nodeId = k ∧ matchPredicate requester.publicIntent p.publicIntent round = .ok ()}
            c.provider) ∧
    (∀ providers', providers'.Perm providers →
      deriveCandidate round requester providers' = deriveCandidate round requester providers) ∧
    ∀ providers', providers'.filter (fun p => matchPredicate requester.publicIntent p.publicIntent round = .ok ()) =
        providers.filter (fun p => matchPredicate requester.publicIntent p.publicIntent round = .ok ()) →
      deriveCandidate round requester providers' = deriveCandidate round requester providers := by
  refine ⟨deriveCandidate_error_iff, ?_, ?_, ?_⟩
  · intro n cap hintent hcap
    constructor
    · rw [deriveCandidate_eq_none hintent hcap, feasibleProviders, List.map_eq_nil_iff, List.filter_eq_nil_iff]
      simp only [decide_eq_true_eq, ne_eq]
    · intro c
      rw [deriveCandidate_eq_some hintent hcap]
      simp only [mem_feasibleProviders, matchPredicate_eq_ok]
  · intro providers' hperm
    exact deriveCandidate_congr ((hperm.filter _).map _)
  · intro providers' hfilter
    refine deriveCandidate_congr ?_
    rw [feasibleProviders, feasibleProviders, hfilter]

/-- The first provider is the candidate of the sample records, listed in the other order too. -/
theorem candidate_formation_sample :
    deriveCandidate 0 Sample.requesterCommitment [Sample.provider₂Commitment, Sample.provider₁Commitment] =
      .ok (some ⟨Sample.requester, Sample.provider₁, Sample.gpu⟩) := by
  rw [(candidate_formation 0 Sample.requesterCommitment [Sample.provider₁Commitment, Sample.provider₂Commitment]).2.2.1 _
    (List.Perm.swap _ _ _)]
  decide

/-! ## What is accepted of a proposal -/

/-- A proposal that the match predicate allows: none is stored, it is of the active round and by the provider whose turn it is,
both its nodes have accepted commitments which the predicate matches, and its capability is the one the requester requires. -/
structure Allowed (t : TopologyConfig) (m : RoundMachine) (p : ProposalRecord) : Prop where
  unproposed : m.proposal = none
  round : p.round = m.current
  proposer : t.providersStable[p.round.toNat % t.providersStable.length]? = some p.proposer
  matched : ∃ req prov, m.commitments[p.candidateRequester]? = some req ∧ m.commitments[p.candidateProvider]? = some prov ∧
    matchPredicate req.publicIntent prov.publicIntent m.current = .ok () ∧
    ∃ n r, req.publicIntent = .requester n r p.matchedCapability

namespace MatchingAux

open RoundMachine RuntimeState

variable {Γ : Crypto} {m : RoundMachine}

/-- In a machine that keeps its invariant the checks of a proposal are the match predicate. -/
theorem proposable_iff (T : LoadedTopology Γ) (hinv : Inv T.config m) {p : ProposalRecord} :
    Proposable m p ↔ Allowed T.config m p := by
  have hturn : p.round = m.current → (m.currentProposer = .ok p.proposer ↔
      T.config.providersStable[p.round.toNat % T.config.providersStable.length]? = some p.proposer) := by
    intro hr
    rw [currentProposer_eq_ok, hinv.topology, VerifierAux.deterministicProposer_iff T.wellFormed, hr]
  constructor
  · intro h
    obtain ⟨req, r, hreq, hri⟩ := h.requester
    obtain ⟨prov, r', claims, hprov, hpi, hmem⟩ := h.provider
    obtain ⟨-, hr⟩ := (hinv.held _ _ hreq).intent
    obtain ⟨-, hr'⟩ := (hinv.held _ _ hprov).intent
    rw [hri] at hr
    rw [hpi] at hr'
    refine ⟨h.unproposed, h.round, (hturn h.round).mp h.proposer, req, prov, hreq, hprov, ?_, _, _, hri⟩
    rw [matchPredicate_eq_ok, hri, hpi, feasible_iff]
    exact ⟨hr, hr', hmem⟩
  · intro h
    obtain ⟨req, prov, hreq, hprov, hmatch, n, r, hri⟩ := h.matched
    obtain ⟨n', cap, k, claims, hri', hpi, hmem⟩ := matchPredicate_eq_ok.mp hmatch
    obtain ⟨hn, -⟩ := (hinv.held _ _ hreq).intent
    obtain ⟨hk, -⟩ := (hinv.held _ _ hprov).intent
    rw [hri] at hn hri'
    rw [hpi] at hk
    obtain ⟨-, -, rfl⟩ := PublicIntent.requester.inj hri'
    obtain rfl : n = p.candidateRequester := hn
    obtain rfl : k = p.candidateProvider := hk
    exact ⟨h.unproposed, h.round, (hturn h.round).mpr h.proposer, ⟨req, r, hreq, hri⟩, ⟨prov, _, claims, hprov, hpi, hmem⟩⟩

theorem acceptProposal_iff {p : ProposalRecord} : (m.acceptProposal p).1 = .ok () ↔ Proposable m p := by
  rcases acceptProposal_cases m p with ⟨hp, he⟩ | ⟨hp, e, he⟩
  · rw [he]
    exact iff_of_true rfl hp
  · rw [he]
    exact iff_of_false (by simp) hp

/-- What is derived from the machine's commitments is a proposal the machine accepts. -/
theorem proposable_of_candidate {t : TopologyConfig} (hinv : Inv t m) (hnone : m.proposal = none) {proposer id : NodeId}
    {req : CommitmentRecord} {c : Candidate} (hp : m.currentProposer = .ok proposer) (hreq : m.commitments[id]? = some req)
    (hc : deriveCandidate m.current req (m.providersSnapshot id) = .ok (some c)) :
    Proposable m ⟨proposer, m.current, c.requester, c.provider, c.matchedCapability⟩ := by
  have hnot : ¬ Unmatchable m.current req.publicIntent := by
    intro hu
    obtain ⟨e, he⟩ := deriveCandidate_error_iff.mpr hu
    rw [hc] at he
    simp at he
  obtain ⟨n, cap, hintent, hcap⟩ := matchable_of_not_unmatchable hnot
  obtain ⟨hcr, hcc, hleast, -⟩ := (deriveCandidate_eq_some hintent hcap).mp hc
  obtain ⟨prov, hprov, hpn, hfeas⟩ := mem_feasibleProviders.mp hleast
  obtain ⟨k, -, hk⟩ := mem_providersSnapshot.mp hprov
  obtain ⟨_, _, l, claims, hri, hpi, hmem⟩ := hfeas
  have hheld := hinv.held _ _ hreq
  have hheld' := hinv.held _ _ hk
  rw [hintent, PublicIntent.requester.injEq] at hri
  obtain ⟨-, -, rfl⟩ := hri
  have hn := hheld.intent.1
  have hl := hheld'.intent.1
  rw [hintent] at hn
  rw [hpi] at hl
  refine ⟨hnone, rfl, hp, ⟨req, m.current, ?_, ?_⟩, ⟨prov, m.current, claims, ?_, ?_, hcc ▸ hmem⟩⟩
  · rw [hcr, hheld.node]
    exact hreq
  · rw [hintent, hcr, hheld.node, hcc]
    exact congrArg (PublicIntent.requester · _ _) hn
  · rw [← hpn, hheld'.node]
    exact hk
  · rw [hpi, ← hpn, hheld'.node]
    exact congrArg (PublicIntent.provider · _ _) hl

/-- What a state broadcasts in the proposal phase is a proposal its machine accepts. -/
theorem proposable_of_broadcast {s : RuntimeState} {t : TopologyConfig} (hinv : Inv t s.roundMachine)
    (hnone : s.roundMachine.proposal = none) {msg : CoordinationMessage}
    (hmsg : msg ∈ (s.broadcastProposal s.roundMachine.current).1) :
    ∃ p, msg = { origin := p.proposer, payload := .proposal p } ∧ Proposable s.roundMachine p := by
  unfold broadcastProposal at hmsg
  split at hmsg
  · exact absurd hmsg List.not_mem_nil
  · rename_i proposer hp
    split at hmsg
    · exact absurd hmsg List.not_mem_nil
    · split at hmsg
      · exact absurd hmsg List.not_mem_nil
      · split at hmsg
        · exact absurd hmsg List.not_mem_nil
        · rename_i req hreq
          split at hmsg
          · rename_i c hc
            exact ⟨_, List.mem_singleton.mp hmsg, proposable_of_candidate hinv hnone hp hreq hc⟩
          · exact absurd hmsg List.not_mem_nil
          · exact absurd hmsg List.not_mem_nil

/-- A run enters every round without a proposal. -/
theorem Enters.unproposed {s₀ s : RuntimeState} (h : Enters Γ anyDelivery s₀ s) (h₀ : s₀.roundMachine.proposal = none) :
    s.roundMachine.proposal = none := by
  cases h with
  | start => exact h₀
  | next _ _ ha =>
    obtain ⟨rfl, -⟩ := RoundMachine.advanceFallback_ok ha
    rfl

end MatchingAux

/-- **Acceptance of proposals.** In every reachable state the machine accepts exactly the proposals that the match predicate
allows. So it accepts what a process proposes from its own machine while no proposal is stored; and in every run, whatever is
delivered, that is the state in which a process proposes. -/
theorem proposal_accepted_iff {Γ : Crypto} (T : LoadedTopology Γ) :
    (∀ m, (RoundMachine.machine T.config).Reachable m →
      ∀ p, (m.acceptProposal p).1 = .ok () ↔ Allowed T.config m p) ∧
    (∀ s : RuntimeState, (RoundMachine.machine T.config).Reachable s.roundMachine → s.roundMachine.proposal = none →
      ∀ msg ∈ (s.broadcastProposal s.roundMachine.current).1,
        ∃ p, msg = { origin := p.proposer, payload := .proposal p } ∧ (s.roundMachine.acceptProposal p).1 = .ok ()) ∧
    ∀ (agents : Agents) (scenario : Scenario) (maxRounds : UInt64) (salt : Bytes 32) (runId : String) (s s₁ : RuntimeState),
      Enters Γ anyDelivery (.starting T.config agents scenario maxRounds salt runId) s →
      CommitmentsDone Γ anyDelivery s.roundMachine.current s s₁ →
      ∀ msg ∈ (s₁.broadcastProposal s.roundMachine.current).1,
        ∃ p, msg = { origin := p.proposer, payload := .proposal p } ∧ (s₁.roundMachine.acceptProposal p).1 = .ok () := by
  refine ⟨?_, ?_, ?_⟩
  · intro m hm p
    rw [acceptProposal_iff]
    exact proposable_iff T (RoundMachine.inv_of_reachable hm)
  · intro s hm hnone msg hmsg
    obtain ⟨p, he, hp⟩ := proposable_of_broadcast (RoundMachine.inv_of_reachable hm) hnone hmsg
    exact ⟨p, he, acceptProposal_iff.mpr hp⟩
  · intro agents scenario maxRounds salt runId s s₁ henters hdone msg hmsg
    have hat := (Ledger.At.kept T.wellFormed).enters ⟨.initial runId 0 rfl rfl rfl, rfl⟩ henters
    obtain ⟨hl, hcur⟩ := hat.commitmentsDone hdone
    have hnone := hdone.proposal.trans (Enters.unproposed henters rfl)
    rw [← hcur] at hmsg
    obtain ⟨p, he, hp⟩ := proposable_of_broadcast hl.machine hnone hmsg
    exact ⟨p, he, acceptProposal_iff.mpr hp⟩

/-- The proposal that chooses the second provider is accepted, so it is allowed. -/
theorem proposal_accepted_sample : Allowed Sample.topology.config committedMachine (Sample.proposal Sample.provider₂) := by
  have hok : (committedMachine.acceptProposal (Sample.proposal Sample.provider₂)).1 = .ok () := by decide
  exact ((proposal_accepted_iff Sample.topology).1 committedMachine committedMachine_reachable _).mp hok

end VertexVeil
