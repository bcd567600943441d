import Mathlib.Order.Bounds.Basic
import VertexVeil.Artifacts
import VertexVeil.Config

/-!
# Who proposes, and what may be matched

The proposer rotation, the public match predicate, the check of a proposal's annotation and the formation of a candidate.
`Feasible` is the predicate in one line; `matchPredicate_eq_ok`, `validateProposalAnnotation_eq_ok` and the
`deriveCandidate` lemmas say what the checks accept and which provider is chosen.
-/

namespace VertexVeil

open Codec

/-! ## Proposer rotation -/

/-- Errors of the proposer rotation. -/
inductive ProposerError where
  | noProviders
  | duplicateInput (id : Text)
  deriving DecidableEq

/-- The first identifier that occurs before in the list. -/
def firstDuplicate : List NodeId → Finset NodeId → Option NodeId
  | [], _ => none
  | p :: ps, seen => if p ∈ seen then some p else firstDuplicate ps (insert p seen)

/-- The proposer of a round: the provider at index `round mod len`. -/
def proposerForRound (round : RoundId) (providersStable : List NodeId) : Except ProposerError NodeId :=
  match providersStable with
  | [] => .error .noProviders
  | p :: ps =>
    match firstDuplicate (p :: ps) ∅ with
    | some d => .error (.duplicateInput d.toHex)
    | none => .ok ((p :: ps).get ⟨round.toNat % (p :: ps).length, Nat.mod_lt _ (Nat.succ_pos _)⟩)

/-- The providers of a topology in stable key order. -/
def TopologyConfig.providersStable (t : TopologyConfig) : List NodeId := t.providersStableOrder.map (·.id)

/-- The proposer of a round in a topology. -/
def deterministicProposer (t : TopologyConfig) (round : RoundId) : Except ProposerError NodeId :=
  proposerForRound round t.providersStable

theorem firstDuplicate_eq_none {ps : List NodeId} {seen : Finset NodeId} :
    firstDuplicate ps seen = none ↔ ps.Nodup ∧ ∀ p ∈ ps, p ∉ seen := by
  induction ps generalizing seen with
  | nil => simp [firstDuplicate]
  | cons p ps ih =>
    rw [firstDuplicate]
    split
    · rename_i hp
      simp [hp]
    · rename_i hp
      rw [ih, List.nodup_cons, List.forall_mem_cons]
      simp only [Finset.mem_insert, not_or]
      constructor
      · rintro ⟨hnd, h⟩
        exact ⟨⟨fun hm => (h p hm).1 rfl, hnd⟩, hp, fun q hq => (h q hq).2⟩
      · rintro ⟨⟨hm, hnd⟩, -, h⟩
        exact ⟨hnd, fun q hq => ⟨fun he => hm (he ▸ hq), h q hq⟩⟩

/-- The rotation succeeds on a nonempty list of distinct identifiers. -/
theorem proposerForRound_eq_ok {round : RoundId} {ps : List NodeId} (hne : ps ≠ []) (hnd : ps.Nodup) :
    proposerForRound round ps =
      .ok (ps.get ⟨round.toNat % ps.length, Nat.mod_lt _ (List.length_pos_iff.mpr hne)⟩) := by
  cases ps with
  | nil => exact absurd rfl hne
  | cons p ps =>
    have hd : firstDuplicate (p :: ps) ∅ = none := firstDuplicate_eq_none.mpr ⟨hnd, by simp⟩
    simp only [proposerForRound, hd]

/-- In a well-formed topology every round has a proposer, one of the providers. -/
theorem TopologyConfig.WellFormed.deterministicProposer_eq {Γ : Crypto} {t : TopologyConfig} (h : t.WellFormed Γ)
    (round : RoundId) : ∃ p ∈ t.providersStable, deterministicProposer t round = .ok p := by
  have hne : t.providersStable ≠ [] := fun h0 => h.providers_ne_nil (List.map_eq_nil_iff.mp h0)
  exact ⟨_, List.get_mem _ _, proposerForRound_eq_ok hne h.providers_nodup⟩

/-! ## The match predicate -/

/-- Why the predicate, or the check of an annotation, refuses. -/
inductive PredicateDenial where
  | wrongRequesterRole
  | wrongProviderRole
  | requesterRoundMismatch
  | providerRoundMismatch
  | requesterProviderRoundMismatch
  | providerLacksCapability
  | requesterIdentityMismatch
  | providerIdentityMismatch
  | capabilityAnnotationMismatch
  deriving DecidableEq

/-- The machine-readable tag of a denial. -/
def PredicateDenial.tag : PredicateDenial → String
  | wrongRequesterRole => "wrong_requester_role"
  | wrongProviderRole => "wrong_provider_role"
  | requesterRoundMismatch => "requester_round_mismatch"
  | providerRoundMismatch => "provider_round_mismatch"
  | requesterProviderRoundMismatch => "requester_provider_round_mismatch"
  | providerLacksCapability => "provider_lacks_capability"
  | requesterIdentityMismatch => "requester_identity_mismatch"
  | providerIdentityMismatch => "provider_identity_mismatch"
  | capabilityAnnotationMismatch => "capability_annotation_mismatch"

/-- The match predicate over public inputs. -/
def matchPredicate (requester provider : PublicIntent) (round : RoundId) : Except PredicateDenial Unit :=
  match requester with
  | .provider _ _ _ => .error .wrongRequesterRole
  | .requester _ reqRound reqCap =>
    match provider with
    | .requester _ _ _ => .error .wrongProviderRole
    | .provider _ provRound provClaims =>
      if reqRound ≠ round ∧ provRound ≠ round then .error .requesterProviderRoundMismatch
      else if reqRound ≠ round then .error .requesterRoundMismatch
      else if provRound ≠ round then .error .providerRoundMismatch
      else if reqCap ∉ provClaims then .error .providerLacksCapability
      else .ok ()

/-- What the predicate decides: a requester's intent and a provider's intent of the round, the required capability claimed. -/
def Feasible (requester provider : PublicIntent) (round : RoundId) : Prop :=
  ∃ n cap m claims, requester = .requester n round cap ∧ provider = .provider m round claims ∧ cap ∈ claims

theorem feasible_iff {n m : NodeId} {r r' round : RoundId} {cap : CapabilityTag} {claims : List CapabilityTag} :
    Feasible (.requester n r cap) (.provider m r' claims) round ↔ r = round ∧ r' = round ∧ cap ∈ claims := by
  constructor
  · rintro ⟨_, _, _, _, h, h', hm⟩
    simp only [PublicIntent.requester.injEq, PublicIntent.provider.injEq] at h h'
    obtain ⟨-, hr, rfl⟩ := h
    obtain ⟨-, hr', rfl⟩ := h'
    exact ⟨hr, hr', hm⟩
  · rintro ⟨rfl, rfl, hm⟩
    exact ⟨n, cap, m, claims, rfl, rfl, hm⟩

theorem matchPredicate_eq_ok {requester provider : PublicIntent} {round : RoundId} :
    matchPredicate requester provider round = .ok () ↔ Feasible requester provider round := by
  cases requester with
  | provider n r claims => simp [matchPredicate, Feasible]
  | requester n r cap =>
    cases provider with
    | requester m r' cap' => simp [matchPredicate, Feasible]
    | provider m r' claims =>
      rw [feasible_iff]
      simp only [matchPredicate]
      by_cases h1 : r = round <;> by_cases h2 : r' = round <;> by_cases h3 : cap ∈ claims <;> simp [h1, h2, h3]

instance (requester provider : PublicIntent) (round : RoundId) : Decidable (Feasible requester provider round) :=
  decidable_of_iff _ matchPredicate_eq_ok

/-- Check that a proposal's annotation agrees with the intents it points at. -/
def validateProposalAnnotation (candidateRequester : NodeId) (requesterIntent : PublicIntent) (candidateProvider : NodeId)
    (providerIntent : PublicIntent) (matchedCapability : CapabilityTag) : Except PredicateDenial Unit :=
  if requesterIntent.nodeId ≠ candidateRequester then .error .requesterIdentityMismatch
  else if providerIntent.nodeId ≠ candidateProvider then .error .providerIdentityMismatch
  else match requesterIntent with
    | .requester _ _ requiredCapability =>
      if requiredCapability ≠ matchedCapability then .error .capabilityAnnotationMismatch else .ok ()
    | .provider _ _ _ => .error .wrongRequesterRole

theorem validateProposalAnnotation_eq_ok {req prov : NodeId} {reqIntent provIntent : PublicIntent}
    {cap : CapabilityTag} : validateProposalAnnotation req reqIntent prov provIntent cap = .ok () ↔
      (∃ r, reqIntent = .requester req r cap) ∧ provIntent.nodeId = prov := by
  unfold validateProposalAnnotation
  cases reqIntent with
  | provider n r claims => split_ifs <;> simp
  | requester n r cap' =>
    by_cases h1 : n = req <;> by_cases h2 : provIntent.nodeId = prov <;> by_cases h3 : cap' = cap <;>
      simp [PublicIntent.nodeId.eq_1, h1, h2, h3]

/-! ## Candidates -/

/-- A candidate match. -/
structure Candidate where
  requester : NodeId
  provider : NodeId
  matchedCapability : CapabilityTag
  deriving DecidableEq

/-- Why no candidate can be formed. -/
inductive CandidateRejection where
  | missingRequesterCapability
  | wrongRoundInRequester
  deriving DecidableEq

/-- The feasible providers among the records, in record order. -/
def feasibleProviders (round : RoundId) (requester : CommitmentRecord) (providers : List CommitmentRecord) :
    List NodeId :=
  (providers.filter (fun p => matchPredicate requester.publicIntent p.publicIntent round = .ok ())).map (·.nodeId)

/-- Derive the candidate of a round: the feasible provider with the smallest key. -/
def deriveCandidate (round : RoundId) (requester : CommitmentRecord) (providers : List CommitmentRecord) :
    Except CandidateRejection (Option Candidate) :=
  match requester.publicIntent with
  | .provider _ _ _ => .error .missingRequesterCapability
  | .requester _ r requiredCapability =>
    if r ≠ round then .error .wrongRoundInRequester
    else if requiredCapability.asStr = [] then .error .missingRequesterCapability
    else match (feasibleProviders round requester providers).insertionSort (· ≤ ·) with
      | [] => .ok none
      | provider :: _ => .ok (some { requester := requester.nodeId, provider, matchedCapability := requiredCapability })

theorem mem_feasibleProviders {round : RoundId} {requester : CommitmentRecord} {providers : List CommitmentRecord}
    {n : NodeId} : n ∈ feasibleProviders round requester providers ↔
      ∃ p ∈ providers, p.nodeId = n ∧ Feasible requester.publicIntent p.publicIntent round := by
  simp only [feasibleProviders, List.mem_map, List.mem_filter, decide_eq_true_eq, matchPredicate_eq_ok]
  exact ⟨fun ⟨p, ⟨hp, hf⟩, hn⟩ => ⟨p, hp, hn, hf⟩, fun ⟨p, hp, hn, hf⟩ => ⟨p, ⟨hp, hf⟩, hn⟩⟩

/-- The head of a sorted list is its least element. -/
theorem isLeast_of_insertionSort {l : List NodeId} {n : NodeId} {ns : List NodeId}
    (h : l.insertionSort (· ≤ ·) = n :: ns) : IsLeast {m | m ∈ l} n := by
  have hp := List.pairwise_insertionSort (· ≤ ·) l
  rw [h, List.pairwise_cons] at hp
  have hm : ∀ m, m ∈ l ↔ m ∈ n :: ns := fun m => by rw [← h, List.mem_insertionSort]
  refine ⟨(hm n).mpr List.mem_cons_self, ?_⟩
  intro m hl
  rcases List.mem_cons.mp ((hm m).mp hl) with rfl | hns
  · exact le_refl _
  · exact hp.1 m hns

/-- From a requester's intent of the round with a nonempty capability, a candidate is formed exactly for the feasible
provider with the least key. -/
theorem deriveCandidate_eq_some {round : RoundId} {requester : CommitmentRecord} {providers : List CommitmentRecord}
    {n : NodeId} {cap : CapabilityTag} (hr : requester.publicIntent = .requester n round cap) (hc : cap.asStr ≠ [])
    {c : Candidate} : deriveCandidate round requester providers = .ok (some c) ↔
      c.requester = requester.nodeId ∧ c.matchedCapability = cap ∧
        IsLeast {m | m ∈ feasibleProviders round requester providers} c.provider := by
  simp only [deriveCandidate, hr, ne_eq, not_true_eq_false, if_false, hc]
  split
  · rename_i hs
    simp only [Except.ok.injEq, reduceCtorEq, false_iff, not_and]
    intro _ _ hl
    have hm := (List.mem_insertionSort (· ≤ ·)).mpr hl.1
    rw [hs] at hm
    exact List.not_mem_nil hm
  · rename_i provider rest hs
    have hl := isLeast_of_insertionSort hs
    simp only [Except.ok.injEq, Option.some.injEq]
    constructor
    · rintro rfl
      exact ⟨rfl, rfl, hl⟩
    · rintro ⟨h1, h2, h3⟩
      cases c
      simp only at h1 h2 h3
      simp only [Candidate.mk.injEq]
      exact ⟨h1.symm, hl.unique h3, h2.symm⟩

/-- Where a provider is feasible a candidate is formed, with a provider at or below it, and with this one exactly when none
below it is feasible. -/
theorem deriveCandidate_of_feasible {round : RoundId} {requester : CommitmentRecord} {providers : List CommitmentRecord}
    {n : NodeId} {cap : CapabilityTag} (hr : requester.publicIntent = .requester n round cap) (hc : cap.asStr ≠ [])
    {m : NodeId} (hm : m ∈ feasibleProviders round requester providers) :
    ∃ c, deriveCandidate round requester providers = .ok (some c) ∧ c.requester = requester.nodeId ∧
      c.matchedCapability = cap ∧ c.provider ≤ m ∧
      (c.provider = m ↔ ∀ k ∈ feasibleProviders round requester providers, m ≤ k) := by
  obtain ⟨l, hl⟩ : ∃ l, (feasibleProviders round requester providers).insertionSort (· ≤ ·) = l := ⟨_, rfl⟩
  cases l with
  | nil =>
    have hms := (List.mem_insertionSort (· ≤ ·)).mpr hm
    rw [hl] at hms
    exact absurd hms List.not_mem_nil
  | cons k ks =>
    have hleast := isLeast_of_insertionSort hl
    have hd := (deriveCandidate_eq_some (c := ⟨requester.nodeId, k, cap⟩) hr hc).mpr ⟨rfl, rfl, hleast⟩
    refine ⟨_, hd, rfl, rfl, hleast.2 hm, fun he q hq => he ▸ hleast.2 hq, ?_⟩
    intro hmin
    exact le_antisymm (hleast.2 hm) (hmin k hleast.1)

/-- No candidate is formed exactly when no provider is feasible. -/
theorem deriveCandidate_eq_none {round : RoundId} {requester : CommitmentRecord} {providers : List CommitmentRecord}
    {n : NodeId} {cap : CapabilityTag} (hr : requester.publicIntent = .requester n round cap) (hc : cap.asStr ≠ []) :
    deriveCandidate round requester providers = .ok none ↔ feasibleProviders round requester providers = [] := by
  simp only [deriveCandidate, hr, ne_eq, not_true_eq_false, if_false, hc]
  have hlen : ((feasibleProviders round requester providers).insertionSort (· ≤ ·)).length =
      (feasibleProviders round requester providers).length := List.length_insertionSort _ _
  split
  · rename_i hs
    rw [hs, List.length_nil] at hlen
    simp [List.length_eq_zero_iff.mp hlen.symm]
  · rename_i hs
    rw [hs] at hlen
    simp only [Except.ok.injEq, reduceCtorEq, false_iff]
    intro h0
    rw [h0] at hlen
    simp at hlen

end VertexVeil
