import VertexVeil.Soundness

/-!
# Helpers for `Theorems/Verifier.lean`: what the absence of a section's reasons means

One lemma a section: its reasons are empty exactly when the records it reads are sound. The later sections assume that the
commitments are, since they look commitments up by key.
-/

namespace VertexVeil

open Codec

namespace VerifierAux

variable {Γ : Crypto} {t : TopologyConfig} {log : CoordinationLog}

theorem schemaReasons_eq_nil : schemaReasons log = [] ↔ log.schemaVersion = 1 := by
  simp [schemaReasons, reasonIf_eq_nil]

/-! ## Commitments -/

theorem commitmentReasonsOf_eq_nil {node : NodeConfig} {seen : Finset (NodeId × RoundId)} {c : CommitmentRecord} :
    commitmentReasonsOf node seen c = [] ↔
      (node.role = c.publicIntent.role ∧ c.publicIntent.nodeId = c.nodeId ∧ c.publicIntent.round = c.round) ∧
        c.key ∉ seen := by
  simp only [commitmentReasonsOf, List.append_eq_nil_iff, reasonIf_eq_nil, decide_eq_false_iff_not, not_not,
    CommitmentRecord.key, ne_eq]
  constructor
  · rintro ⟨⟨⟨h1, h2⟩, h3⟩, h4⟩
    exact ⟨⟨h1.symm, h2, h3⟩, h4⟩
  · rintro ⟨⟨h1, h2, h3⟩, h4⟩
    exact ⟨⟨⟨h1.symm, h2⟩, h3⟩, h4⟩

/-- The commitments section adds nothing exactly when every commitment is sound and no key occurs twice. -/
theorem commitmentReasons_eq_nil (ht : t.WellFormed Γ) {seen : Finset (NodeId × RoundId)} {cs : List CommitmentRecord} :
    commitmentReasons t seen cs = [] ↔
      (∀ c ∈ cs, SoundCommitment t c) ∧ (cs.map (·.key)).Nodup ∧ ∀ c ∈ cs, c.key ∉ seen := by
  induction cs generalizing seen with
  | nil => simp [commitmentReasons]
  | cons c cs ih =>
    rw [commitmentReasons]
    cases hn : t.findNode c.nodeId with
    | none =>
      simp only [reduceCtorEq, false_iff]
      rintro ⟨hs, -, -⟩
      obtain ⟨n, hm, hid, -⟩ := (hs c List.mem_cons_self).node
      rw [← hid, ht.findNode_self hm] at hn
      simp at hn
    | some node =>
      obtain ⟨hm, hid⟩ := TopologyConfig.findNode_some hn
      dsimp only
      rw [List.append_eq_nil_iff, commitmentReasonsOf_eq_nil, ih]
      simp only [List.map_cons, List.nodup_cons, List.forall_mem_cons, Finset.mem_insert, not_or, List.mem_map, not_exists,
        not_and]
      constructor
      · rintro ⟨⟨⟨hr, hi, hd⟩, hk⟩, hs, hnd, hseen⟩
        exact ⟨⟨⟨⟨node, hm, hid, hr⟩, hi, hd⟩, hs⟩, ⟨fun d hd' => (hseen d hd').1, hnd⟩, hk, fun d hd' => (hseen d hd').2⟩
      · rintro ⟨⟨hc, hs⟩, ⟨hne, hnd⟩, hk, hseen⟩
        obtain ⟨n, hn', hid', hr⟩ := hc.node
        have he : n = node := ht.node_eq hn' hm (hid'.trans hid.symm)
        subst he
        exact ⟨⟨⟨hr, hc.intentNode, hc.intentRound⟩, hk⟩, hs, hnd, fun d hd' => ⟨hne d hd', hseen d hd'⟩⟩

/-- Where no key occurs twice, a commitment is looked up exactly when the log holds it. -/
theorem commitmentOf_iff (hk : (log.commitments.map (·.key)).Nodup) {node : NodeId} {round : RoundId}
    {c : CommitmentRecord} : log.commitmentOf node round = some c ↔ log.HasCommitment node round c := by
  constructor
  · exact CoordinationLog.commitmentOf_some
  · rintro ⟨hc, rfl, rfl⟩
    exact CoordinationLog.commitmentOf_eq hk hc

/-! ## Proposals -/

/-- The rotation gives the provider at the round's index. -/
theorem deterministicProposer_iff (ht : t.WellFormed Γ) {round : RoundId} {p : NodeId} :
    deterministicProposer t round = .ok p ↔
      t.providersStable[round.toNat % t.providersStable.length]? = some p := by
  have hne : t.providersStable ≠ [] := fun h0 => ht.providers_ne_nil (List.map_eq_nil_iff.mp h0)
  rw [deterministicProposer, proposerForRound_eq_ok hne ht.providers_nodup, Except.ok.injEq, List.get_eq_getElem,
    List.getElem?_eq_getElem (Nat.mod_lt _ (List.length_pos_iff.mpr hne)), Option.some.injEq]

theorem proposerReasons_eq_nil (ht : t.WellFormed Γ) {p : ProposalRecord} :
    proposerReasons t p = [] ↔ t.providersStable[p.round.toNat % t.providersStable.length]? = some p.proposer := by
  obtain ⟨q, -, hq⟩ := ht.deterministicProposer_eq p.round
  rw [proposerReasons, hq]
  simp only [reasonIf_eq_nil, decide_eq_false_iff_not, not_not, ne_eq]
  rw [← deterministicProposer_iff ht, hq, Except.ok.injEq]

theorem annotationReasons_eq_nil {p : ProposalRecord} {req prov : CommitmentRecord} :
    annotationReasons p req prov = [] ↔
      (∃ r, req.publicIntent = .requester p.candidateRequester r p.matchedCapability) ∧
        prov.publicIntent.nodeId = p.candidateProvider := by
  rw [← validateProposalAnnotation_eq_ok, annotationReasons]
  split
  · rename_i h
    simp [h]
  · rename_i h
    simp [h]

theorem claimReasons_eq_nil {p : ProposalRecord} {i : PublicIntent} :
    claimReasons p i = [] ↔ ∀ n r claims, i = .provider n r claims → p.matchedCapability ∈ claims := by
  cases i with
  | requester n r cap => simp [claimReasons]
  | provider n r claims =>
    simp only [claimReasons, reasonIf_eq_nil, decide_eq_false_iff_not, not_not, PublicIntent.provider.injEq]
    constructor
    · rintro h _ _ _ ⟨-, -, rfl⟩
      exact h
    · intro h
      exact h n r claims ⟨rfl, rfl, rfl⟩

/-- The checks of a proposal add nothing exactly when it is sound. -/
theorem proposalReasonsOf_eq_nil (ht : t.WellFormed Γ) (hs : ∀ c ∈ log.commitments, SoundCommitment t c)
    (hk : (log.commitments.map (·.key)).Nodup) {p : ProposalRecord} :
    proposalReasonsOf t log p = [] ↔ SoundProposal t log p := by
  rw [proposalReasonsOf, List.append_eq_nil_iff, proposerReasons_eq_nil ht]
  constructor
  · rintro ⟨hp, h⟩
    split at h
    · rename_i req prov hreq hprov
      rw [List.append_eq_nil_iff, annotationReasons_eq_nil, claimReasons_eq_nil] at h
      obtain ⟨⟨⟨r, hr⟩, -⟩, hc⟩ := h
      exact ⟨hp, ⟨req, _, r, (commitmentOf_iff hk).mp hreq, hr⟩, ⟨prov, (commitmentOf_iff hk).mp hprov, hc⟩⟩
    · simp at h
  · rintro ⟨hp, ⟨req, n, r, hreq, hr⟩, ⟨prov, hprov, hc⟩⟩
    refine ⟨hp, ?_⟩
    rw [(commitmentOf_iff hk).mpr hreq, (commitmentOf_iff hk).mpr hprov]
    simp only [List.append_eq_nil_iff, annotationReasons_eq_nil, claimReasons_eq_nil]
    have hn : n = p.candidateRequester := by
      have := (hs req hreq.1).intentNode
      rw [hr] at this
      exact this.trans hreq.2.1
    exact ⟨⟨⟨r, hn ▸ hr⟩, (hs prov hprov.1).intentNode.trans hprov.2.1⟩, hc⟩

/-- The proposals section adds nothing exactly when every proposal is sound. -/
theorem proposalReasons_eq_nil (ht : t.WellFormed Γ) (hs : ∀ c ∈ log.commitments, SoundCommitment t c)
    (hk : (log.commitments.map (·.key)).Nodup) :
    proposalReasons t log = [] ↔ ∀ p ∈ log.proposals, SoundProposal t log p := by
  rw [proposalReasons, List.flatMap_eq_nil_iff]
  exact forall₂_congr (fun p _ => proposalReasonsOf_eq_nil ht hs hk)

/-! ## Proofs -/

theorem proofMarkerReasons_eq_nil {a : ProofArtifactRecord} :
    proofMarkerReasons a = [] ↔ ∃ m rest, hexDecode a.proofHex = some (m :: rest) ∧ (m = 1 ∨ m = 2) := by
  unfold proofMarkerReasons
  split
  · rename_i h
    simp [h]
  · rename_i h
    simp [h]
  · rename_i m rest h
    simp only [reasonIf_eq_nil, decide_eq_false_iff_not, h, Option.some.injEq, List.cons.injEq]
    constructor
    · intro hm
      exact ⟨m, rest, ⟨rfl, rfl⟩, by by_contra hc; exact hm ⟨fun h1 => hc (Or.inl h1), fun h2 => hc (Or.inr h2)⟩⟩
    · rintro ⟨m', rest', ⟨rfl, rfl⟩, hm | hm⟩
      · exact fun hc => hc.1 hm
      · exact fun hc => hc.2 hm

/-- The checks of a proof add nothing exactly when it is sound. -/
theorem proofReasonsOf_eq_nil (hk : (log.commitments.map (·.key)).Nodup) {a : ProofArtifactRecord} :
    proofReasonsOf log a = [] ↔ SoundProof log a := by
  unfold proofReasonsOf
  split
  · rename_i hp
    simp only [reduceCtorEq, false_iff]
    rintro ⟨⟨c, digest, -, -, h⟩, -⟩
    rw [hp] at h
    simp at h
  · rename_i piRound piNode piCommit piRole hp
    simp only [List.append_eq_nil_iff, reasonIf_eq_nil, decide_eq_false_iff_not, not_not, ne_eq]
    constructor
    · rintro ⟨⟨rfl, rfl⟩, h⟩
      split at h
      · simp at h
      · rename_i c hc
        simp only [List.append_eq_nil_iff, reasonIf_eq_nil, decide_eq_false_iff_not, not_not,
          proofMarkerReasons_eq_nil] at h
        obtain ⟨⟨he, rfl⟩, hm⟩ := h
        exact ⟨⟨c, piCommit, (commitmentOf_iff hk).mp hc, he, hp⟩, hm⟩
    · rintro ⟨⟨c, digest, hc, he, h⟩, hm⟩
      rw [hp, Option.some.injEq] at h
      simp only [Prod.mk.injEq] at h
      obtain ⟨rfl, rfl, rfl, rfl⟩ := h
      refine ⟨⟨rfl, rfl⟩, ?_⟩
      rw [(commitmentOf_iff hk).mpr hc]
      simp only [List.append_eq_nil_iff, reasonIf_eq_nil, decide_eq_false_iff_not, not_not, proofMarkerReasons_eq_nil]
      exact ⟨⟨he, trivial⟩, hm⟩

/-- The proofs section adds nothing exactly when every proof is sound. -/
theorem proofReasons_eq_nil (hk : (log.commitments.map (·.key)).Nodup) :
    proofReasons log = [] ↔ ∀ a ∈ log.proofs, SoundProof log a := by
  rw [proofReasons, List.flatMap_eq_nil_iff]
  exact forall₂_congr (fun a _ => proofReasonsOf_eq_nil hk)

/-- The sections before the final round add nothing exactly when the records they read are sound. -/
theorem structureReasons_eq_nil (ht : t.WellFormed Γ) :
    structureReasons t log = [] ↔ log.schemaVersion = 1 ∧ (∀ c ∈ log.commitments, SoundCommitment t c) ∧
      (log.commitments.map (·.key)).Nodup ∧ (∀ p ∈ log.proposals, SoundProposal t log p) ∧
        ∀ a ∈ log.proofs, SoundProof log a := by
  simp only [structureReasons, List.append_eq_nil_iff, schemaReasons_eq_nil, commitmentReasons_eq_nil ht, and_assoc]
  constructor
  · rintro ⟨h1, h2, h3, -, h4, h5⟩
    exact ⟨h1, h2, h3, (proposalReasons_eq_nil ht h2 h3).mp h4, (proofReasons_eq_nil h3).mp h5⟩
  · rintro ⟨h1, h2, h3, h4, h5⟩
    exact ⟨h1, h2, h3, fun c _ => Finset.notMem_empty _, (proposalReasons_eq_nil ht h2 h3).mpr h4,
      (proofReasons_eq_nil h3).mpr h5⟩

/-! ## The final round -/

/-- The verifier's signature check decides `ReceiptSigned`. -/
theorem receiptSignatureOk_iff (ht : t.WellFormed Γ) {sig : Text} {provider : NodeId} {round : RoundId}
    {capability : Text} :
    receiptSignatureOk Γ t sig provider round capability = true ↔ ReceiptSigned Γ t sig provider round capability := by
  unfold receiptSignatureOk ReceiptSigned
  cases hpk : (t.findNode provider).bind (·.signingPublicKey) with
  | none =>
    simp only [decide_eq_true_eq]
    rfl
  | some pk =>
    obtain ⟨n, hn, hkey⟩ := Option.bind_eq_some_iff.mp hpk
    have hv := ht.keys n (TopologyConfig.findNode_some hn).1 pk hkey
    exact decide_eq_true_iff.trans (verifyReceiptEd25519_eq_ok hv)

/-- A signature that certifies a match is not empty. -/
theorem receiptSigned_ne_nil {sig : Text} {provider : NodeId} {round : RoundId} {capability : Text}
    (h : ReceiptSigned Γ t sig provider round capability) : sig ≠ [] := by
  rintro rfl
  unfold ReceiptSigned at h
  split at h
  · obtain ⟨raw, hd, -⟩ := h
    have hl : raw.toList.length = 64 := List.Vector.toList_length _
    simp only [hexDecode, Option.some.injEq] at hd
    rw [← hd] at hl
    simp at hl
  · have hl := congrArg List.length h
    simp [hexEncode_length] at hl

theorem signatureReasons_eq_nil (ht : t.WellFormed Γ) {p : ProposalRecord} {r : CompletionReceiptRecord} :
    signatureReasons Γ t log p r = [] ↔
      ReceiptSigned Γ t r.signatureHex p.candidateProvider log.finalRound p.matchedCapability.asStr := by
  unfold signatureReasons
  split
  · rename_i h0
    simp only [reduceCtorEq, false_iff]
    exact fun h => receiptSigned_ne_nil h h0
  · rw [reasonIf_eq_nil, ← receiptSignatureOk_iff ht]
    simp

theorem finalProofReasons_eq_nil {p : ProposalRecord} : finalProofReasons log p = [] ↔
    (∃ a ∈ log.proofs, a.round = log.finalRound ∧ a.nodeId = p.candidateRequester) ∧
      ∃ a ∈ log.proofs, a.round = log.finalRound ∧ a.nodeId = p.candidateProvider := by
  rw [finalProofReasons, List.append_eq_nil_iff, reasonIf_eq_nil, reasonIf_eq_nil, ← CoordinationLog.hasProof_iff,
    ← CoordinationLog.hasProof_iff]
  simp

/-- For a sound proposal, the predicate holds between the two commitments exactly when the provider committed as one. -/
theorem feasible_iff_role (hs : ∀ c ∈ log.commitments, SoundCommitment t c) (hk : (log.commitments.map (·.key)).Nodup)
    {p : ProposalRecord} (hp : SoundProposal t log p) {req prov : CommitmentRecord}
    (hreq : log.HasCommitment p.candidateRequester p.round req) (hprov : log.HasCommitment p.candidateProvider p.round prov) :
    Feasible req.publicIntent prov.publicIntent p.round ↔ prov.publicIntent.role = .provider := by
  obtain ⟨req', n, r, hreq', hri⟩ := hp.requester
  obtain ⟨prov', hprov', hclaims⟩ := hp.provider
  have he := Option.some.inj (((commitmentOf_iff hk).mpr hreq).symm.trans ((commitmentOf_iff hk).mpr hreq'))
  have he' := Option.some.inj (((commitmentOf_iff hk).mpr hprov).symm.trans ((commitmentOf_iff hk).mpr hprov'))
  subst he he'
  have hrr : r = p.round := by
    have := (hs req hreq.1).intentRound
    rw [hri] at this
    exact this.trans hreq.2.2
  have hpr : prov.publicIntent.round = p.round := (hs prov hprov.1).intentRound.trans hprov.2.2
  cases hpi : prov.publicIntent with
  | requester m r' cap => simp [Feasible, PublicIntent.role]
  | provider m r' claims =>
    rw [hpi] at hpr
    rw [hri, feasible_iff]
    exact ⟨fun _ => rfl, fun _ => ⟨hrr, hpr, hclaims m r' claims hpi⟩⟩

/-- For a sound proposal of the final round, the predicate section adds nothing exactly when the provider committed as a
provider. -/
theorem predicateReasons_eq_nil (log : CoordinationLog) (hs : ∀ c ∈ log.commitments, SoundCommitment t c)
    (hk : (log.commitments.map (·.key)).Nodup) {p : ProposalRecord} (hp : SoundProposal t log p)
    (hr : p.round = log.finalRound) : predicateReasons log p = [] ↔
      ∃ c, log.HasCommitment p.candidateProvider log.finalRound c ∧ c.publicIntent.role = .provider := by
  obtain ⟨req, n, r, hreq, -⟩ := hp.requester
  obtain ⟨prov, hprov, -⟩ := hp.provider
  have hiff : predicateReasons log p = [] ↔ Feasible req.publicIntent prov.publicIntent log.finalRound := by
    rw [← matchPredicate_eq_ok]
    simp only [predicateReasons, predicateHoldsForLog, ← hr, (commitmentOf_iff hk).mpr hreq,
      (commitmentOf_iff hk).mpr hprov]
    cases matchPredicate req.publicIntent prov.publicIntent p.round <;> simp
  rw [hiff, ← hr, feasible_iff_role hs hk hp hreq hprov]
  constructor
  · intro hrole
    exact ⟨prov, hprov, hrole⟩
  · rintro ⟨c, hc, hrole⟩
    have hcp := Option.some.inj (((commitmentOf_iff hk).mpr hc).symm.trans ((commitmentOf_iff hk).mpr hprov))
    exact hcp ▸ hrole

/-! ## Rejections -/

theorem rejectionReasons_eq_nil : rejectionReasons log = [] ↔ ∀ rj ∈ log.rejections, SoundRejection log rj := by
  rw [rejectionReasons, List.flatMap_eq_nil_iff]
  refine forall₂_congr ?_
  intro rj _
  rw [rejectionReasonsOf, List.append_eq_nil_iff, reasonIf_eq_nil, reasonIf_eq_nil, SoundRejection]
  simp only [decide_eq_false_iff_not, not_or, UInt64.not_lt]

/-! ## The verdict -/

/-- A valid log gives no reason in the sections before the final round. -/
theorem structureReasons_of_valid (h : (verifyLog Γ t log).valid = true) : structureReasons t log = [] := by
  unfold verifyLog at h
  split at h
  · simp at h
  · simp only [List.isEmpty_iff, List.append_eq_nil_iff] at h
    exact h.1.1

/-- The verdict: nothing ends the verification early, and no section adds a reason. -/
theorem verifyLog_valid : (verifyLog Γ t log).valid = true ↔
    structureReasons t log = [] ∧ finalReasons Γ t log = .ok [] ∧ rejectionReasons log = [] := by
  unfold verifyLog
  split
  · rename_i h
    simp [h]
  · rename_i h
    simp only [h, List.isEmpty_iff, List.append_eq_nil_iff, and_assoc, Except.ok.injEq]

/-- The final-round section of a finalized log adds nothing exactly when the final round is sound. -/
theorem finalReasons_eq_nil (ht : t.WellFormed Γ) (hf : log.finalized = true)
    (hs : ∀ c ∈ log.commitments, SoundCommitment t c) (hk : (log.commitments.map (·.key)).Nodup)
    (hp : ∀ p ∈ log.proposals, SoundProposal t log p) :
    finalReasons Γ t log = .ok [] ↔ ∃ p, SoundFinal Γ t log p := by
  unfold finalReasons
  rw [if_pos hf]
  split
  · rename_i hnone
    simp only [reduceCtorEq, false_iff, not_exists]
    intro p h
    rw [h.last] at hnone
    simp at hnone
  · rename_i p hlast
    obtain ⟨hmem, hround⟩ := CoordinationLog.proposalOf_some hlast
    have huniq : ∀ q, SoundFinal Γ t log q → q = p := fun q h => Option.some.inj (h.last.symm.trans hlast)
    split
    · rename_i hnone
      simp only [reduceCtorEq, false_iff, not_exists]
      intro q h
      obtain ⟨r, hr, -⟩ := h.receipt
      rw [huniq q h, hnone] at hr
      simp at hr
    · rename_i r hr
      simp only [Except.ok.injEq, List.append_eq_nil_iff, predicateReasons_eq_nil log hs hk (hp p hmem) hround,
        signatureReasons_eq_nil ht, finalProofReasons_eq_nil]
      constructor
      · rintro ⟨⟨hprov, hsig⟩, hrp, hpp⟩
        exact ⟨p, hlast, hprov, ⟨r, hr, hsig⟩, hrp, hpp⟩
      · rintro ⟨q, h⟩
        obtain rfl := huniq q h
        obtain ⟨r', hr', hsig⟩ := h.receipt
        rw [hr, Option.some.injEq] at hr'
        exact ⟨⟨h.provider, hr' ▸ hsig⟩, h.requesterProof, h.providerProof⟩

/-- A finalized log is reported valid exactly when it is sound. -/
theorem valid_iff_soundLog (ht : t.WellFormed Γ) (hf : log.finalized = true) :
    (verifyLog Γ t log).valid = true ↔ SoundLog Γ t log := by
  rw [verifyLog_valid, structureReasons_eq_nil ht, rejectionReasons_eq_nil]
  constructor
  · rintro ⟨⟨hschema, hs, hk, hp, hpr⟩, hfinal, hrej⟩
    exact ⟨hschema, hs, hk, hp, hpr, (finalReasons_eq_nil ht hf hs hk hp).mp hfinal, hrej⟩
  · intro h
    exact ⟨⟨h.schema, h.commitments, h.keys, h.proposals, h.proofs⟩,
      (finalReasons_eq_nil ht hf h.commitments h.keys h.proposals).mpr h.final, h.rejections⟩

end VerifierAux

end VertexVeil
