import VertexVeil.Lemmas.Layout
import VertexVeil.Lemmas.Verifier
import VertexVeil.Tampering

/-!
# Helpers for `Theorems/Tampering.lean`: what a change of one field does to a sound log

For each kind of record, a changed log that is still sound is compared with the log it comes from.
-/

namespace VertexVeil

open Codec CoordinationLog

namespace Edit

theorem mem_replace {α : Type} [DecidableEq α] {old new a : α} {records : List α} :
    a ∈ replace old new records ↔ (a = new ∧ old ∈ records) ∨ (a ∈ records ∧ a ≠ old) := by
  rw [replace, List.mem_map]
  constructor
  · rintro ⟨b, hb, rfl⟩
    split
    · rename_i he
      exact Or.inl ⟨rfl, he ▸ hb⟩
    · rename_i he
      exact Or.inr ⟨hb, he⟩
  · rintro (⟨rfl, ho⟩ | ⟨ha, hne⟩)
    · exact ⟨old, ho, if_pos rfl⟩
    · exact ⟨a, ha, if_neg hne⟩

theorem finalized_apply (x : FinalRecords) (log : CoordinationLog) (e : Edit) :
    (e.apply x log).finalized = log.finalized := by
  cases e <;> rfl

end Edit

namespace TamperingAux

variable {Γ : Crypto} {t : TopologyConfig} {log : CoordinationLog} {x : FinalRecords}

/-! ## The records of the final round -/

theorem mem_proposal (hx : x.Of log) : x.proposal ∈ log.proposals ∧ x.proposal.round = log.finalRound := by
  rw [← mem_proposalsIn, hx.proposal]
  exact List.mem_singleton.mpr rfl

/-- The proposal is the only one of the final round. -/
theorem eq_proposal (hx : x.Of log) {p : ProposalRecord} (hp : p ∈ log.proposals) (hr : p.round = log.finalRound) :
    p = x.proposal := by
  have : p ∈ log.proposalsIn log.finalRound := mem_proposalsIn.mpr ⟨hp, hr⟩
  rw [hx.proposal] at this
  exact List.mem_singleton.mp this

theorem mem_proofs (hx : x.Of log) {a : ProofArtifactRecord} :
    a ∈ log.proofs ∧ a.round = log.finalRound ↔ a = x.requesterProof ∨ a = x.providerProof := by
  have : a ∈ log.proofs.filter (fun a => a.round = log.finalRound) ↔ a ∈ log.proofs ∧ a.round = log.finalRound := by
    simp
  rw [← this, hx.proofs]
  simp

theorem proposalOf_eq (hx : x.Of log) : log.proposalOf log.finalRound = some x.proposal := by
  obtain ⟨hm, hr⟩ := mem_proposal hx
  cases hp : log.proposalOf log.finalRound with
  | none => exact absurd hr (proposalOf_eq_none.mp hp _ hm)
  | some p =>
    obtain ⟨hpm, hpr⟩ := proposalOf_some hp
    rw [eq_proposal hx hpm hpr]

/-- The commitments of one node in one round are one. -/
theorem commitment_unique (h : SoundLog Γ t log) {n : NodeId} {r : RoundId} {c d : CommitmentRecord}
    (hc : log.HasCommitment n r c) (hd : log.HasCommitment n r d) : c = d :=
  Option.some.inj (((VerifierAux.commitmentOf_iff h.keys).mpr hc).symm.trans ((VerifierAux.commitmentOf_iff h.keys).mpr hd))

/-- In a sound log the participants of the final proposal are two nodes. -/
theorem participants_ne (hx : x.Of log) (h : SoundLog Γ t log) :
    x.proposal.candidateRequester ≠ x.proposal.candidateProvider := by
  obtain ⟨hm, hr⟩ := mem_proposal hx
  obtain ⟨p, hfin⟩ := h.final
  obtain rfl : p = x.proposal := Option.some.inj (hfin.last.symm.trans (proposalOf_eq hx))
  obtain ⟨c, n, r, hc, hi⟩ := (h.proposals _ hm).requester
  obtain ⟨d, hd, hrole⟩ := hfin.provider
  intro he
  rw [he, hr] at hc
  rw [← commitment_unique h hc hd, hi] at hrole
  simp [PublicIntent.role] at hrole

/-- The receipt that certifies a round is one of the provider in it. -/
theorem receiptOf_some {l : CoordinationLog} {n : NodeId} {round : RoundId} {r : CompletionReceiptRecord}
    (h : l.receiptOf n round = some r) : r ∈ l.receipts ∧ r.round = round ∧ r.provider = n :=
  ⟨List.mem_of_find?_eq_some h, by simpa using List.find?_some h⟩

/-! ## The proposal -/

/-- A node that has committed to a requester's intent is the requester. -/
theorem requester_of_commitment (ht : t.WellFormed Γ) (h : SoundLog Γ t log) {n m : NodeId} {round : RoundId}
    {c d : CommitmentRecord} (hc : log.HasCommitment n round c) (hcr : c.publicIntent.role = .requester)
    (hd : log.HasCommitment m round d) (hdr : d.publicIntent.role = .requester) : n = m := by
  obtain ⟨k, -, -, -, huniq⟩ := ht.requester_unique
  obtain ⟨i, hi, hid, hir⟩ := (h.commitments c hc.1).node
  obtain ⟨j, hj, hjd, hjr⟩ := (h.commitments d hd.1).node
  have he := (huniq i hi (hir.trans hcr)).trans (huniq j hj (hjr.trans hdr)).symm
  calc n = i.id := (hid.trans hc.2.1).symm
    _ = j.id := congrArg NodeConfig.id he
    _ = m := hjd.trans hd.2.1

/-- A changed proposal is seen: each of its fields is fixed by the rotation, the commitments, the final round or the receipt. -/
theorem proposal_seen (ht : t.WellFormed Γ) (hx : x.Of log) (h : SoundLog Γ t log) {e : ProposalEdit}
    (hc : e.Changes x.proposal) : ¬ SoundLog Γ t ((Edit.proposal e).apply x log) := by
  intro h'
  obtain ⟨hm, hr⟩ := mem_proposal hx
  have hs := h.proposals _ hm
  have hs' := h'.proposals (e.apply x.proposal) (Edit.mem_replace.mpr (Or.inl ⟨rfl, hm⟩))
  obtain ⟨q, hfin⟩ := h'.final
  obtain ⟨hq, hqr⟩ := proposalOf_some hfin.last
  have hqe : q = e.apply x.proposal := by
    rcases Edit.mem_replace.mp hq with ⟨rfl, -⟩ | ⟨hq, hne⟩
    · rfl
    · exact absurd (eq_proposal hx hq hqr) hne
  subst hqe
  obtain ⟨c, n, r, hcr, hi⟩ := hs.requester
  cases e with
  | proposer v => exact hc (Option.some.inj (hs'.proposer.symm.trans hs.proposer))
  | round v => exact hc (hqr.trans hr.symm)
  | candidateRequester v =>
    obtain ⟨d, n', r', hd, hi'⟩ := hs'.requester
    exact hc (requester_of_commitment ht h hd (by rw [hi']; rfl) hcr (by rw [hi]; rfl))
  | candidateProvider v =>
    obtain ⟨r, hrec, -⟩ := hfin.receipt
    obtain ⟨hmem, -, hprov⟩ := receiptOf_some hrec
    have hmem : r ∈ log.receipts := hmem
    rw [hx.receipt] at hmem
    rw [List.mem_singleton.mp hmem, hx.certifies.2] at hprov
    exact hc hprov.symm
  | matchedCapability v =>
    obtain ⟨d, n', r', hd, hi'⟩ := hs'.requester
    rw [← commitment_unique h hcr hd, hi, PublicIntent.requester.injEq] at hi'
    exact hc hi'.2.2.symm

/-! ## The proofs -/

/-- The log with a changed proof. -/
def withProof (log : CoordinationLog) (a : ProofArtifactRecord) (e : ProofEdit) : CoordinationLog :=
  { log with proofs := Edit.replace a (e.apply a) log.proofs }

/-- A proof of the final round and its node, which has no other proof there and is a participant of the final proposal. -/
structure Sole (log : CoordinationLog) (x : FinalRecords) (a : ProofArtifactRecord) : Prop where
  mem : a ∈ log.proofs
  round : a.round = log.finalRound
  participant : a.nodeId = x.proposal.candidateRequester ∨ a.nodeId = x.proposal.candidateProvider
  unique : ∀ b ∈ log.proofs, b.round = log.finalRound → b.nodeId = a.nodeId → b = a

theorem sole_requesterProof (hx : x.Of log) (h : SoundLog Γ t log) : Sole log x x.requesterProof := by
  obtain ⟨hm, hr⟩ := (mem_proofs hx).mpr (Or.inl rfl)
  refine ⟨hm, hr, Or.inl hx.requester, ?_⟩
  intro b hb hbr hbn
  rcases (mem_proofs hx).mp ⟨hb, hbr⟩ with rfl | rfl
  · rfl
  · exact absurd (hx.requester.symm.trans (hbn.symm.trans hx.provider)) (participants_ne hx h)

theorem sole_providerProof (hx : x.Of log) (h : SoundLog Γ t log) : Sole log x x.providerProof := by
  obtain ⟨hm, hr⟩ := (mem_proofs hx).mpr (Or.inr rfl)
  refine ⟨hm, hr, Or.inr hx.provider, ?_⟩
  intro b hb hbr hbn
  rcases (mem_proofs hx).mp ⟨hb, hbr⟩ with rfl | rfl
  · exact absurd (hx.requester.symm.trans (hbn.trans hx.provider)) (participants_ne hx h)
  · rfl

/-- A proof that leaves its node or its round is missed. -/
theorem missing_proof (hx : x.Of log) {a : ProofArtifactRecord} (ha : Sole log x a) {e : ProofEdit}
    (he : (e.apply a).round = log.finalRound → (e.apply a).nodeId ≠ a.nodeId) : ¬ SoundLog Γ t (withProof log a e) := by
  intro h'
  obtain ⟨q, hfin⟩ := h'.final
  have hlast : log.proposalOf log.finalRound = some q := hfin.last
  obtain rfl : q = x.proposal := Option.some.inj (hlast.symm.trans (proposalOf_eq hx))
  have hnone : ∀ b ∈ (withProof log a e).proofs, b.round = log.finalRound → b.nodeId ≠ a.nodeId := by
    intro b hb hbr hbn
    rcases Edit.mem_replace.mp hb with ⟨rfl, -⟩ | ⟨hb, hne⟩
    · exact he hbr hbn
    · exact hne (ha.unique b hb hbr hbn)
  rcases ha.participant with hp | hp
  · obtain ⟨b, hb, hbr, hbn⟩ := hfin.requesterProof
    exact hnone b hb hbr (hbn.trans hp.symm)
  · obtain ⟨b, hb, hbr, hbn⟩ := hfin.providerProof
    exact hnone b hb hbr (hbn.trans hp.symm)

/-- A log with other bytes behind the marker of a proof is as sound as before. -/
theorem sound_withProof (h : SoundLog Γ t log) {a : ProofArtifactRecord} (ha : a ∈ log.proofs) {v : Text}
    (hv : (ProofEdit.proofHex v).Marked) : SoundLog Γ t (withProof log a (.proofHex v)) := by
  have hkept : ∀ n r, (∃ b ∈ log.proofs, b.round = r ∧ b.nodeId = n) →
      ∃ b ∈ (withProof log a (.proofHex v)).proofs, b.round = r ∧ b.nodeId = n := by
    rintro n r ⟨b, hb, hbr, hbn⟩
    by_cases he : b = a
    · subst he
      exact ⟨_, Edit.mem_replace.mpr (Or.inl ⟨rfl, hb⟩), hbr, hbn⟩
    · exact ⟨b, Edit.mem_replace.mpr (Or.inr ⟨hb, he⟩), hbr, hbn⟩
  refine ⟨h.schema, h.commitments, h.keys, fun p hp => ?_, fun b hb => ?_, ?_, h.rejections⟩
  · obtain ⟨h1, h2, h3⟩ := h.proposals p hp
    exact ⟨h1, h2, h3⟩
  · rcases Edit.mem_replace.mp hb with ⟨rfl, -⟩ | ⟨hb, -⟩
    · exact ⟨(h.proofs a ha).inputs, hv⟩
    · exact ⟨(h.proofs b hb).inputs, (h.proofs b hb).marker⟩
  · obtain ⟨p, hfin⟩ := h.final
    exact ⟨p, hfin.last, hfin.provider, hfin.receipt, hkept _ _ hfin.requesterProof, hkept _ _ hfin.providerProof⟩

/-- A changed proof is seen, unless what changed are the bytes behind its marker. -/
theorem proof_sound_iff (hx : x.Of log) (h : SoundLog Γ t log) {a : ProofArtifactRecord} (ha : Sole log x a)
    {e : ProofEdit} (hc : e.Changes a) : SoundLog Γ t (withProof log a e) ↔ e.Marked := by
  have hmem : e.apply a ∈ (withProof log a e).proofs := Edit.mem_replace.mpr (Or.inl ⟨rfl, ha.mem⟩)
  cases e with
  | nodeId v => exact iff_of_false (missing_proof hx ha fun _ => hc) id
  | round v => exact iff_of_false (missing_proof hx ha fun hr => absurd (hr.trans ha.round.symm) hc) id
  | publicInputsHex v =>
    refine iff_of_false (fun h' => ?_) id
    obtain ⟨c, d, hcom, hd, hp⟩ := (h.proofs a ha.mem).inputs
    obtain ⟨c', d', hcom', hd', hp'⟩ := (h'.proofs _ hmem).inputs
    obtain rfl : c = c' := commitment_unique h hcom hcom'
    obtain rfl : d = d' := List.Vector.eq _ _ (hexEncode_inj (hd.trans hd'.symm))
    exact hc (hexDecode_eq_of_parse hp' hp)
  | proofHex v => exact ⟨fun h' => (h'.proofs _ hmem).marker, sound_withProof h ha.mem⟩

/-! ## The receipt -/

/-- A changed receipt is seen, unless what changed is its signature and the new one certifies the match, too. -/
theorem receipt_sound_iff (hx : x.Of log) (h : SoundLog Γ t log) {e : ReceiptEdit} (hc : e.Changes x.receipt) :
    SoundLog Γ t ((Edit.receipt e).apply x log) ↔ e.Certifies Γ t x.proposal := by
  have hrec : ((Edit.receipt e).apply x log).receipts = [e.apply x.receipt] := by
    simp [Edit.apply, Edit.replace, hx.receipt]
  have hfinal : ∀ q, SoundFinal Γ t ((Edit.receipt e).apply x log) q → q = x.proposal ∧
      (e.apply x.receipt).round = log.finalRound ∧ (e.apply x.receipt).provider = x.receipt.provider ∧
      ReceiptSigned Γ t (e.apply x.receipt).signatureHex x.proposal.candidateProvider x.proposal.round
        x.proposal.matchedCapability.asStr := by
    intro q hfin
    have hlast : log.proposalOf log.finalRound = some q := hfin.last
    obtain rfl : q = x.proposal := Option.some.inj (hlast.symm.trans (proposalOf_eq hx))
    obtain ⟨r, hr, hsig⟩ := hfin.receipt
    obtain ⟨hmem, hround, hprov⟩ := receiptOf_some hr
    rw [hrec] at hmem
    obtain rfl := List.mem_singleton.mp hmem
    exact ⟨rfl, hround, hprov.trans hx.certifies.2.symm, (mem_proposal hx).2 ▸ hsig⟩
  cases e with
  | provider v =>
    refine iff_of_false (fun h' => ?_) id
    obtain ⟨q, hfin⟩ := h'.final
    exact hc (hfinal q hfin).2.2.1
  | round v =>
    refine iff_of_false (fun h' => ?_) id
    obtain ⟨q, hfin⟩ := h'.final
    exact hc ((hfinal q hfin).2.1.trans hx.certifies.1.symm)
  | signatureHex v =>
    constructor
    · intro h'
      obtain ⟨q, hfin⟩ := h'.final
      exact (hfinal q hfin).2.2.2
    · intro hv
      refine ⟨h.schema, h.commitments, h.keys, fun p hp => ?_, fun a ha => ?_, ?_, h.rejections⟩
      · obtain ⟨h1, h2, h3⟩ := h.proposals p hp
        exact ⟨h1, h2, h3⟩
      · exact ⟨(h.proofs a ha).inputs, (h.proofs a ha).marker⟩
      · obtain ⟨p, hfin⟩ := h.final
        obtain rfl : p = x.proposal := Option.some.inj (hfin.last.symm.trans (proposalOf_eq hx))
        refine ⟨x.proposal, hfin.last, hfin.provider, ⟨{ x.receipt with signatureHex := v }, ?_, ?_⟩, hfin.requesterProof,
          hfin.providerProof⟩
        · rw [receiptOf, hrec]
          simp [ReceiptEdit.apply, Edit.apply, hx.certifies.1, hx.certifies.2]
        · exact (mem_proposal hx).2 ▸ hv

/-- A sound log with a changed field of a record of its final round is sound exactly when the change is one the verifier does
not see. -/
theorem sound_apply_iff (ht : t.WellFormed Γ) (hx : x.Of log) (h : SoundLog Γ t log) {e : Edit} (hc : e.Changes x) :
    SoundLog Γ t (e.apply x log) ↔ e.Unseen Γ t x := by
  cases e with
  | proposal e => exact iff_of_false (proposal_seen ht hx h hc) id
  | requesterProof e => exact proof_sound_iff hx h (sole_requesterProof hx h) hc
  | providerProof e => exact proof_sound_iff hx h (sole_providerProof hx h) hc
  | receipt e => exact receipt_sound_iff hx h hc

end TamperingAux

end VertexVeil
