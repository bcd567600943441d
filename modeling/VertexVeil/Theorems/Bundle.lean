import VertexVeil.Bundle
import VertexVeil.Theorems.Verifier

/-!
# The extracted receipt

The writer copies the last receipt of the final round, the verifier checks the first one by the matched provider. The runtime logs
every signed receipt of the round, of whatever node, so the two lookups can differ.
-/

namespace VertexVeil

open Codec VerifierAux

/-! ## The extracted receipt and the verified one -/

/-- A receipt that certifies the final match: of the final round, by the final proposal's provider, with a signature that the
verifier's check accepts. -/
def Certifies (Γ : Crypto) (t : TopologyConfig) (log : CoordinationLog) (r : CompletionReceiptRecord) : Prop :=
  r.round = log.finalRound ∧ ∃ p, log.proposalOf log.finalRound = some p ∧ r.provider = p.candidateProvider ∧
    receiptSignatureOk Γ t r.signatureHex p.candidateProvider log.finalRound p.matchedCapability.asStr = true

/-- What the extraction is to return: a receipt that certifies the match. -/
def ExtractsCertified (Γ : Crypto) (t : TopologyConfig) (log : CoordinationLog) : Prop :=
  ∃ r, Run.pickFinalReceipt log = some r ∧ Node.pickFinalReceipt log = some r ∧ Certifies Γ t log r

/-- Every receipt of the final round that does not certify the match is followed by one that does. -/
def Superseded (Γ : Crypto) (t : TopologyConfig) (log : CoordinationLog) : Prop :=
  ∀ before r after, log.receipts = before ++ r :: after → r.round = log.finalRound → ¬ Certifies Γ t log r →
    ∃ r' ∈ after, Certifies Γ t log r'

namespace BundleAux

variable {Γ : Crypto} {t : TopologyConfig} {log : CoordinationLog}

/-- The last element with a property, as an element with none behind it. -/
theorem find?_reverse_eq_some {α : Type} {p : α → Bool} {l : List α} {a : α} : l.reverse.find? p = some a ↔
    p a = true ∧ ∃ before after, l = before ++ a :: after ∧ ∀ b ∈ after, p b = false := by
  rw [List.find?_eq_some_iff_append]
  refine and_congr_right fun _ => ⟨?_, ?_⟩
  · intro h
    obtain ⟨as, bs, hl, has⟩ := h
    refine ⟨bs.reverse, as.reverse, ?_, ?_⟩
    · rw [← List.reverse_reverse l, hl]
      simp
    · intro b hb
      simpa using has b (List.mem_reverse.mp hb)
  · intro h
    obtain ⟨before, after, rfl, hafter⟩ := h
    refine ⟨after.reverse, before.reverse, ?_, ?_⟩
    · simp
    · intro b hb
      simpa using hafter b (List.mem_reverse.mp hb)

/-- The receipt that the verifier checked in a sound log certifies the match. -/
theorem exists_certifies (ht : t.WellFormed Γ) (h : SoundLog Γ t log) : ∃ r ∈ log.receipts, Certifies Γ t log r := by
  obtain ⟨p, hfin⟩ := h.final
  obtain ⟨r, hr, hsig⟩ := hfin.receipt
  obtain ⟨hround, hprov⟩ : r.round = log.finalRound ∧ r.provider = p.candidateProvider := by
    simpa using List.find?_some hr
  exact ⟨r, List.mem_of_find?_eq_some hr, hround, p, hfin.last, hprov, (receiptSignatureOk_iff ht).mpr hsig⟩

/-- A sound log stays sound when a receipt is appended: the verifier looks at the first one only. -/
theorem soundLog_appendReceipt (h : SoundLog Γ t log) (r : CompletionReceiptRecord) : SoundLog Γ t (log.appendReceipt r) := by
  obtain ⟨p, hfin⟩ := h.final
  obtain ⟨r', hr', hsig⟩ := hfin.receipt
  have hfirst : (log.appendReceipt r).receiptOf p.candidateProvider log.finalRound = some r' := by
    unfold CoordinationLog.receiptOf at hr' ⊢
    simp only [CoordinationLog.appendReceipt]
    rw [List.find?_append, hr']
    rfl
  refine ⟨h.schema, h.commitments, h.keys, ?_, ?_, ⟨p, hfin.last, hfin.provider, ⟨r', hfirst, hsig⟩, hfin.requesterProof,
    hfin.providerProof⟩, h.rejections⟩
  · exact fun q hq => ⟨(h.proposals q hq).proposer, (h.proposals q hq).requester, (h.proposals q hq).provider⟩
  · exact fun a ha => ⟨(h.proofs a ha).inputs, (h.proofs a ha).marker⟩

/-- A receipt of the final round that is appended is the one extracted. -/
theorem pickFinalReceipt_appendReceipt (hf : log.finalized = true) {r : CompletionReceiptRecord}
    (hr : r.round = log.finalRound) : pickFinalReceipt (log.appendReceipt r) = some r := by
  simp [pickFinalReceipt, CoordinationLog.appendReceipt, hf, hr]

end BundleAux

open BundleAux

namespace Sample

/-- A receipt of another provider, with no valid signature. -/
def stray : CompletionReceiptRecord := { provider := provider₁, round := 0, signatureHex := ['0', '0'] }

end Sample

/-- The extracted receipt need not be the verified one: here another provider's receipt follows it. -/
theorem extracted_not_certified : ¬ ∀ (Γ : Crypto) (T : LoadedTopology Γ) (log : CoordinationLog),
    (verifyLog Γ T.config log).valid = true → log.finalized = true → ExtractsCertified Γ T.config log := by
  intro h
  have hs := soundLog_appendReceipt ((valid_iff_soundLog Sample.topology.wellFormed rfl).mp Sample.log₂_valid) Sample.stray
  have hf : (Sample.log₂.appendReceipt Sample.stray).finalized = true := rfl
  have hv := (valid_iff_soundLog Sample.topology.wellFormed hf).mpr hs
  obtain ⟨r, hr, -, -, p, hp, hprov, -⟩ := h Sample.crypto Sample.topology _ hv rfl
  have hpick : pickFinalReceipt (Sample.log₂.appendReceipt Sample.stray) = some Sample.stray :=
    pickFinalReceipt_appendReceipt rfl rfl
  obtain rfl : Sample.stray = r := Option.some.inj (hpick.symm.trans hr)
  have hp' : (Sample.log₂.appendReceipt Sample.stray).proposalOf 0 = some (Sample.proposal Sample.provider₂) := by decide
  obtain rfl := Option.some.inj (hp'.symm.trans hp)
  exact absurd hprov (by decide)

/-- **When the extracted receipt is verified.** From a valid finalized log, a receipt that certifies the match is extracted
exactly when every receipt of the final round that does not certify it is followed by one that does. -/
theorem extracted_certified_iff {Γ : Crypto} (T : LoadedTopology Γ) (log : CoordinationLog)
    (hv : (verifyLog Γ T.config log).valid = true) (hf : log.finalized = true) :
    ExtractsCertified Γ T.config log ↔ Superseded Γ T.config log := by
  have hpick : ∀ r, pickFinalReceipt log = some r ↔ r.round = log.finalRound ∧
      ∃ before after, log.receipts = before ++ r :: after ∧ ∀ b ∈ after, b.round ≠ log.finalRound := by
    intro r
    unfold pickFinalReceipt
    rw [if_pos hf, find?_reverse_eq_some]
    simp
  obtain ⟨r₀, hr₀, hc₀⟩ := exists_certifies T.wellFormed ((valid_iff_soundLog T.wellFormed hf).mp hv)
  constructor
  · -- The extracted receipt is behind every other one of the final round.
    rintro ⟨r, hr, -, hc⟩ before r' after hl hround hnot
    obtain ⟨-, before', after', hl', hafter'⟩ := (hpick r).mp hr
    rw [hl, List.append_eq_append_iff] at hl'
    rcases hl' with ⟨mid, rfl, hmid⟩ | ⟨mid, rfl, hmid⟩
    · cases mid with
      | nil =>
        obtain ⟨rfl, -⟩ := List.cons.inj hmid
        exact absurd hc hnot
      | cons x mid =>
        obtain ⟨-, rfl⟩ := List.cons.inj hmid
        exact ⟨r, List.mem_append_right _ (List.mem_cons_self ..), hc⟩
    · cases mid with
      | nil =>
        obtain ⟨rfl, -⟩ := List.cons.inj hmid
        exact absurd hc hnot
      | cons x mid =>
        obtain ⟨-, rfl⟩ := List.cons.inj hmid
        exact absurd hround (hafter' r' (List.mem_append_right _ (List.mem_cons_self ..)))
  · intro h
    obtain ⟨r, hr⟩ : ∃ r, pickFinalReceipt log = some r := by
      unfold pickFinalReceipt
      rw [if_pos hf, ← Option.isSome_iff_exists, List.find?_isSome]
      exact ⟨r₀, List.mem_reverse.mpr hr₀, by simpa using hc₀.1⟩
    obtain ⟨hround, before, after, hl, hafter⟩ := (hpick r).mp hr
    by_cases hc : Certifies Γ T.config log r
    · exact ⟨r, hr, hr, hc⟩
    · obtain ⟨r', hr', hc'⟩ := h before r after hl hround hc
      exact absurd hc'.1 (hafter r' hr')

/-- A stray receipt before the certified one is not extracted. -/
theorem extracted_certified_sample : ExtractsCertified Sample.crypto Sample.topology.config
    { Sample.log₂ with receipts := Sample.stray :: Sample.log₂.receipts } := by
  have hcertified : ∀ r ∈ Sample.log₂.receipts, Certifies Sample.crypto Sample.topology.config
      { Sample.log₂ with receipts := Sample.stray :: Sample.log₂.receipts } r := by
    intro r hr
    obtain rfl := List.mem_singleton.mp hr
    exact ⟨rfl, Sample.proposal Sample.provider₂, by decide, rfl, by decide +kernel⟩
  refine (extracted_certified_iff Sample.topology _ (by decide +kernel) rfl).mpr ?_
  intro before r after hl _ hnot
  cases before with
  | nil =>
    obtain ⟨-, rfl⟩ := List.cons.inj hl
    exact ⟨_, List.mem_cons_self, hcertified _ List.mem_cons_self⟩
  | cons x before =>
    obtain ⟨-, hl⟩ := List.cons.inj hl
    exact absurd (hcertified r (hl ▸ List.mem_append_right _ List.mem_cons_self)) hnot

end VertexVeil
