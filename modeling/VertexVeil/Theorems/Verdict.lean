import VertexVeil.Theorems.Verifier

/-!
# What a valid log leaves open

The verifier reads capabilities from the intents that the nodes published, receipts of the final round only, and in a receipt
the provider, the round and the capability. Three expectations fail for that reason: that a match is grounded in the topology,
that a log shows one completed round at most, and that a receipt belongs to one run. Each is followed by what does hold.
-/

namespace VertexVeil

open Codec VerifierAux

/-! ## Whose capabilities a verified match rests on -/

/-- An intent that says of a node what the topology declares. -/
def Publishes (n : NodeConfig) : PublicIntent → Prop
  | .requester _ _ requiredCapability => n.requiredCapability = some requiredCapability
  | .provider _ _ capabilityClaims => n.capabilityClaims = capabilityClaims

namespace Sample

/-- A tag that the topology does not configure and that no configuration could spell. -/
def undeclared : CapabilityTag := ⟨['t', 'p', 'u']⟩

/-- A log whose two participants published a tag that the topology does not know. -/
def ungrounded : CoordinationLog :=
  let req := commitment (.requester requester 0 undeclared) 0xa1
  let prov := commitment (.provider provider₂ 0 [undeclared]) 0xa3
  { CoordinationLog.new "run" with
    commitments := [req, prov]
    proposals := [{ proposal provider₂ with matchedCapability := undeclared }]
    proofs := [buildProofArtifact crypto req requester 0, buildProofArtifact crypto prov provider₂ 0]
    receipts := [{ provider := provider₂, round := 0
                   signatureHex := expectedSignatureHex crypto provider₂ 0 undeclared.asStr }]
    finalized := true }

theorem ungrounded_valid : (verifyLog crypto topology.config ungrounded).valid = true := by decide +kernel

end Sample

/-- A verified match need not be grounded in the topology. -/
theorem match_not_grounded : ¬ ∀ (Γ : Crypto) (T : LoadedTopology Γ) (log : CoordinationLog),
    (verifyLog Γ T.config log).valid = true → log.finalized = true → ∀ p, log.proposalOf log.finalRound = some p →
      (∃ n, T.config.requester = some n ∧ n.requiredCapability = some p.matchedCapability) ∧
        (∃ m ∈ T.config.nodes, m.id = p.candidateProvider ∧ p.matchedCapability ∈ m.capabilityClaims) ∧
        p.matchedCapability ∈ T.config.capabilityTags.tags := by
  intro h
  have hp : Sample.ungrounded.proposalOf 0 =
      some { Sample.proposal Sample.provider₂ with matchedCapability := Sample.undeclared } := by decide
  obtain ⟨-, -, htag⟩ := h Sample.crypto Sample.topology Sample.ungrounded Sample.ungrounded_valid rfl _ hp
  exact absurd htag (by decide)

/-- **What a verified match rests on.** In a valid finalized log the final proposal matches the topology's requester with one of
its providers; the matched capability is the one the requester's intent of the final round requires and among those the
provider's intent of that round claims. Where these two intents publish what the topology declares, it is the declared need, a
declared claim and a configured tag. -/
theorem match_from_intents {Γ : Crypto} (T : LoadedTopology Γ) (log : CoordinationLog)
    (hv : (verifyLog Γ T.config log).valid = true) (hf : log.finalized = true) :
    ∃ p n m req prov claims, log.proposalOf log.finalRound = some p ∧
      T.config.requester = some n ∧ p.candidateRequester = n.id ∧
      m ∈ T.config.nodes ∧ m.role = .provider ∧ p.candidateProvider = m.id ∧
      log.commitmentOf n.id log.finalRound = some req ∧
      req.publicIntent = .requester n.id log.finalRound p.matchedCapability ∧
      log.commitmentOf m.id log.finalRound = some prov ∧ prov.publicIntent = .provider m.id log.finalRound claims ∧
      p.matchedCapability ∈ claims ∧
      (Publishes n req.publicIntent → Publishes m prov.publicIntent →
        n.requiredCapability = some p.matchedCapability ∧ p.matchedCapability ∈ m.capabilityClaims ∧
          p.matchedCapability ∈ T.config.capabilityTags.tags) := by
  have h := (valid_iff_soundLog T.wellFormed hf).mp hv
  obtain ⟨p, hfin⟩ := h.final
  obtain ⟨hmem, hround⟩ := CoordinationLog.proposalOf_some hfin.last
  obtain ⟨-, ⟨req, i, r, hreq, hri⟩, -⟩ := h.proposals p hmem
  obtain ⟨prov, hprov, hrole⟩ := hfin.provider
  obtain ⟨prov', hprov', hclaims⟩ := (h.proposals p hmem).provider
  rw [hround] at hreq hprov'
  obtain rfl : prov = prov' :=
    Option.some.inj (((commitmentOf_iff h.keys).mpr hprov).symm.trans ((commitmentOf_iff h.keys).mpr hprov'))
  have hsr := h.commitments req hreq.1
  have hsp := h.commitments prov hprov.1
  -- the requester's commitment is of the one node in the requester role
  obtain ⟨n, hn, hnmem, -, huniq⟩ := T.wellFormed.requester_unique
  obtain ⟨n', hn', hid, hnrole⟩ := hsr.node
  rw [hri] at hnrole
  obtain rfl : n' = n := huniq n' hn' hnrole
  have hreqi : req.publicIntent = .requester n'.id log.finalRound p.matchedCapability := by
    have h1 := hsr.intentNode
    have h2 := hsr.intentRound
    rw [hri] at h1 h2
    rw [hri, hid, ← hreq.2.2]
    exact congrArg₂ (fun a b => PublicIntent.requester a b p.matchedCapability) h1 h2
  obtain ⟨m, hm, hmid, hmrole⟩ := hsp.node
  rw [hrole] at hmrole
  obtain ⟨claims, hpi⟩ : ∃ claims, prov.publicIntent = .provider m.id log.finalRound claims := by
    cases hi : prov.publicIntent with
    | requester a b c =>
      rw [hi] at hrole
      simp [PublicIntent.role] at hrole
    | provider a b claims =>
      have h1 := hsp.intentNode
      have h2 := hsp.intentRound
      rw [hi] at h1 h2
      refine ⟨claims, ?_⟩
      rw [hmid, ← hprov.2.2]
      exact congrArg₂ (fun a b => PublicIntent.provider a b claims) h1 h2
  have hmc := hclaims _ _ _ hpi
  have hnid : n'.id = p.candidateRequester := hid.trans hreq.2.1
  have hmpid : m.id = p.candidateProvider := hmid.trans hprov.2.1
  refine ⟨p, n', m, req, prov, claims, hfin.last, hn, hnid.symm, hm, hmrole, hmpid.symm, ?_, hreqi, ?_, hpi, hmc, ?_⟩
  · rw [hnid]
    exact (commitmentOf_iff h.keys).mpr hreq
  · rw [hmpid]
    exact (commitmentOf_iff h.keys).mpr hprov
  · intro hpub hpub'
    rw [hreqi] at hpub
    rw [hpi] at hpub'
    have hclaim : p.matchedCapability ∈ m.capabilityClaims := (show m.capabilityClaims = claims from hpub') ▸ hmc
    exact ⟨hpub, hclaim, ((T.wellFormed.claims m hm hmrole).2 _ hclaim).1⟩

/-- The match of the log whose proposer chose the second provider rests on declared capabilities. -/
theorem match_from_intents_sample : ∃ p n, Sample.log₂.proposalOf 0 = some p ∧
    Sample.topology.config.requester = some n ∧ n.requiredCapability = some p.matchedCapability := by
  obtain ⟨p, n, -, -, -, -, hp, hn, -⟩ := match_from_intents Sample.topology Sample.log₂ Sample.log₂_valid rfl
  obtain rfl : Sample.proposal Sample.provider₂ = p := Option.some.inj ((by decide : _ = _).symm.trans hp)
  obtain rfl : Sample.requesterConfig = n := Option.some.inj ((by decide : _ = _).symm.trans hn)
  exact ⟨_, _, hp, hn, rfl⟩

/-! ## Receipts of other rounds -/

namespace CoordinationLog

/-- A log edited to tell of a run that was given up after a round. -/
def asAbort (log : CoordinationLog) (round : RoundId) : CoordinationLog :=
  { log with finalized := false, finalRound := round }

/-- A log edited to tell of a run that ended in a round. -/
def endingIn (log : CoordinationLog) (round : RoundId) : CoordinationLog := { log with finalRound := round }

end CoordinationLog

namespace VerifierAux

variable {Γ : Crypto} {t : TopologyConfig} {log : CoordinationLog}

/-- Receipts are looked at in the final round only. -/
theorem verifyLog_receipts {receipts : List CompletionReceiptRecord}
    (h : receipts.filter (fun r => r.round = log.finalRound) = log.receipts.filter (fun r => r.round = log.finalRound)) :
    verifyLog Γ t { log with receipts } = verifyLog Γ t log := by
  have hfind : ∀ (rs : List CompletionReceiptRecord) (provider : NodeId),
      rs.find? (fun r => r.round = log.finalRound ∧ r.provider = provider) =
        (rs.filter (fun r => r.round = log.finalRound)).find? (fun r => r.provider = provider) := by
    intro rs provider
    rw [List.find?_filter]
    simp
  have hany : ∀ rs : List CompletionReceiptRecord, rs.any (fun r => r.round = log.finalRound) =
      !(rs.filter (fun r => r.round = log.finalRound)).isEmpty := by
    intro rs
    rw [Bool.eq_iff_iff]
    simp [List.filter_eq_nil_iff]
  have hof : ∀ provider, ({ log with receipts } : CoordinationLog).receiptOf provider log.finalRound =
      log.receiptOf provider log.finalRound := by
    intro provider
    rw [CoordinationLog.receiptOf, CoordinationLog.receiptOf, hfind, hfind, h]
  have hfinal : finalReasons Γ t { log with receipts } = finalReasons Γ t log := by
    unfold finalReasons
    simp only [hof, hany, h]
    rfl
  unfold verifyLog
  rw [hfinal]
  rfl

/-- A log that tells of an aborted run is valid exactly when its records are sound and no receipt is of the final round. -/
theorem valid_of_aborted (log : CoordinationLog) (hf : log.finalized = false) : (verifyLog Γ t log).valid = true ↔
    structureReasons t log = [] ∧ (∀ r ∈ log.receipts, r.round ≠ log.finalRound) ∧
      ∀ rj ∈ log.rejections, SoundRejection log rj := by
  rw [verifyLog_valid, rejectionReasons_eq_nil]
  simp only [finalReasons, hf, Bool.false_eq_true, if_false, Except.ok.injEq, reasonIf_eq_nil, List.any_eq_false,
    decide_eq_true_eq, ne_eq]

/-- A valid log of a finalized run has the certified receipt of its final round. -/
theorem exists_certified (ht : t.WellFormed Γ) (hv : (verifyLog Γ t log).valid = true) (hf : log.finalized = true) :
    ∃ p r, log.proposalOf log.finalRound = some p ∧ r ∈ log.receipts ∧ r.round = log.finalRound ∧
      r.provider = p.candidateProvider ∧
      ReceiptSigned Γ t r.signatureHex p.candidateProvider log.finalRound p.matchedCapability.asStr := by
  obtain ⟨p, hfin⟩ := ((valid_iff_soundLog ht hf).mp hv).final
  obtain ⟨r, hr, hsig⟩ := hfin.receipt
  have hround := List.find?_some hr
  simp only [decide_eq_true_eq] at hround
  exact ⟨p, r, hfin.last, List.mem_of_find?_eq_some hr, hround.1, hround.2, hsig⟩

end VerifierAux

/-- A valid log may hold a receipt of another round than its final one, and one although it tells of an aborted run. -/
theorem receipts_of_other_rounds : ¬ ∀ (Γ : Crypto) (T : LoadedTopology Γ) (log : CoordinationLog),
    (verifyLog Γ T.config log).valid = true →
      (∀ r ∈ log.receipts, r.round = log.finalRound) ∧ (log.finalized = false → log.receipts = []) := by
  intro h
  obtain ⟨-, habort⟩ := h Sample.crypto Sample.topology (Sample.log₂.asAbort 1) (by decide +kernel)
  exact absurd (habort rfl) (by decide)

/-- **Receipts of a valid log.** An aborted log that is valid has no receipt of its final round, and a finalized one has the
certified receipt of its final round's provider. Receipts of other rounds are not looked at: any others in their place give the
same report. So a valid log edited to an abort after a round stays valid exactly when it has no receipt of that round and no
rejection of a later one; and a finalized one edited to end in another round stays valid only if it has a receipt of that one,
so never if its receipts are of one round. -/
theorem receipts_of_final_round {Γ : Crypto} (T : LoadedTopology Γ) (log : CoordinationLog)
    (hv : (verifyLog Γ T.config log).valid = true) :
    (log.finalized = false → ∀ r ∈ log.receipts, r.round ≠ log.finalRound) ∧
      (log.finalized = true → ∃ p r, log.proposalOf log.finalRound = some p ∧ r ∈ log.receipts ∧ r.round = log.finalRound ∧
        r.provider = p.candidateProvider ∧
        ReceiptSigned Γ T.config r.signatureHex p.candidateProvider log.finalRound p.matchedCapability.asStr) ∧
      (∀ receipts, receipts.filter (fun r => r.round = log.finalRound) =
          log.receipts.filter (fun r => r.round = log.finalRound) →
        verifyLog Γ T.config { log with receipts } = verifyLog Γ T.config log) ∧
      (∀ round, (verifyLog Γ T.config (log.asAbort round)).valid = true ↔
        (∀ r ∈ log.receipts, r.round ≠ round) ∧ ∀ rj ∈ log.rejections, rj.round ≤ round) ∧
      (log.finalized = true → ∀ round, (verifyLog Γ T.config (log.endingIn round)).valid = true →
        (∃ r ∈ log.receipts, r.round = round) ∧
          ((∀ r ∈ log.receipts, ∀ r' ∈ log.receipts, r.round = r'.round) → round = log.finalRound)) := by
  have hs : structureReasons T.config log = [] := structureReasons_of_valid hv
  have hrej := rejectionReasons_eq_nil.mp (verifyLog_valid.mp hv).2.2
  refine ⟨?_, exists_certified T.wellFormed hv, fun _ => verifyLog_receipts, ?_, ?_⟩
  · intro hf
    exact ((valid_of_aborted log hf).mp hv).2.1
  · intro round
    rw [valid_of_aborted (log.asAbort round) rfl]
    constructor
    · rintro ⟨-, hno, hspan⟩
      exact ⟨hno, fun rj hrj => (hspan rj hrj).1⟩
    · rintro ⟨hno, hspan⟩
      exact ⟨hs, hno, fun rj hrj => ⟨hspan rj hrj, (hrej rj hrj).2⟩⟩
  · intro hf round hv'
    obtain ⟨-, r, -, hr, hround, -⟩ := exists_certified T.wellFormed hv hf
    obtain ⟨-, r', -, hr', hround', -⟩ := exists_certified T.wellFormed hv' hf
    exact ⟨⟨r', hr', hround'⟩, fun hone => hround'.symm.trans ((hone r' hr' r hr).trans hround)⟩

/-- The finalized sample log, told as an abort after the next round, is valid; after its own round it is not, and it does not end
in another one. -/
theorem receipts_of_final_round_sample :
    (verifyLog Sample.crypto Sample.topology.config (Sample.log₂.asAbort 1)).valid = true ∧
      ¬ (verifyLog Sample.crypto Sample.topology.config (Sample.log₂.asAbort 0)).valid = true ∧
      ¬ (verifyLog Sample.crypto Sample.topology.config (Sample.log₂.endingIn 1)).valid = true := by
  obtain ⟨-, -, -, habort, hend⟩ := receipts_of_final_round Sample.topology Sample.log₂ Sample.log₂_valid
  refine ⟨(habort 1).mpr ⟨by decide, by decide⟩, fun hv => ?_, fun hv => ?_⟩
  · exact absurd ((habort 0).mp hv).1 (by decide)
  · exact absurd ((hend rfl 1 hv).2 (by decide)) (by decide)

/-! ## Receipts of other runs -/

namespace CoordinationLog

/-- A log with a signature put in place of those of a provider's receipts of a round. -/
def withSignature (log : CoordinationLog) (provider : NodeId) (round : RoundId) (signatureHex : Text) : CoordinationLog :=
  { log with receipts := log.receipts.map fun r =>
      if r.round = round ∧ r.provider = provider then { r with signatureHex } else r }

/-- The receipt that certifies a round carries the signature put in its place. -/
theorem receiptOf_withSignature {log : CoordinationLog} {provider : NodeId} {round : RoundId} {r : CompletionReceiptRecord}
    (h : log.receiptOf provider round = some r) (sig : Text) :
    (log.withSignature provider round sig).receiptOf provider round = some { r with signatureHex := sig } := by
  unfold receiptOf withSignature at *
  rw [List.find?_map, Function.comp_def]
  have hsame : ∀ r : CompletionReceiptRecord,
      decide ((if r.round = round ∧ r.provider = provider then { r with signatureHex := sig } else r).round = round ∧
        (if r.round = round ∧ r.provider = provider then { r with signatureHex := sig } else r).provider = provider) =
      decide (r.round = round ∧ r.provider = provider) := by
    intro r
    split
    · rfl
    · rfl
  have hr := List.find?_some h
  simp only [decide_eq_true_eq] at hr
  simp only [hsame]
  rw [h, Option.map_some, if_pos hr]

end CoordinationLog

namespace VerifierAux

variable {Γ : Crypto} {t : TopologyConfig} {log : CoordinationLog}

/-- A valid finalized log stays valid exactly when the signature put in place of its receipt's certifies its match. -/
theorem valid_withSignature (ht : t.WellFormed Γ) (hv : (verifyLog Γ t log).valid = true) (hf : log.finalized = true)
    {p : ProposalRecord} (hp : log.proposalOf log.finalRound = some p) (sig : Text) :
    (verifyLog Γ t (log.withSignature p.candidateProvider log.finalRound sig)).valid = true ↔
      ReceiptSigned Γ t sig p.candidateProvider log.finalRound p.matchedCapability.asStr := by
  have h := (valid_iff_soundLog ht hf).mp hv
  obtain ⟨q, hfin⟩ := h.final
  obtain rfl : p = q := Option.some.inj (hp.symm.trans hfin.last)
  obtain ⟨r, hr, -⟩ := hfin.receipt
  have hr' := CoordinationLog.receiptOf_withSignature hr sig
  rw [valid_iff_soundLog ht (show (log.withSignature p.candidateProvider log.finalRound sig).finalized = true from hf)]
  constructor
  · intro h'
    obtain ⟨q, hfin'⟩ := h'.final
    obtain rfl : p = q := Option.some.inj (hp.symm.trans hfin'.last)
    obtain ⟨r'', hr'', hsig⟩ := hfin'.receipt
    rw [← Option.some.inj (hr'.symm.trans hr'')] at hsig
    exact hsig
  · intro hsig
    exact ⟨h.schema, h.commitments, h.keys,
      fun p hp => ⟨(h.proposals p hp).proposer, (h.proposals p hp).requester, (h.proposals p hp).provider⟩,
      fun a ha => ⟨(h.proofs a ha).inputs, (h.proofs a ha).marker⟩,
      ⟨p, hfin.last, hfin.provider, ⟨_, hr', hsig⟩, hfin.requesterProof, hfin.providerProof⟩, h.rejections⟩

end VerifierAux

/-- No signature verifies as the receipt of a match under one key and as the receipt of another match under another. -/
def SignatureTied (Γ : Crypto) (pk pk' : SigningPublicKey) (message message' : List UInt8) : Prop :=
  ∀ sig, Γ.verify pk message sig = true → Γ.verify pk' message' sig = true → message = message'

/-- The first provider of the sample topology has a signing key. -/
theorem Sample.signingKey₁ : (Sample.topology.config.findNode Sample.provider₁).bind (·.signingPublicKey) =
    some Sample.seed₁ := by decide

/-- A receipt signed in one run completes the log of another one with the same provider, round and capability. -/
theorem receipt_of_other_run : ¬ ∀ (Γ : Crypto) (T : LoadedTopology Γ) (l m : CoordinationLog) (p q : ProposalRecord)
    (r : CompletionReceiptRecord) (pk pk' : SigningPublicKey), Γ.Ed25519Correct →
    (verifyLog Γ T.config l).valid = true → l.finalized = true → l.proposalOf l.finalRound = some p →
    (verifyLog Γ T.config m).valid = true → m.finalized = true → m.proposalOf m.finalRound = some q →
    l.runId ≠ m.runId → l.receiptOf p.candidateProvider l.finalRound = some r →
    (T.config.findNode p.candidateProvider).bind (·.signingPublicKey) = some pk →
    (T.config.findNode q.candidateProvider).bind (·.signingPublicKey) = some pk' →
    SignatureTied Γ pk pk' (receiptMessage p.candidateProvider l.finalRound p.matchedCapability.asStr)
      (receiptMessage q.candidateProvider m.finalRound q.matchedCapability.asStr) →
    (verifyLog Γ T.config (m.withSignature q.candidateProvider m.finalRound r.signatureHex)).valid = false := by
  intro h
  have hv : ∀ runId, (verifyLog Sample.crypto Sample.topology.config
      { Sample.finalizedLog Sample.provider₁Commitment Sample.receipt.signatureHex with runId }).valid = true := by
    have hv : (verifyLog Sample.crypto Sample.topology.config
      (Sample.finalizedLog Sample.provider₁Commitment Sample.receipt.signatureHex)).valid = true := by decide +kernel
    intro runId
    exact hv
  have hfalse := h Sample.crypto Sample.topology
    (Sample.finalizedLog Sample.provider₁Commitment Sample.receipt.signatureHex)
    { Sample.finalizedLog Sample.provider₁Commitment Sample.receipt.signatureHex with runId := "later" }
    (Sample.proposal Sample.provider₁) (Sample.proposal Sample.provider₁) Sample.receipt Sample.seed₁ Sample.seed₁
    Sample.crypto_ed25519Correct (hv _) rfl (by decide) (hv _) rfl (by decide) (by decide)
    (by decide +kernel) Sample.signingKey₁ Sample.signingKey₁ (fun _ _ _ => rfl)
  exact absurd (hv "later") (by rw [Bool.not_eq_true]; exact hfalse)

/-- **What a receipt certifies.** Let two valid finalized logs match providers with signing keys, and no signature verify for both
of their matches unless the signed payloads are the same. Then the receipt's signature of one is accepted in place of the
other's exactly when provider, round and capability of the two matches are the same, whatever the runs are. -/
theorem receipt_certifies_match {Γ : Crypto} (T : LoadedTopology Γ) (l m : CoordinationLog) {p q : ProposalRecord}
    {r : CompletionReceiptRecord} {pk pk' : SigningPublicKey} (hl : (verifyLog Γ T.config l).valid = true)
    (hlf : l.finalized = true) (hp : l.proposalOf l.finalRound = some p) (hm : (verifyLog Γ T.config m).valid = true)
    (hmf : m.finalized = true) (hq : m.proposalOf m.finalRound = some q)
    (hr : l.receiptOf p.candidateProvider l.finalRound = some r)
    (hpk : (T.config.findNode p.candidateProvider).bind (·.signingPublicKey) = some pk)
    (hpk' : (T.config.findNode q.candidateProvider).bind (·.signingPublicKey) = some pk')
    (htied : SignatureTied Γ pk pk' (receiptMessage p.candidateProvider l.finalRound p.matchedCapability.asStr)
      (receiptMessage q.candidateProvider m.finalRound q.matchedCapability.asStr)) :
    (verifyLog Γ T.config (m.withSignature q.candidateProvider m.finalRound r.signatureHex)).valid = true ↔
      p.candidateProvider = q.candidateProvider ∧ l.finalRound = m.finalRound ∧
        p.matchedCapability = q.matchedCapability := by
  obtain ⟨p', hfin⟩ := ((valid_iff_soundLog T.wellFormed hlf).mp hl).final
  obtain rfl : p = p' := Option.some.inj (hp.symm.trans hfin.last)
  obtain ⟨r', hr', hsig⟩ := hfin.receipt
  obtain rfl : r = r' := Option.some.inj (hr.symm.trans hr')
  rw [valid_withSignature T.wellFormed hm hmf hq]
  constructor
  · intro hsig'
    simp only [ReceiptSigned, hpk] at hsig
    simp only [ReceiptSigned, hpk'] at hsig'
    obtain ⟨raw, hraw, hok⟩ := hsig
    obtain ⟨raw', hraw', hok'⟩ := hsig'
    obtain rfl : raw = raw' := List.Vector.toList_injective (Option.some.inj (hraw.symm.trans hraw'))
    obtain ⟨h1, h2, h3⟩ := receiptMessage_inj (htied raw hok hok')
    exact ⟨h1, h2, congrArg CapabilityTag.mk h3⟩
  · rintro ⟨h1, h2, h3⟩
    rw [← h1, ← h2, ← h3]
    exact hsig

/-- The receipt of one sample log completes the log of a later run. -/
theorem receipt_certifies_match_sample : (verifyLog Sample.crypto Sample.topology.config
    (CoordinationLog.withSignature
      { Sample.finalizedLog Sample.provider₁Commitment Sample.receipt.signatureHex with runId := "later" }
      Sample.provider₁ 0 Sample.receipt.signatureHex)).valid = true :=
  (receipt_certifies_match Sample.topology
    (Sample.finalizedLog Sample.provider₁Commitment Sample.receipt.signatureHex)
    { Sample.finalizedLog Sample.provider₁Commitment Sample.receipt.signatureHex with runId := "later" }
    (p := Sample.proposal Sample.provider₁) (q := Sample.proposal Sample.provider₁) (r := Sample.receipt)
    (by decide +kernel) rfl (by decide +kernel) (by decide +kernel) rfl (by decide +kernel) (by decide +kernel)
    Sample.signingKey₁ Sample.signingKey₁ (fun _ _ _ => rfl)).mpr ⟨rfl, rfl, rfl⟩

end VertexVeil
