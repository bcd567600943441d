import VertexVeil.Fixtures
import VertexVeil.Lemmas.InProcess
import VertexVeil.Theorems.Signatures

/-!
# What a run leaves in its log

`run_structured`: whatever is delivered, the log's commitments and proposals are those the round machine held.
-/

namespace VertexVeil

open Codec CoordinationLog

/-! ## No delivery corrupts the structure of the log -/

/-- A log whose commitments, proposals and rounds are those of a round machine. -/
structure StructuredLog (t : TopologyConfig) (m : RoundMachine) (log : CoordinationLog) : Prop where
  commitments : commitmentReasons t ∅ log.commitments = []
  proposals : proposalReasons t log = []
  ascending : m.rounds.Pairwise (·.round < ·.round)
  agrees : ∀ f ∈ m.rounds, Agrees log f
  commitmentRounds : ∀ c ∈ log.commitments, ∃ f ∈ m.rounds, f.round = c.round
  proposalRounds : ∀ p ∈ log.proposals, ∃ f ∈ m.rounds, f.round = p.round
  oneProposal : ∀ round, (log.proposalsIn round).length ≤ 1
  noDuplicate : ∀ rj ∈ log.rejections, rj.reasonCode ≠ "log_duplicate"
  receipts : ∀ r ∈ log.receipts, log.finalized = true ∧ r.round = log.finalRound
  order : log.rejections.Pairwise (·.round ≤ ·.round)
  span : ∀ rj ∈ log.rejections, rj.round ≤ log.finalRound

/-- Closing the log of a run keeps its structure. -/
theorem structured_closeLog {Γ : Crypto} {t : TopologyConfig} (ht : t.WellFormed Γ) {s : RuntimeState} {fin : Bool}
    {fr : RoundId} (hl : Ledger t s) (hreceipts : ∀ r ∈ s.log.receipts, fin = true ∧ r.round = fr)
    (hspan : ∀ rj ∈ s.log.rejections, rj.round ≤ fr) :
    StructuredLog t s.roundMachine (Runtime.closeLog s.log fin fr) := by
  obtain ⟨reason, hclosed⟩ := closeLog_eq s.log fin fr
  rw [hclosed]
  have hone : ∀ round, (s.log.proposalsIn round).length ≤ 1 := by
    intro round
    by_cases h0 : s.log.proposalsIn round = []
    · simp [h0]
    · obtain ⟨p, hp⟩ := List.exists_mem_of_ne_nil _ h0
      obtain ⟨hmem, hround⟩ := mem_proposalsIn.mp hp
      obtain ⟨f, hf, hfr⟩ := hl.proposalRounds p hmem
      rw [← hround, ← hfr, (hl.agrees f hf).proposals]
      cases f.proposal <;> simp
  exact {
    commitments := (VerifierAux.commitmentReasons_eq_nil ht).mpr ⟨hl.sound, hl.nodup, fun c _ => Finset.notMem_empty _⟩
    proposals := (VerifierAux.proposalReasons_eq_nil ht hl.sound hl.nodup).mpr fun p hp => (hl.proposals p hp).1
    ascending := hl.ascending
    agrees := fun f hf => ⟨(hl.agrees f hf).commitments, (hl.agrees f hf).proposals⟩
    commitmentRounds := hl.commitmentRounds
    proposalRounds := hl.proposalRounds
    oneProposal := hone
    noDuplicate := fun rj hrj => (hl.labels rj hrj).2.2
    receipts := hreceipts
    order := hl.order
    span := hspan }

/-- **Structure of the log.** Whatever the transport delivers, the log of a run that returns has in every round exactly the
commitments and the proposal the round machine held when the round ended; the verifier has nothing to say about them, the log
never refused what the machine took, the receipts are of the finalized round and the rejections in the order of the rounds. -/
theorem run_structured {Γ : Crypto} (T : LoadedTopology Γ) {τ : Type} [CoordinationTransport τ] (transport : τ)
    (agents : Agents) (scenario : Scenario) (maxRounds : UInt64) (salt : Bytes 32) (runId : String) {rt : Runtime τ}
    {out : RuntimeOutcome} (hnew : Runtime.new T.config transport agents scenario maxRounds = .ok rt)
    (hrun : (rt.withRunSalt salt).run Γ runId = .ok out) :
    ∃ rt' : Runtime τ, Runtime.runRounds Γ maxRounds.toNat 0 ((rt.withRunSalt salt).withLog runId) =
        .ok (rt', out.finalized, out.finalRound) ∧
      out.log = Runtime.closeLog rt'.state.log out.finalized out.finalRound ∧
      StructuredLog T.config rt'.state.roundMachine out.log := by
  obtain ⟨rt', hrounds, hlog⟩ := Runtime.run_eq_ok hrun
  obtain rfl := Runtime.new_eq_ok hnew
  obtain ⟨hl, hreceipts, hspan⟩ := BeforeRound.ends (delivers_any τ) T.wellFormed trivial .start rfl hrounds
  refine ⟨rt', hrounds, hlog, ?_⟩
  rw [hlog]
  exact structured_closeLog T.wellFormed hl hreceipts hspan

namespace Sample

/-- The outcome of the clean in-process run: finalized in its first round, with the first provider, and its log valid. -/
structure CleanRun (out : RuntimeOutcome) : Prop where
  run : Runtime.run crypto "run" ((runtime OrderedBus.new .empty 1).withRunSalt salt) = .ok out
  finalized : out.finalized = true
  finalRound : out.finalRound = 0 ∧ out.log.finalRound = 0
  proposals : out.log.proposals = [proposal provider₁]
  valid : (verifyLog crypto topology.config out.log).valid = true
  attested : ∀ a ∈ out.log.proofs, hexDecode a.proofHex ≠ some [1]

theorem run_finalizes : ∃ out, CleanRun out := by
  obtain ⟨out, hrun, he⟩ := of_outcome
    (f := fun out => (out.finalized, (out.finalRound, out.log.finalRound), out.log.proposals,
      (verifyLog crypto topology.config out.log).valid, out.log.proofs.all fun a => hexDecode a.proofHex ≠ some [1]))
    (a := (true, (0, 0), [proposal provider₁], true, true))
    (x := Runtime.run crypto "run" ((runtime OrderedBus.new .empty 1).withRunSalt salt)) (by decide +kernel)
  simp only [Prod.mk.injEq] at he
  obtain ⟨hfin, hfr, hps, hvalid, hlong⟩ := he
  exact ⟨out, hrun, hfin, hfr, hps, hvalid, fun a ha => by simpa using List.all_eq_true.mp hlong a ha⟩

end Sample

/-- The structure of the log of the clean run. -/
theorem run_structured_sample : ∃ (out : RuntimeOutcome) (rt' : Runtime OrderedBus),
    Runtime.run Sample.crypto "run" ((Sample.runtime OrderedBus.new .empty 1).withRunSalt Sample.salt) = .ok out ∧
      out.finalized = true ∧ StructuredLog Sample.topology.config rt'.state.roundMachine out.log := by
  obtain ⟨out, hrun, hfin, -⟩ := Sample.run_finalizes
  obtain ⟨rt', -, -, h⟩ := run_structured Sample.topology OrderedBus.new Sample.agents.agents .empty 1 Sample.salt "run"
    (Sample.new_runtime _ _ _) hrun
  exact ⟨out, rt', hrun, hfin, h⟩

/-! ## The log of an in-process run verifies -/

section

variable {Γ : Crypto} {t : TopologyConfig} {s₀ s : RuntimeState} {fin : Bool} {fr : RoundId}

/-- The sections before the final round, and the rejections, add nothing to a run's closed log. -/
theorem sections_closeLog (fin : Bool) (ht : t.WellFormed Γ) (hl : Ledger t s) (hp : ∀ a ∈ s.log.proofs, SoundProof s.log a)
    (hspan : ∀ rj ∈ s.log.rejections, rj.round ≤ fr) :
    structureReasons t (Runtime.closeLog s.log fin fr) = [] ∧ rejectionReasons (Runtime.closeLog s.log fin fr) = [] := by
  obtain ⟨reason, he⟩ := closeLog_eq s.log fin fr
  rw [he]
  refine ⟨(VerifierAux.structureReasons_eq_nil ht).mpr ⟨hl.schema, hl.sound, hl.nodup, fun p hp => ?_, fun a ha => ?_⟩,
    VerifierAux.rejectionReasons_eq_nil.mpr fun rj hrj => ⟨hspan rj hrj, (hl.labels rj hrj).1, (hl.labels rj hrj).2.1⟩⟩
  · exact And.left (proposal_mono (l := s.log) (fun _ _ _ hc => hc) (hl.proposals p hp))
  · exact soundProof_mono (l := s.log) (fun _ _ _ hc => hc) (hp a ha)

/-- When only the final round can add reasons, the report has those. -/
theorem verifyLog_reasons {log : CoordinationLog} {reasons : List String} (hs : structureReasons t log = [])
    (hr : rejectionReasons log = []) (hf : finalReasons Γ t log = .ok reasons) :
    (verifyLog Γ t log).reasons = reasons ∧ ((verifyLog Γ t log).valid = true ↔ reasons = []) := by
  simp only [verifyLog, hf, hs, hr, List.nil_append, List.append_nil, List.isEmpty_iff, and_self]

/-- The final round of a run that is finalized in process: at most the signature is found wanting. -/
theorem finalReasons_closeLog (hl : Ledger t s) {p : ProposalRecord} {r : CompletionReceiptRecord}
    (hlast : s.log.proposalOf fr = some p) (hboth : BothProofs fr p s) (hrec : s.log.receipts = [r])
    (hr : r.round = fr ∧ r.provider = p.candidateProvider) (hne : r.signatureHex ≠ []) :
    finalReasons Γ t (Runtime.closeLog s.log true fr) =
      .ok (reasonIf (¬ receiptSignatureOk Γ t r.signatureHex p.candidateProvider fr p.matchedCapability.asStr)
        "final_round_signature_mismatch") := by
  obtain ⟨reason, he⟩ := closeLog_eq s.log true fr
  rw [he]
  obtain ⟨hmem, hround⟩ := proposalOf_some hlast
  obtain ⟨hsound, hprov⟩ := proposal_mono (l := s.log)
    (m := { s.log with finalRound := fr, finalized := true, abortReason := reason }) (fun _ _ _ hc => hc)
    (hl.proposals p hmem)
  have hpred := (VerifierAux.predicateReasons_eq_nil { s.log with
    finalRound := fr, finalized := true, abortReason := reason } hl.sound hl.nodup hsound hround).mpr (hround ▸ hprov)
  have hfind : receiptOf { s.log with finalRound := fr, finalized := true, abortReason := reason } p.candidateProvider fr =
      some r := by
    simp [receiptOf, hrec, hr.1, hr.2]
  simp only [finalReasons, if_true]
  rw [show proposalOf { s.log with finalRound := fr, finalized := true, abortReason := reason } fr = some p from hlast]
  simp only [hfind, hpred, List.nil_append, signatureReasons, hne, if_false, finalProofReasons]
  rw [show hasProof { s.log with finalRound := fr, finalized := true, abortReason := reason } p.candidateRequester fr = true
    from hboth.1, show hasProof { s.log with finalRound := fr, finalized := true, abortReason := reason }
    p.candidateProvider fr = true from hboth.2]
  simp [reasonIf]

end

/-- The agents sign as the topology expects: a provider has a seed exactly when the topology gives it a key. -/
def SeedsAsKeys {Γ : Crypto} {t : TopologyConfig} (L : LoadedAgents Γ t) : Prop :=
  ∀ n ∈ t.nodes, n.role = .provider →
    ((L.agents[n.id]?.bind (·.provider)).bind (·.signingSecretKey)).isSome = n.signingPublicKey.isSome

/-- **The log of an in-process run verifies.** Whether the run is finalized or not, the verifier has at most the signature of
the final receipt to object to; and it reports the log valid when signatures made with a seed verify under the seed's key and
every provider has a seed exactly when the topology gives it a key. -/
theorem run_verifies {Γ : Crypto} (T : LoadedTopology Γ) (L : LoadedAgents Γ T.config) (scenario : Scenario)
    (maxRounds : UInt64) (salt : Bytes 32) (runId : String) {rt : Runtime OrderedBus} {out : RuntimeOutcome}
    (hnew : Runtime.new T.config OrderedBus.new L.agents scenario maxRounds = .ok rt)
    (hrun : (rt.withRunSalt salt).run Γ runId = .ok out) :
    (∀ reason ∈ (verifyLog Γ T.config out.log).reasons, reason = "final_round_signature_mismatch") ∧
      (Γ.Ed25519Correct → SeedsAsKeys L → (verifyLog Γ T.config out.log).valid = true) := by
  obtain ⟨s', hlog, hspan, ⟨hf, s, hs, hend⟩ | ⟨hf, hs⟩⟩ := inProcess_run T L scenario maxRounds salt runId hnew hrun
  · rw [hlog]
    obtain ⟨p, hpick, hlast, hboth, hrec⟩ := hend.final rfl
    have hl : Ledger T.config s' := hend.inRound.ledger.1
    rw [hs.before.receipts, List.nil_append] at hrec
    have hne : (RuntimeState.ownReceipt Γ (.starting T.config L.agents scenario maxRounds salt runId) out.finalRound
      p).signatureHex ≠ [] := receiptSignatureHex_ne_nil _ _ _ _
    obtain ⟨hsec, hrej⟩ := sections_closeLog true T.wellFormed hl (fun a ha => (hend.proofs a ha).1) hspan
    have hfinal := finalReasons_closeLog (Γ := Γ) hl hlast hboth hrec ⟨rfl, rfl⟩ hne
    obtain ⟨hreasons, hvalid⟩ := verifyLog_reasons hsec hrej hfinal
    rw [hf]
    refine ⟨fun reason hr => ?_, fun hc hk => hvalid.mpr ?_⟩
    · rw [hreasons] at hr
      unfold reasonIf at hr
      split at hr
      · exact List.mem_singleton.mp hr
      · exact absurd hr List.not_mem_nil
    · obtain ⟨⟨node, hnode, hnid, hrole, -⟩, -⟩ := hpick.least.1
      rw [reasonIf_eq_nil, ← hnid]
      have := (SignatureAux.receiptSignatureOk_iff_seed (s := .starting T.config L.agents scenario maxRounds salt runId)
        T.wellFormed L hc hnode hrole rfl out.finalRound p.matchedCapability.asStr).mpr (hk node hnode hrole)
      simpa [RuntimeState.ownReceipt, ← hnid] using this
  · rw [hlog]
    obtain ⟨hsec, hrej⟩ := sections_closeLog false T.wellFormed hs.before.ledger (fun a ha => (hs.proofs a ha).1) hspan
    have hfinal : finalReasons Γ T.config (Runtime.closeLog s'.log false out.finalRound) = .ok [] := by
      obtain ⟨reason, he⟩ := closeLog_eq s'.log false out.finalRound
      rw [he]
      simp [finalReasons, hs.before.receipts, reasonIf]
    obtain ⟨hreasons, hvalid⟩ := verifyLog_reasons hsec hrej hfinal
    rw [hf]
    refine ⟨fun reason hr => ?_, fun _ _ => hvalid.mpr rfl⟩
    rw [hreasons] at hr
    exact absurd hr List.not_mem_nil

/-- The log of a finalized run of the sample deployment is valid. -/
theorem run_verifies_sample : ∃ out,
    Runtime.run Sample.crypto "run" ((Sample.runtime OrderedBus.new .empty 1).withRunSalt Sample.salt) = .ok out ∧
      out.finalized = true ∧ (verifyLog Sample.crypto Sample.topology.config out.log).valid = true := by
  obtain ⟨out, hrun, hfin, -⟩ := Sample.run_finalizes
  refine ⟨out, hrun, hfin, (run_verifies Sample.topology Sample.agents .empty 1 Sample.salt "run" (Sample.new_runtime _ _ _)
    hrun).2 Sample.crypto_ed25519Correct ?_⟩
  unfold SeedsAsKeys
  decide

/-! ## What a finalized match says of the prices -/

/-- There is a price that the requester's budget covers and the provider's reservation does not exceed. -/
def Clears (buyer : PrivateRequesterIntent) (seller : PrivateProviderIntent) : Prop :=
  ∃ threshold : UInt64, threshold ≤ buyer.budgetCents ∧ seller.reservationCents ≤ threshold

theorem clears_iff {buyer : PrivateRequesterIntent} {seller : PrivateProviderIntent} :
    Clears buyer seller ↔ seller.reservationCents ≤ buyer.budgetCents :=
  ⟨fun ⟨_, hb, hs⟩ => UInt64.le_trans hs hb, fun h => ⟨_, UInt64.le_refl _, h⟩⟩

/-- A match whose proposed provider is too expensive is finalized. -/
theorem finalized_match_not_clearing : ¬ ∀ (Γ : Crypto) (T : LoadedTopology Γ) (L : LoadedAgents Γ T.config)
    (scenario : Scenario) (maxRounds : UInt64) (salt : Bytes 32) (runId : String) (rt : Runtime OrderedBus)
    (out : RuntimeOutcome), Runtime.new T.config OrderedBus.new L.agents scenario maxRounds = .ok rt →
      (rt.withRunSalt salt).run Γ runId = .ok out → out.finalized = true →
        ∀ p buyer seller, out.log.proposalOf out.finalRound = some p →
          L.agents[p.candidateRequester]? = some (.ofRequester buyer) →
          L.agents[p.candidateProvider]? = some (.ofProvider seller) → Clears buyer seller := by
  intro h
  obtain ⟨out, hrun, hfin, ⟨hfr, -⟩, hps, -⟩ := Sample.run_finalizes
  have hp : out.log.proposalOf out.finalRound = some (Sample.proposal Sample.provider₁) := by
    rw [CoordinationLog.proposalOf, hps, hfr]
    rfl
  have := h Sample.crypto Sample.topology Sample.agents .empty 1 Sample.salt "run" _ out (Sample.new_runtime _ _ _) hrun hfin
    (Sample.proposal Sample.provider₁) ⟨Sample.requester, Sample.gpu, 0, none⟩
    ⟨Sample.provider₁, [Sample.gpu], 1, some Sample.seed₁⟩ hp (by decide) (by decide)
  exact absurd (clears_iff.mp this) (by decide)

/-- A match in the log of a run, with the private intents of the matched pair. -/
structure PricedMatch {Γ : Crypto} (T : LoadedTopology Γ) (L : LoadedAgents Γ T.config) (salt : Bytes 32)
    (out : RuntimeOutcome) (n m : NodeConfig) (buyer : PrivateRequesterIntent) (seller : PrivateProviderIntent) : Prop where
  requester : T.config.requester = some n
  provider : m ∈ T.config.nodes ∧ m.role = .provider
  proposal : ∃ p, out.log.proposalOf out.finalRound = some p ∧ p.candidateRequester = n.id ∧ p.candidateProvider = m.id ∧
    n.requiredCapability = some p.matchedCapability ∧ p.matchedCapability ∈ m.capabilityClaims
  budget : L.agents[n.id]? = some (.ofRequester buyer)
  reservation : L.agents[m.id]? = some (.ofProvider seller)
  bindsBudget : ∃ c d, out.log.HasCommitment n.id out.finalRound c ∧ c.commitmentHex = hexEncode d.toList ∧
    commitRequester Γ buyer (deriveTestNonce Γ n.id out.finalRound salt) out.finalRound = .ok d
  bindsReservation : ∃ c d, out.log.HasCommitment m.id out.finalRound c ∧ c.commitmentHex = hexEncode d.toList ∧
    commitProvider Γ seller (deriveTestNonce Γ m.id out.finalRound salt) out.finalRound = .ok d

/-- **A finalized match.** An in-process run that is finalized matched the requester with a provider that claims its capability,
and the logged commitments of the final round bind the requester's budget and the provider's reservation. Prices take no part
in the match: the pair clears exactly when the reservation is at most the budget, so it clears when every provider that claims
the capability asks for no more than the budget. -/
theorem finalized_match {Γ : Crypto} (T : LoadedTopology Γ) (L : LoadedAgents Γ T.config) (scenario : Scenario)
    (maxRounds : UInt64) (salt : Bytes 32) (runId : String) {rt : Runtime OrderedBus} {out : RuntimeOutcome}
    (hnew : Runtime.new T.config OrderedBus.new L.agents scenario maxRounds = .ok rt)
    (hrun : (rt.withRunSalt salt).run Γ runId = .ok out) (hfin : out.finalized = true) :
    ∃ n m buyer seller, PricedMatch T L salt out n m buyer seller ∧
      (Clears buyer seller ↔ seller.reservationCents ≤ buyer.budgetCents) ∧
      ((∀ k ∈ T.config.nodes, k.role = .provider → (∃ cap ∈ k.capabilityClaims, n.requiredCapability = some cap) →
        ∀ other, L.agents[k.id]? = some (.ofProvider other) → other.reservationCents ≤ buyer.budgetCents) →
          Clears buyer seller) := by
  obtain ⟨s', hlog, -, ⟨-, s, -, hend⟩ | ⟨hf, -⟩⟩ := inProcess_run T L scenario maxRounds salt runId hnew hrun
  · obtain ⟨p, hpick, hlast, -, -⟩ := hend.final rfl
    obtain ⟨n, hn, hpn, hcap⟩ := hpick.requester
    obtain ⟨n', hn', hnmem, hnrole, -⟩ := T.wellFormed.requester_unique
    obtain rfl : n' = n := Option.some.inj (hn'.symm.trans hn)
    obtain ⟨⟨m, hm, hmid, hmrole, hclaim⟩, hin⟩ := hpick.least.1
    obtain ⟨cr, hcr⟩ := Option.isSome_iff_exists.mp (Std.TreeMap.mem_iff_isSome_getElem?.mp hpick.committed)
    obtain ⟨cp, hcp⟩ := Option.isSome_iff_exists.mp (Std.TreeMap.mem_iff_isSome_getElem?.mp hin)
    rw [hpn] at hcr
    rw [← hmid] at hcp
    obtain ⟨a, ha, hacts⟩ := L.exists_agent T.wellFormed hnmem
    obtain ⟨b, hb, hbcts⟩ := L.exists_agent T.wellFormed hm
    obtain ⟨reason, hclosed⟩ := closeLog_eq s'.log out.finalized out.finalRound
    rw [hclosed] at hlog
    cases hacts with
    | provider i hr _ _ _ =>
      rw [hnrole] at hr
      simp at hr
    | requester buyer _ _ _ _ =>
      cases hbcts with
      | requester i hr _ _ _ =>
        rw [hmrole] at hr
        simp at hr
      | provider seller _ _ _ _ =>
        obtain ⟨d, hd, hcommit⟩ := (hend.inRound.own _ _ hcr).builds.bindsRequester ha
        obtain ⟨d', hd', hcommit'⟩ := (hend.inRound.own _ _ hcp).builds.bindsProvider hb
        have hlogr := (hend.inRound.ledger.1.held_iff _ _).mp hcr
        have hlogp := (hend.inRound.ledger.1.held_iff _ _).mp hcp
        rw [hend.inRound.ledger.2] at hlogr hlogp
        refine ⟨n', m, buyer, seller, ⟨hn, ⟨hm, hmrole⟩, ⟨p, ?_, hpn, hmid.symm, hcap, hclaim⟩, ha, hb,
          ⟨cr, d, ?_, hd, hcommit⟩, ⟨cp, d', ?_, hd', hcommit'⟩⟩, clears_iff, fun hall => ?_⟩
        · rw [hlog]
          exact hlast
        · rw [hlog]
          exact hlogr
        · rw [hlog]
          exact hlogp
        · exact clears_iff.mpr (hall m hm hmrole ⟨_, hclaim, hcap⟩ seller hb)
  · rw [hfin] at hf
    simp at hf

/-- The match of the clean run, with the private intents of the pair. -/
theorem finalized_match_sample : ∃ out n m buyer seller,
    Runtime.run Sample.crypto "run" ((Sample.runtime OrderedBus.new .empty 1).withRunSalt Sample.salt) = .ok out ∧
      PricedMatch Sample.topology Sample.agents Sample.salt out n m buyer seller := by
  obtain ⟨out, hrun, hfin, -⟩ := Sample.run_finalizes
  obtain ⟨n, m, buyer, seller, h, -⟩ := finalized_match Sample.topology Sample.agents .empty 1 Sample.salt "run"
    (Sample.new_runtime _ _ _) hrun hfin
  exact ⟨out, n, m, buyer, seller, hrun, h⟩

end VertexVeil
