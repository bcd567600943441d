import VertexVeil.Lemmas.Verifier
import VertexVeil.Replay

/-!
# Helpers for `Theorems/Replay.lean`: what each replayed record is checked for

For a log whose commitments and proposals are sound the machine's checks come down to four: the hash is new, the requester's
capability is not empty, the round has no proposal yet, the proposed provider committed as a provider.
-/

namespace VertexVeil

open Codec CoordinationLog VerifierAux

namespace ReplayAux

/-- A list split by a key is the list, rearranged. -/
theorem flatMap_filter_perm {α κ : Type} [DecidableEq κ] (key : α → κ) {ks : List κ} (hk : ks.Nodup) {l : List α}
    (h : ∀ a ∈ l, key a ∈ ks) : (ks.flatMap fun k => l.filter (fun a => key a = k)).Perm l := by
  induction ks generalizing l with
  | nil =>
    cases l with
    | nil => exact List.Perm.refl _
    | cons a l => exact absurd (h a List.mem_cons_self) List.not_mem_nil
  | cons k ks ih =>
    rw [List.nodup_cons] at hk
    rw [List.flatMap_cons]
    have hrest : (ks.flatMap fun k' => l.filter (fun a => key a = k')) =
        ks.flatMap fun k' => (l.filter (fun a => !decide (key a = k))).filter (fun a => key a = k') := by
      refine List.flatMap_congr ?_
      intro k' hk'
      rw [List.filter_filter]
      refine List.filter_congr ?_
      intro a _
      by_cases he : key a = k'
      · have hne : key a ≠ k := fun h' => hk.1 (h' ▸ he ▸ hk')
        simp [he, he ▸ hne]
      · simp [he]
    rw [hrest]
    refine ((ih hk.2 fun a ha => ?_).append_left _).trans (List.filter_append_perm _ l)
    obtain ⟨hm, hne⟩ := List.mem_filter.mp ha
    exact (List.mem_cons.mp (h a hm)).resolve_left (by simpa using hne)

/-! ## Commitments -/

/-- The machine with commitments added, one after the other. -/
def addCommitments (m : RoundMachine) (cs : List CommitmentRecord) : RoundMachine := cs.foldl RoundMachine.addCommitment m

theorem addCommitments_fields (m : RoundMachine) (cs : List CommitmentRecord) :
    (addCommitments m cs).topology = m.topology ∧ (addCommitments m cs).current = m.current ∧
      (addCommitments m cs).proposal = m.proposal := by
  induction cs generalizing m with
  | nil => exact ⟨rfl, rfl, rfl⟩
  | cons c cs ih => exact ih (m.addCommitment c)

theorem mem_historyHex_addCommitments (m : RoundMachine) (cs : List CommitmentRecord) (hex : Text) :
    hex ∈ (addCommitments m cs).historyHex ↔ (∃ c ∈ cs, c.commitmentHex = hex) ∨ hex ∈ m.historyHex := by
  induction cs generalizing m with
  | nil => simp [addCommitments]
  | cons c cs ih =>
    have h : addCommitments m (c :: cs) = addCommitments (m.addCommitment c) cs := rfl
    rw [h, ih, List.exists_mem_cons_iff]
    simp only [RoundMachine.addCommitment, Finset.mem_insert, eq_comm (a := hex)]
    exact or_assoc.symm.trans (or_congr_left or_comm)

/-- After adding commitments of distinct nodes, a node's commitment is the one added for it. -/
theorem getElem?_addCommitments (m : RoundMachine) {cs : List CommitmentRecord} (hnd : (cs.map (·.nodeId)).Nodup)
    (n : NodeId) {c : CommitmentRecord} : (addCommitments m cs).commitments[n]? = some c ↔
      (c ∈ cs ∧ c.nodeId = n) ∨ (n ∉ cs.map (·.nodeId) ∧ m.commitments[n]? = some c) := by
  induction cs generalizing m with
  | nil => simp [addCommitments]
  | cons d cs ih =>
    rw [List.map_cons, List.nodup_cons] at hnd
    have h : addCommitments m (d :: cs) = addCommitments (m.addCommitment d) cs := rfl
    rw [h, ih _ hnd.2]
    simp only [RoundMachine.addCommitment, Std.TreeMap.getElem?_insert, compare_eq_iff_eq, List.map_cons, List.mem_cons,
      not_or]
    constructor
    · rintro (⟨hm, he⟩ | ⟨hn, h⟩)
      · exact Or.inl ⟨Or.inr hm, he⟩
      · split at h
        · rename_i hd
          exact Or.inl ⟨Or.inl (Option.some.inj h).symm, (Option.some.inj h) ▸ hd⟩
        · rename_i hd
          exact Or.inr ⟨⟨fun he => hd he.symm, hn⟩, h⟩
    · rintro (⟨rfl | hm, he⟩ | ⟨⟨hd, hn⟩, h⟩)
      · exact Or.inr ⟨he ▸ hnd.1, by rw [if_pos he]⟩
      · exact Or.inl ⟨hm, he⟩
      · exact Or.inr ⟨hn, by rw [if_neg (fun he => hd he.symm)]; exact h⟩

/-- For a sound commitment of the active round of a node not committed yet, the machine checks the hash and the capability. -/
theorem committable_iff {Γ : Crypto} {m : RoundMachine} (ht : m.topology.WellFormed Γ) (hp : m.proposal = none)
    {c : CommitmentRecord} (hs : SoundCommitment m.topology c) (hr : c.round = m.current) (hn : c.nodeId ∉ m.commitments) :
    RoundMachine.Committable m c ↔
      c.commitmentHex ∉ m.historyHex ∧ RoundMachine.lacksRequiredCapability c.publicIntent = false := by
  constructor
  · intro h
    exact ⟨h.unseen, h.capability⟩
  · rintro ⟨h1, h2⟩
    obtain ⟨n, hm, hid, hrole⟩ := hs.node
    exact ⟨hp, hr, ⟨n, hid ▸ ht.findNode_self hm, hrole.symm⟩, hs.intentRound.trans hr, hs.intentNode, hn, h1, h2⟩

/-- Feeding a round's commitments: all are accepted exactly when the hashes are new and distinct and the capabilities not
empty, and then all are added. -/
theorem feed_commitments {Γ : Crypto} {m : RoundMachine} (cs : List CommitmentRecord) (ht : m.topology.WellFormed Γ)
    (hp : m.proposal = none) (hs : ∀ c ∈ cs, SoundCommitment m.topology c) (hr : ∀ c ∈ cs, c.round = m.current)
    (hn : ∀ c ∈ cs, c.nodeId ∉ m.commitments) (hnd : (cs.map (·.nodeId)).Nodup) (m' : RoundMachine) :
    m.feed RoundMachine.acceptCommitment cs = .ok m' ↔
      m' = addCommitments m cs ∧ (cs.map (·.commitmentHex)).Nodup ∧ (∀ c ∈ cs, c.commitmentHex ∉ m.historyHex) ∧
        ∀ c ∈ cs, RoundMachine.lacksRequiredCapability c.publicIntent = false := by
  induction cs generalizing m with
  | nil => simpa [RoundMachine.feed, addCommitments] using eq_comm
  | cons c cs ih =>
    rw [List.map_cons, List.nodup_cons] at hnd
    have hc := committable_iff ht hp (hs c List.mem_cons_self) (hr c List.mem_cons_self) (hn c List.mem_cons_self)
    rcases RoundMachine.acceptCommitment_cases m c with ⟨hok, ha⟩ | ⟨hno, e, ha⟩
    · have hn' : ∀ d ∈ cs, d.nodeId ∉ (m.addCommitment c).commitments := by
        intro d hd hm
        simp only [RoundMachine.addCommitment, Std.TreeMap.mem_insert, compare_eq_iff_eq] at hm
        rcases hm with he | hm
        · exact hnd.1 (he ▸ List.mem_map_of_mem hd)
        · exact hn d (List.mem_cons_of_mem _ hd) hm
      have := ih (m := m.addCommitment c) ht hp (fun d hd => hs d (List.mem_cons_of_mem _ hd))
        (fun d hd => hr d (List.mem_cons_of_mem _ hd)) hn' hnd.2
      have hfeed : m.feed RoundMachine.acceptCommitment (c :: cs) =
          (m.addCommitment c).feed RoundMachine.acceptCommitment cs := by rw [RoundMachine.feed, ha]
      rw [hfeed, this, List.map_cons, List.nodup_cons, List.forall_mem_cons, List.forall_mem_cons]
      have hadd : addCommitments m (c :: cs) = addCommitments (m.addCommitment c) cs := rfl
      have hhist : (∀ d ∈ cs, d.commitmentHex ∉ (m.addCommitment c).historyHex) ↔
          c.commitmentHex ∉ cs.map (·.commitmentHex) ∧ ∀ d ∈ cs, d.commitmentHex ∉ m.historyHex := by
        simp only [RoundMachine.addCommitment, Finset.mem_insert, not_or, List.mem_map, not_exists, not_and]
        exact ⟨fun h => ⟨fun d hd => (h d hd).1, fun d hd => (h d hd).2⟩, fun h d hd => ⟨h.1 d hd, h.2 d hd⟩⟩
      rw [hhist, hadd]
      obtain ⟨h1, h2⟩ := hc.mp hok
      simp only [h1, h2, not_false_eq_true, true_and]
      tauto
    · simp only [RoundMachine.feed, ha, List.forall_mem_cons]
      refine iff_of_false (by simp) ?_
      rintro ⟨-, -, ⟨h1, -⟩, h2, -⟩
      exact hno (hc.mpr ⟨h1, h2⟩)

/-! ## Proposals -/

/-- Feeding a round's proposals: all are accepted exactly when there is at most one and it passes the checks. -/
theorem feed_proposals (m : RoundMachine) (ps : List ProposalRecord) :
    (∃ m', m.feed RoundMachine.acceptProposal ps = .ok m') ↔ ps.length ≤ 1 ∧ ∀ p ∈ ps, RoundMachine.Proposable m p := by
  cases ps with
  | nil => simp [RoundMachine.feed]
  | cons p ps =>
    rcases RoundMachine.acceptProposal_cases m p with ⟨hok, ha⟩ | ⟨hno, e, ha⟩
    · cases ps with
      | nil => simp [RoundMachine.feed, ha, hok]
      | cons q qs =>
        have hq : (RoundMachine.acceptProposal { m with proposal := some p } q) =
            (.error .alreadyFinalized, { m with proposal := some p }) := by
          simp [RoundMachine.acceptProposal]
        simp [RoundMachine.feed, ha, hq]
    · simp [RoundMachine.feed, ha, hno]

theorem feed_proposals_fields {m m' : RoundMachine} {ps : List ProposalRecord}
    (h : m.feed RoundMachine.acceptProposal ps = .ok m') :
    m'.topology = m.topology ∧ m'.current = m.current ∧ m'.historyHex = m.historyHex := by
  induction ps generalizing m with
  | nil =>
    simp only [RoundMachine.feed, Except.ok.injEq] at h
    subst h
    exact ⟨rfl, rfl, rfl⟩
  | cons p ps ih =>
    rcases RoundMachine.acceptProposal_cases m p with ⟨-, ha⟩ | ⟨-, e, ha⟩
    · simp only [RoundMachine.feed, ha] at h
      exact ih (m := { m with proposal := some p }) h
    · simp [RoundMachine.feed, ha] at h

/-- For a sound proposal of a round whose commitments the machine holds, the machine checks that the provider committed as
one. -/
theorem proposable_iff {Γ : Crypto} {t : TopologyConfig} {log : CoordinationLog} (ht : t.WellFormed Γ)
    (hs : ∀ c ∈ log.commitments, SoundCommitment t c) (hk : (log.commitments.map (·.key)).Nodup) {m : RoundMachine}
    (hmt : m.topology = t) (hp : m.proposal = none)
    (hheld : ∀ n c, m.commitments[n]? = some c ↔ log.HasCommitment n m.current c) {p : ProposalRecord}
    (hsp : SoundProposal t log p) (hr : p.round = m.current) :
    RoundMachine.Proposable m p ↔ ∃ c ∈ log.commitments, c.nodeId = p.candidateProvider ∧ c.round = p.round ∧
      c.publicIntent.role = .provider := by
  obtain ⟨req, n, r, hreq, hri⟩ := hsp.requester
  obtain ⟨prov, hprov, hclaims⟩ := hsp.provider
  constructor
  · intro h
    obtain ⟨c, r', claims, hc, hci, -⟩ := h.provider
    obtain ⟨hm, hn, hcr⟩ := (hheld _ _).mp hc
    exact ⟨c, hm, hn, hcr.trans hr.symm, by rw [hci]; rfl⟩
  · rintro ⟨c, hm, hn, hcr, hrole⟩
    have hcp : c = prov := Option.some.inj
      (((commitmentOf_iff hk).mpr ⟨hm, hn, hcr⟩).symm.trans ((commitmentOf_iff hk).mpr hprov))
    subst hcp
    have hnr : n = p.candidateRequester := by
      have := (hs req hreq.1).intentNode
      rw [hri] at this
      exact this.trans hreq.2.1
    subst hnr
    refine ⟨hp, hr, RoundMachine.currentProposer_eq_ok.mpr ?_, ⟨req, r, (hheld _ _).mpr (hr ▸ hreq), hri⟩, ?_⟩
    · rw [hmt, deterministicProposer_iff ht, ← hr]
      exact hsp.proposer
    · cases hpi : c.publicIntent with
      | requester n' r' cap =>
        rw [hpi] at hrole
        simp [PublicIntent.role] at hrole
      | provider n' r' claims =>
        have hn' : n' = p.candidateProvider := by
          have := (hs c hm).intentNode
          rw [hpi] at this
          exact this.trans hn
        subst hn'
        exact ⟨c, r', claims, (hheld _ _).mpr (hr ▸ hprov), hpi, hclaims _ r' claims hpi⟩

/-! ## Rounds -/

/-- What the machine checks of a round beyond the soundness of its records. -/
structure RoundReplayable (log : CoordinationLog) (round : RoundId) : Prop where
  capabilities : ∀ c ∈ log.commitmentsIn round, RoundMachine.lacksRequiredCapability c.publicIntent = false
  single : (log.proposalsIn round).length ≤ 1
  providers : ∀ p ∈ log.proposalsIn round, ∃ c ∈ log.commitments, c.nodeId = p.candidateProvider ∧ c.round = p.round ∧
    c.publicIntent.role = .provider

/-- A machine about to enter a round: it is at the round, empty, or at an earlier one. -/
def Before (m : RoundMachine) (round : RoundId) : Prop :=
  (m.current = round ∧ m.commitments = ∅ ∧ m.proposal = none) ∨ m.current < round

/-- A machine before a round enters it empty, with the topology and the hashes it had. -/
theorem enter_ok {m : RoundMachine} {round : RoundId} (hb : Before m round) :
    ∃ m', m.enter round = .ok m' ∧ m'.topology = m.topology ∧ m'.historyHex = m.historyHex ∧ m'.current = round ∧
      m'.commitments = ∅ ∧ m'.proposal = none := by
  unfold RoundMachine.enter
  rcases hb with ⟨hr, hc, hp⟩ | hlt
  · exact ⟨m, if_pos hr, rfl, rfl, hr, hc, hp⟩
  · have hne : m.current ≠ round := fun he => UInt64.lt_irrefl _ (he ▸ hlt)
    rw [if_neg hne, RoundMachine.advanceTo, if_neg (UInt64.not_le.mpr hlt)]
    exact ⟨_, rfl, rfl, rfl, rfl, rfl, rfl⟩

section

variable {Γ : Crypto} {t : TopologyConfig} {log : CoordinationLog}

/-- The nodes of a round's commitments are distinct. -/
theorem nodup_nodes (hk : (log.commitments.map (·.key)).Nodup) (round : RoundId) :
    ((log.commitmentsIn round).map (·.nodeId)).Nodup := by
  refine List.Nodup.map_on (fun c hc d hd he => ?_) ((List.Nodup.of_map _ hk).filter _)
  obtain ⟨hcm, hcr⟩ := mem_commitmentsIn.mp hc
  obtain ⟨hdm, hdr⟩ := mem_commitmentsIn.mp hd
  exact List.inj_on_of_nodup_map hk hcm hdm (Prod.ext he (hcr.trans hdr.symm))

/-- A round replays exactly when its hashes are new and distinct and its records pass the machine's own checks; the machine
then has seen its hashes. -/
theorem replayRound_iff (ht : t.WellFormed Γ) (hs : ∀ c ∈ log.commitments, SoundCommitment t c)
    (hk : (log.commitments.map (·.key)).Nodup) (hps : ∀ p ∈ log.proposals, SoundProposal t log p) {m : RoundMachine}
    (hmt : m.topology = t) {round : RoundId} (hb : Before m round) :
    ((∃ m', log.replayRound round m = .ok m') ↔ ((log.commitmentsIn round).map (·.commitmentHex)).Nodup ∧
      (∀ c ∈ log.commitmentsIn round, c.commitmentHex ∉ m.historyHex) ∧ RoundReplayable log round) ∧
    ∀ m', log.replayRound round m = .ok m' → m'.topology = t ∧ m'.current = round ∧
      ∀ hex, hex ∈ m'.historyHex ↔ (∃ c ∈ log.commitmentsIn round, c.commitmentHex = hex) ∨ hex ∈ m.historyHex := by
  obtain ⟨m₁, he, hmt₁, hh₁, hr₁, hc₁, hp₁⟩ := enter_ok hb
  have hfeed := fun m' => feed_commitments (Γ := Γ) (m := m₁) (log.commitmentsIn round)
    (by rw [hmt₁, hmt]; exact ht) hp₁ (fun c hc => by rw [hmt₁, hmt]; exact hs c (mem_commitmentsIn.mp hc).1)
    (fun c hc => (mem_commitmentsIn.mp hc).2.trans hr₁.symm) (fun c _ hm => by rw [hc₁] at hm; simp at hm)
    (nodup_nodes hk round) m'
  obtain ⟨hat, har, hap⟩ := addCommitments_fields m₁ (log.commitmentsIn round)
  have hheld : ∀ n c, (addCommitments m₁ (log.commitmentsIn round)).commitments[n]? = some c ↔
      log.HasCommitment n (addCommitments m₁ (log.commitmentsIn round)).current c := by
    intro n c
    rw [getElem?_addCommitments m₁ (nodup_nodes hk round), har, hr₁, hc₁, mem_commitmentsIn, HasCommitment]
    simp only [Std.TreeMap.getElem?_emptyc, reduceCtorEq, and_false, or_false]
    tauto
  have hprops : (∀ p ∈ log.proposalsIn round,
      RoundMachine.Proposable (addCommitments m₁ (log.commitmentsIn round)) p) ↔
        ∀ p ∈ log.proposalsIn round, ∃ c ∈ log.commitments, c.nodeId = p.candidateProvider ∧ c.round = p.round ∧
          c.publicIntent.role = .provider := by
    refine forall₂_congr ?_
    intro p hp
    obtain ⟨hpm, hpr⟩ := mem_proposalsIn.mp hp
    exact proposable_iff ht hs hk (hat.trans (hmt₁.trans hmt)) (hap.trans hp₁) hheld (hps p hpm)
      (hpr.trans (har.trans hr₁).symm)
  have hstep : ∀ m', log.replayRound round m = .ok m' ↔
      (addCommitments m₁ (log.commitmentsIn round)).feed RoundMachine.acceptProposal (log.proposalsIn round) = .ok m' ∧
        ((log.commitmentsIn round).map (·.commitmentHex)).Nodup ∧
        (∀ c ∈ log.commitmentsIn round, c.commitmentHex ∉ m.historyHex) ∧
        ∀ c ∈ log.commitmentsIn round, RoundMachine.lacksRequiredCapability c.publicIntent = false := by
    intro m'
    constructor
    · intro h
      obtain ⟨m₀, hm₀, h⟩ := Except.bind_eq_ok h
      rw [he, Except.ok.injEq] at hm₀
      subst hm₀
      obtain ⟨m₂, hm₂, h⟩ := Except.bind_eq_ok h
      obtain ⟨rfl, hnd, hnew, hcap⟩ := (hfeed m₂).mp hm₂
      exact ⟨h, hnd, hh₁ ▸ hnew, hcap⟩
    · rintro ⟨h, hnd, hnew, hcap⟩
      have hm₂ := (hfeed _).mpr ⟨rfl, hnd, hh₁.symm ▸ hnew, hcap⟩
      rw [replayRound, he]
      change (m₁.feed RoundMachine.acceptCommitment (log.commitmentsIn round) >>= _) = _
      rw [hm₂]
      exact h
  constructor
  · simp only [hstep, exists_and_right, feed_proposals, hprops]
    constructor
    · rintro ⟨⟨h1, h2⟩, h3, h4, h5⟩
      exact ⟨h3, h4, h5, h1, h2⟩
    · rintro ⟨h3, h4, h⟩
      exact ⟨⟨h.single, h.providers⟩, h3, h4, h.capabilities⟩
  · intro m' h
    obtain ⟨hf, -⟩ := (hstep m').mp h
    obtain ⟨h1, h2, h3⟩ := feed_proposals_fields hf
    refine ⟨h1.trans (hat.trans (hmt₁.trans hmt)), h2.trans (har.trans hr₁), ?_⟩
    intro hex
    rw [h3, mem_historyHex_addCommitments, hh₁]

/-- Rounds in ascending order replay exactly when each does and the hashes of all of them are new and distinct. -/
theorem replayRounds_iff (ht : t.WellFormed Γ) (hs : ∀ c ∈ log.commitments, SoundCommitment t c)
    (hk : (log.commitments.map (·.key)).Nodup) (hps : ∀ p ∈ log.proposals, SoundProposal t log p)
    {rounds : List RoundId} (hlt : rounds.Pairwise (· < ·)) {m : RoundMachine} (hmt : m.topology = t)
    (hb : ∀ r ∈ rounds.head?, Before m r) :
    (∃ m', log.replayRounds rounds m = .ok m') ↔
      ((rounds.flatMap log.commitmentsIn).map (·.commitmentHex)).Nodup ∧
        (∀ c ∈ rounds.flatMap log.commitmentsIn, c.commitmentHex ∉ m.historyHex) ∧
          ∀ r ∈ rounds, RoundReplayable log r := by
  induction rounds generalizing m with
  | nil => simp [replayRounds]
  | cons round rounds ih =>
    obtain ⟨hiff, hafter⟩ := replayRound_iff ht hs hk hps hmt (hb round (by simp))
    rw [List.pairwise_cons] at hlt
    have hrest : ∀ m₁, log.replayRound round m = .ok m₁ → ((∃ m', log.replayRounds rounds m₁ = .ok m') ↔
        ((rounds.flatMap log.commitmentsIn).map (·.commitmentHex)).Nodup ∧
          (∀ c ∈ rounds.flatMap log.commitmentsIn, (∀ d ∈ log.commitmentsIn round, d.commitmentHex ≠ c.commitmentHex) ∧
            c.commitmentHex ∉ m.historyHex) ∧ ∀ r ∈ rounds, RoundReplayable log r) := by
      intro m₁ h₁
      obtain ⟨hmt₁, hr₁, hh₁⟩ := hafter m₁ h₁
      rw [ih hlt.2 hmt₁ (fun r hr => Or.inr (hr₁ ▸ hlt.1 r (List.mem_of_mem_head? hr)))]
      simp only [hh₁, not_or, not_exists, not_and, ne_eq]
    have hcons : (∃ m', log.replayRounds (round :: rounds) m = .ok m') ↔
        ∃ m₁, log.replayRound round m = .ok m₁ ∧ ∃ m', log.replayRounds rounds m₁ = .ok m' := by
      constructor
      · rintro ⟨m', h⟩
        obtain ⟨m₁, h₁, h⟩ := Except.bind_eq_ok h
        exact ⟨m₁, h₁, m', h⟩
      · rintro ⟨m₁, h₁, m', h⟩
        refine ⟨m', ?_⟩
        rw [replayRounds, h₁]
        exact h
    rw [hcons, List.flatMap_cons, List.map_append, List.nodup_append, List.forall_mem_cons]
    simp only [List.mem_append, or_imp, forall_and]
    constructor
    · rintro ⟨m₁, h₁, h⟩
      obtain ⟨h2, h3, h4⟩ := (hrest m₁ h₁).mp h
      obtain ⟨h5, h6, h7⟩ := hiff.mp ⟨m₁, h₁⟩
      refine ⟨⟨h5, h2, ?_⟩, ⟨h6, fun c hc => (h3 c hc).2⟩, h7, h4⟩
      intro a ha b hb hab
      obtain ⟨c, hc, rfl⟩ := List.mem_map.mp ha
      obtain ⟨d, hd, rfl⟩ := List.mem_map.mp hb
      exact (h3 d hd).1 c hc hab
    · rintro ⟨⟨h5, h2, hd⟩, ⟨h6, h3⟩, h7, h4⟩
      obtain ⟨m₁, h₁⟩ := hiff.mpr ⟨h5, h6, h7⟩
      refine ⟨m₁, h₁, (hrest m₁ h₁).mpr ⟨h2, fun c hc => ⟨fun d hdm => ?_, h3 c hc⟩, h4⟩⟩
      exact hd _ (List.mem_map_of_mem hdm) _ (List.mem_map_of_mem hc)

end

end ReplayAux

end VertexVeil
