import VertexVeil.Lemmas.RoundMachine
import VertexVeil.Lemmas.Rounds
import VertexVeil.Lemmas.Verifier

/-!
# Helpers for `Theorems/Runtime.lean`: the log and the round machine side by side

`Ledger` ties the two stores a runtime keeps: for every round the machine has held, the log's commitments and proposal of the
round are the machine's. Each handler keeps it, so a round keeps it, so a run does; nothing is assumed of what is delivered.
-/

namespace VertexVeil

open Codec CoordinationLog

/-- The log has of a round what the machine held in it. -/
structure Agrees (log : CoordinationLog) (f : FinalizedRound) : Prop where
  commitments : ∀ n c, f.commitments[n]? = some c ↔ log.HasCommitment n f.round c
  proposals : log.proposalsIn f.round = f.proposal.toList

/-- The proposed provider committed as a provider. -/
def ProviderCommitted (log : CoordinationLog) (p : ProposalRecord) : Prop :=
  ∃ c, log.HasCommitment p.candidateProvider p.round c ∧ c.publicIntent.role = .provider

/-- A log that keeps the commitments keeps the soundness of a proposal. -/
theorem proposal_mono {t : TopologyConfig} {l m : CoordinationLog} {p : ProposalRecord}
    (hmono : ∀ n r c, l.HasCommitment n r c → m.HasCommitment n r c)
    (h : SoundProposal t l p ∧ ProviderCommitted l p) : SoundProposal t m p ∧ ProviderCommitted m p := by
  obtain ⟨⟨h1, ⟨req, n, r, hreq, hri⟩, ⟨prov, hprov, hpi⟩⟩, ⟨pc, hpc, hrole⟩⟩ := h
  exact ⟨⟨h1, ⟨req, n, r, hmono _ _ _ hreq, hri⟩, ⟨prov, hmono _ _ _ hprov, hpi⟩⟩, ⟨pc, hmono _ _ _ hpc, hrole⟩⟩

/-- What ties a runtime's log to its round machine. -/
structure Ledger (t : TopologyConfig) (s : RuntimeState) : Prop where
  topology : s.topology = t
  machine : s.roundMachine.Inv t
  schema : s.log.schemaVersion = 1
  keys : ∀ k, k ∈ s.log.commitmentKeys ↔ ∃ c ∈ s.log.commitments, c.key = k
  nodup : (s.log.commitments.map (·.key)).Nodup
  sound : ∀ c ∈ s.log.commitments, SoundCommitment t c
  proposals : ∀ p ∈ s.log.proposals, SoundProposal t s.log p ∧ ProviderCommitted s.log p
  agrees : ∀ f ∈ s.roundMachine.rounds, Agrees s.log f
  ascending : s.roundMachine.rounds.Pairwise (·.round < ·.round)
  commitmentRounds : ∀ c ∈ s.log.commitments, ∃ f ∈ s.roundMachine.rounds, f.round = c.round
  proposalRounds : ∀ p ∈ s.log.proposals, ∃ f ∈ s.roundMachine.rounds, f.round = p.round
  labels : ∀ rj ∈ s.log.rejections, RuntimeState.ProperLabels rj.kind rj.reasonCode
  order : s.log.rejections.Pairwise (·.round ≤ ·.round)
  span : ∀ rj ∈ s.log.rejections, rj.round ≤ s.roundMachine.current

/-- Machines that held the same rounds hold a round alike. -/
theorem RoundMachine.exists_round_of_map_eq {m m' : RoundMachine} (h : m'.rounds.map (·.round) = m.rounds.map (·.round))
    {r : RoundId} (hr : ∃ f ∈ m.rounds, f.round = r) : ∃ f ∈ m'.rounds, f.round = r := by
  have hmem : r ∈ m.rounds.map (·.round) := List.mem_map.mpr hr
  rw [← h] at hmem
  exact List.mem_map.mp hmem

theorem RoundMachine.ascending_of_map_eq {m m' : RoundMachine} (h : m'.rounds.map (·.round) = m.rounds.map (·.round))
    (hm : m.rounds.Pairwise (·.round < ·.round)) : m'.rounds.Pairwise (·.round < ·.round) := by
  have hpw : (m.rounds.map (·.round)).Pairwise (· < ·) := List.pairwise_map.mpr hm
  rw [← h] at hpw
  exact List.pairwise_map.mp hpw

namespace Ledger

open RuntimeState

variable {t : TopologyConfig} {s s' : RuntimeState}

theorem past_lt (h : Ledger t s) {f : FinalizedRound} (hf : f ∈ s.roundMachine.past) :
    f.round < s.roundMachine.current :=
  (List.pairwise_append.mp h.ascending).2.2 f hf _ (List.mem_singleton.mpr rfl)

/-- No held round is after the active one. -/
theorem rounds_le (h : Ledger t s) {f : FinalizedRound} (hf : f ∈ s.roundMachine.rounds) :
    f.round ≤ s.roundMachine.current := by
  rcases RoundMachine.mem_rounds.mp hf with hf | rfl
  · exact UInt64.le_of_lt (h.past_lt hf)
  · exact UInt64.le_refl _

/-- The commitments of the active round are those the machine holds. -/
theorem held_iff (h : Ledger t s) (n : NodeId) (c : CommitmentRecord) :
    s.roundMachine.commitments[n]? = some c ↔ s.log.HasCommitment n s.roundMachine.current c :=
  (h.agrees _ (RoundMachine.mem_rounds.mpr (Or.inr rfl))).commitments n c

/-- The proposals of the active round are the one the machine holds. -/
theorem proposalsIn_current (h : Ledger t s) :
    s.log.proposalsIn s.roundMachine.current = s.roundMachine.proposal.toList :=
  (h.agrees _ (RoundMachine.mem_rounds.mpr (Or.inr rfl))).proposals

/-- A logged rejection of the active round keeps the ledger. -/
theorem rejects (h : Ledger t s) (hr : Rejects s.roundMachine.current s s') : Ledger t s' := by
  obtain ⟨node, kind, reason, hl, rfl⟩ := hr
  refine ⟨h.topology, h.machine, h.schema, h.keys, h.nodup, h.sound,
    fun p hp => proposal_mono (l := s.log) (fun _ _ _ hc => hc) (h.proposals p hp),
    fun f hf => ⟨(h.agrees f hf).commitments, (h.agrees f hf).proposals⟩, h.ascending, h.commitmentRounds,
    h.proposalRounds, fun rj hrj => ?_, ?_, fun rj hrj => ?_⟩
  · rcases List.mem_append.mp hrj with hrj | hrj
    · exact h.labels rj hrj
    · rw [List.mem_singleton.mp hrj]
      exact hl
  · refine List.pairwise_append.mpr ⟨h.order, List.pairwise_singleton _ _, ?_⟩
    intro a ha b hb
    rw [List.mem_singleton.mp hb]
    exact h.span a ha
  · rcases List.mem_append.mp hrj with hrj | hrj
    · exact h.span rj hrj
    · rw [List.mem_singleton.mp hrj]
      exact UInt64.le_refl _

/-- The log has no key of a commitment the machine would take. -/
theorem key_notMem (h : Ledger t s) {c : CommitmentRecord} (hc : RoundMachine.Committable s.roundMachine c) :
    (c.nodeId, c.round) ∉ s.log.commitmentKeys := by
  intro hk
  obtain ⟨d, hd, hdk⟩ := (h.keys _).mp hk
  obtain ⟨hn, hr⟩ := Prod.mk.inj hdk
  have := (h.held_iff c.nodeId d).mpr ⟨hd, hn, hr.trans hc.round⟩
  exact hc.fresh (Std.TreeMap.mem_iff_isSome_getElem?.mpr (by rw [this]; rfl))

theorem log_takeCommitment (h : Ledger t s) {c : CommitmentRecord} (hc : RoundMachine.Committable s.roundMachine c) :
    (s.takeCommitment c).log = { s.log with
      commitmentKeys := insert c.key s.log.commitmentKeys, commitments := s.log.commitments ++ [c] } := by
  simp only [takeCommitment, appendCommitment, if_neg (h.key_notMem hc)]
  rfl

/-- What the log holds of a node in a round, after a commitment was taken. -/
theorem hasCommitment_takeCommitment (h : Ledger t s) {c : CommitmentRecord}
    (hc : RoundMachine.Committable s.roundMachine c) (n : NodeId) (r : RoundId) (d : CommitmentRecord) :
    (s.takeCommitment c).log.HasCommitment n r d ↔
      s.log.HasCommitment n r d ∨ (d = c ∧ c.nodeId = n ∧ c.round = r) := by
  simp only [HasCommitment, h.log_takeCommitment hc, List.mem_append, List.mem_singleton]
  constructor
  · rintro ⟨hd | rfl, h1, h2⟩
    · exact Or.inl ⟨hd, h1, h2⟩
    · exact Or.inr ⟨rfl, h1, h2⟩
  · rintro (⟨hd, h1, h2⟩ | ⟨rfl, h1, h2⟩)
    · exact ⟨Or.inl hd, h1, h2⟩
    · exact ⟨Or.inr rfl, h1, h2⟩

/-- The rounds agree with the log after a commitment was taken: the past ones are not its round, and in the active one the machine
took it too. -/
theorem agrees_takeCommitment (h : Ledger t s) {c : CommitmentRecord} (hc : RoundMachine.Committable s.roundMachine c) :
    ∀ f ∈ (s.takeCommitment c).roundMachine.rounds, Agrees (s.takeCommitment c).log f := by
  have hprops : (s.takeCommitment c).log.proposals = s.log.proposals := by rw [h.log_takeCommitment hc]
  intro f hf
  rcases RoundMachine.mem_rounds.mp hf with hf | rfl
  · have hag := h.agrees f (RoundMachine.mem_rounds.mpr (Or.inl hf))
    refine ⟨fun n d => ?_, by rw [proposalsIn, hprops]; exact hag.proposals⟩
    rw [hag.commitments, h.hasCommitment_takeCommitment hc]
    constructor
    · exact Or.inl
    · rintro (hd | ⟨-, -, hr⟩)
      · exact hd
      · exact absurd (hr.symm.trans hc.round) (UInt64.ne_of_lt (h.past_lt hf))
  · refine ⟨fun n d => ?_, ?_⟩
    · change (s.roundMachine.addCommitment c).commitments[n]? = some d ↔
          (s.takeCommitment c).log.HasCommitment n s.roundMachine.current d
      rw [RoundMachine.getElem?_addCommitment, h.hasCommitment_takeCommitment hc, ← h.held_iff]
      split
      · rename_i hn
        have hnone : s.roundMachine.commitments[n]? = none := by
          rw [← hn]
          exact Std.TreeMap.getElem?_eq_none hc.fresh
        rw [hnone, Option.some.injEq]
        constructor
        · intro he
          exact Or.inr ⟨he.symm, hn, hc.round⟩
        · rintro (h' | ⟨rfl, -, -⟩)
          · simp at h'
          · rfl
      · rename_i hn
        exact ⟨Or.inl, fun h' => h'.resolve_right (fun hc' => hn hc'.2.1)⟩
    · change (s.takeCommitment c).log.proposalsIn s.roundMachine.current = s.roundMachine.proposal.toList
      rw [proposalsIn, hprops]
      exact h.proposalsIn_current

/-- A commitment that passes the machine's checks is taken by both stores. -/
theorem takeCommitment (h : Ledger t s) {c : CommitmentRecord} (hc : RoundMachine.Committable s.roundMachine c) :
    Ledger t (s.takeCommitment c) := by
  have hlog := h.log_takeCommitment hc
  have hmem : ∀ d, d ∈ (s.takeCommitment c).log.commitments ↔ d ∈ s.log.commitments ∨ d = c := fun d => by
    rw [hlog]; simp
  have hprops : (s.takeCommitment c).log.proposals = s.log.proposals := by rw [hlog]
  have hrounds : (s.takeCommitment c).roundMachine.rounds.map (·.round) = s.roundMachine.rounds.map (·.round) := by
    simp [RuntimeState.takeCommitment, RoundMachine.rounds, RoundMachine.addCommitment]
  have hinv : (s.takeCommitment c).roundMachine.Inv t := by
    have := h.machine.acceptCommitment c
    rwa [RoundMachine.acceptCommitment_of_committable hc] at this
  refine ⟨h.topology, hinv, ?_, fun k => ?_, ?_, fun d hd => ?_, fun p hp => ?_, h.agrees_takeCommitment hc,
    RoundMachine.ascending_of_map_eq hrounds h.ascending, fun d hd => ?_, fun p hp => ?_, ?_, ?_, ?_⟩
  · rw [hlog]; exact h.schema
  · rw [hlog]
    simp only [Finset.mem_insert, h.keys k, List.mem_append, List.mem_singleton]
    constructor
    · rintro (rfl | ⟨d, hd, hk⟩)
      · exact ⟨c, Or.inr rfl, rfl⟩
      · exact ⟨d, Or.inl hd, hk⟩
    · rintro ⟨d, hd | rfl, hk⟩
      · exact Or.inr ⟨d, hd, hk⟩
      · exact Or.inl hk.symm
  · rw [hlog, List.map_append, List.nodup_append]
    refine ⟨h.nodup, List.nodup_singleton _, ?_⟩
    intro a ha b hb
    rw [List.map_singleton, List.mem_singleton] at hb
    rintro rfl
    exact h.key_notMem hc ((h.keys _).mpr (by rw [hb] at ha; exact List.mem_map.mp ha))
  · rcases (hmem d).mp hd with hd | rfl
    · exact h.sound d hd
    · exact h.machine.topology ▸ hc.sound
  · rw [hprops] at hp
    exact proposal_mono (fun _ _ _ hd => (h.hasCommitment_takeCommitment hc _ _ _).mpr (Or.inl hd)) (h.proposals p hp)
  · rcases (hmem d).mp hd with hd | rfl
    · exact RoundMachine.exists_round_of_map_eq hrounds (h.commitmentRounds d hd)
    · exact RoundMachine.exists_round_of_map_eq hrounds ⟨_, RoundMachine.mem_rounds.mpr (Or.inr rfl), hc.round.symm⟩
  · rw [hprops] at hp
    exact RoundMachine.exists_round_of_map_eq hrounds (h.proposalRounds p hp)
  · rw [hlog]; exact h.labels
  · rw [hlog]; exact h.order
  · rw [hlog]; exact h.span

/-- A proposal that passes the machine's checks is sound for the log. -/
theorem sound_of_proposable {Γ : Crypto} (ht : t.WellFormed Γ) (h : Ledger t s) {p : ProposalRecord}
    (hp : RoundMachine.Proposable s.roundMachine p) : SoundProposal t s.log p ∧ ProviderCommitted s.log p := by
  obtain ⟨req, r, hreq, hri⟩ := hp.requester
  obtain ⟨prov, r', claims, hprov, hpi, hm⟩ := hp.provider
  rw [h.held_iff, ← hp.round] at hreq hprov
  have hprop : t.providersStable[p.round.toNat % t.providersStable.length]? = some p.proposer := by
    rw [← VerifierAux.deterministicProposer_iff ht, hp.round, ← h.machine.topology]
    exact RoundMachine.currentProposer_eq_ok.mp hp.proposer
  refine ⟨⟨hprop, ⟨req, _, r, hreq, hri⟩, ⟨prov, hprov, fun n r'' claims' he => ?_⟩⟩, ⟨prov, hprov, by rw [hpi]; rfl⟩⟩
  rw [hpi] at he
  simp only [PublicIntent.provider.injEq] at he
  exact he.2.2 ▸ hm

/-- A proposal that passes the machine's checks is taken by both stores. -/
theorem takeProposal {Γ : Crypto} (ht : t.WellFormed Γ) (h : Ledger t s) {p : ProposalRecord}
    (hp : RoundMachine.Proposable s.roundMachine p) : Ledger t (s.takeProposal p) := by
  have hinv : (s.takeProposal p).roundMachine.Inv t := by
    have := h.machine.acceptProposal p
    rwa [RoundMachine.acceptProposal_of_proposable hp] at this
  have hin : ∀ r, (s.takeProposal p).log.proposalsIn r = s.log.proposalsIn r ++ if p.round = r then [p] else [] := by
    intro r
    simp only [RuntimeState.takeProposal, appendProposal, proposalsIn, List.filter_append]
    congr 1
    by_cases hr : p.round = r <;> simp [hr]
  have hrounds : (s.takeProposal p).roundMachine.rounds.map (·.round) = s.roundMachine.rounds.map (·.round) := by
    simp [RuntimeState.takeProposal, RoundMachine.rounds]
  refine ⟨h.topology, hinv, h.schema, h.keys, h.nodup, h.sound, fun q hq => ?_, fun f hf => ?_,
    RoundMachine.ascending_of_map_eq hrounds h.ascending,
    fun d hd => RoundMachine.exists_round_of_map_eq hrounds (h.commitmentRounds d hd), fun q hq => ?_, h.labels, h.order, h.span⟩
  · rcases List.mem_append.mp hq with hq | hq
    · exact proposal_mono (l := s.log) (fun _ _ _ hc => hc) (h.proposals q hq)
    · rw [List.mem_singleton.mp hq]
      exact proposal_mono (l := s.log) (fun _ _ _ hc => hc) (h.sound_of_proposable ht hp)
  · rcases RoundMachine.mem_rounds.mp hf with hf | rfl
    · have hag := h.agrees f (RoundMachine.mem_rounds.mpr (Or.inl hf))
      have hne : p.round ≠ f.round := fun he => UInt64.ne_of_lt (h.past_lt hf) (he.symm.trans hp.round)
      exact ⟨hag.commitments, by rw [hin, if_neg hne, List.append_nil]; exact hag.proposals⟩
    · refine ⟨h.held_iff, ?_⟩
      change (s.takeProposal p).log.proposalsIn s.roundMachine.current = [p]
      rw [hin, if_pos hp.round, h.proposalsIn_current, hp.unproposed]
      rfl
  · rcases List.mem_append.mp hq with hq | hq
    · exact RoundMachine.exists_round_of_map_eq hrounds (h.proposalRounds q hq)
    · rw [List.mem_singleton.mp hq]
      exact RoundMachine.exists_round_of_map_eq hrounds ⟨_, RoundMachine.mem_rounds.mpr (Or.inr rfl), hp.round.symm⟩

/-! ## Handlers, phases, rounds -/

/-- A change of the log's proofs and receipts alone keeps the ledger. -/
theorem of_log (h : Ledger t s) (proofs : List ProofArtifactRecord) (receipts : List CompletionReceiptRecord) :
    Ledger t { s with log := { s.log with proofs, receipts } } :=
  ⟨h.topology, h.machine, h.schema, h.keys, h.nodup, h.sound,
    fun p hp => proposal_mono (l := s.log) (fun _ _ _ hc => hc) (h.proposals p hp),
    fun f hf => ⟨(h.agrees f hf).commitments, (h.agrees f hf).proposals⟩, h.ascending, h.commitmentRounds,
    h.proposalRounds, h.labels, h.order, h.span⟩

theorem remember (h : Ledger t s) (node : NodeId) (round : RoundId) (rec : CommitmentRecord) :
    Ledger t (s.remember node round rec) :=
  ⟨h.topology, h.machine, h.schema, h.keys, h.nodup, h.sound, h.proposals, h.agrees, h.ascending, h.commitmentRounds,
    h.proposalRounds, h.labels, h.order, h.span⟩

/-- The ledger in a given active round. -/
def At (t : TopologyConfig) (round : RoundId) (s : RuntimeState) : Prop :=
  Ledger t s ∧ s.roundMachine.current = round

variable {Γ : Crypto} {R : Delivery} {round : RoundId}

theorem At.rejects (h : At t round s) (hr : Rejects round s s') : At t round s' :=
  ⟨h.1.rejects (h.2.symm ▸ hr), (SameFrame.of_rejects hr).current.trans h.2⟩

/-- The commitment broadcasts of a round leave the machine as it is. -/
theorem broadcastCommitments (h : Ledger t s) {msgs : List CoordinationMessage}
    (hb : s.broadcastCommitments Γ s.roundMachine.current = (msgs, .ok s')) :
    At t s.roundMachine.current s' ∧ s'.roundMachine = s.roundMachine := by
  refine broadcastCommitmentsOf_invariant (P := fun s' : RuntimeState =>
    At t s.roundMachine.current s' ∧ s'.roundMachine = s.roundMachine) ?_ ?_ ⟨⟨h, rfl⟩, rfl⟩ hb
  · rintro x y ⟨hat, hm⟩ hr
    refine ⟨hat.rejects hr, ?_⟩
    obtain ⟨_, _, _, -, rfl⟩ := hr
    exact hm
  · rintro x n rec ⟨hat, hm⟩ - -
    exact ⟨⟨hat.1.remember _ _ _, hat.2⟩, hm⟩

theorem At.handleCommitment (h : At t round s) (msg : CoordinationMessage) :
    At t round (handleCommitment round s msg) := by
  rcases handleCommitment_cases round s msg with ⟨c, -, -, hc, ⟨-, he⟩ | ⟨hk, -⟩⟩ | hr
  · rw [he]
    exact ⟨h.1.takeCommitment hc, h.2⟩
  · exact absurd hk (h.1.key_notMem hc)
  · exact h.rejects hr

theorem At.handleProposal (ht : t.WellFormed Γ) (h : At t round s) (msg : CoordinationMessage) :
    At t round (handleProposal round s msg) := by
  rcases handleProposal_cases round s msg with ⟨p, -, -, hp, he⟩ | hr
  · rw [he]
    exact ⟨h.1.takeProposal ht hp, h.2⟩
  · exact h.rejects hr

theorem At.handleProof (h : At t round s) (msg : CoordinationMessage) : At t round (handleProof round s msg) := by
  rcases handleProof_cases round s msg with ⟨a, c, -, -, -, -, -, he⟩ | hr
  · rw [he]
    exact ⟨h.1.of_log _ _, h.2⟩
  · exact h.rejects hr

theorem At.handleReceipt (h : At t round s) (msg : CoordinationMessage) : At t round (handleReceipt round s msg) := by
  rcases handleReceipt_cases round s msg with ⟨r, -, -, -, -, he⟩ | ⟨-, hr⟩
  · rw [he]
    exact ⟨h.1.of_log _ _, h.2⟩
  · exact h.rejects hr

theorem At.commitmentsDone (h : At t round s) (hd : CommitmentsDone Γ R round s s') : At t round s' := by
  obtain ⟨hb, -⟩ := hd
  have h₁ := broadcastCommitmentsOf_invariant (P := At t round) (fun _ _ hP hr => hP.rejects hr)
    (fun _ _ _ hP _ _ => ⟨hP.1.remember _ _ _, hP.2⟩) h hb
  exact List.foldlRecOn _ _ h₁ (fun _ hP msg _ => hP.handleCommitment msg)

theorem At.proofsDone {p : ProposalRecord} (h : At t round s) (hd : ProofsDone Γ R round p s s') : At t round s' := by
  obtain ⟨-, -⟩ := hd
  exact List.foldlRecOn _ _ h (fun _ hP msg _ => hP.handleProof msg)

theorem At.receiptsDone {p : ProposalRecord} (h : At t round s) (hd : ReceiptsDone Γ R round p s s') :
    At t round s' := by
  obtain ⟨-, -⟩ := hd
  exact List.foldlRecOn _ _ h (fun _ hP msg _ => hP.handleReceipt msg)

/-- The step to the next round keeps the ledger. -/
theorem advance (h : Ledger t s) {m' : RoundMachine} (ha : s.roundMachine.advanceFallback = some (.ok (), m')) :
    Ledger t { s with roundMachine := m' } := by
  obtain ⟨rfl, hnext⟩ := RoundMachine.advanceFallback_ok ha
  have hlt : s.roundMachine.current < s.roundMachine.current + 1 := by
    rw [UInt64.lt_iff_toNat_lt, hnext]
    exact Nat.lt_succ_self _
  have hrounds : (s.roundMachine.advanced (s.roundMachine.current + 1)).rounds =
      s.roundMachine.rounds ++ [⟨s.roundMachine.current + 1, ∅, none⟩] := by
    simp [RoundMachine.rounds, RoundMachine.advanced]
  have hle : ∀ f ∈ s.roundMachine.rounds, f.round < s.roundMachine.current + 1 := fun f hf =>
    UInt64.lt_of_le_of_lt (h.rounds_le hf) hlt
  refine ⟨h.topology, ⟨h.machine.topology, fun n c hc => by simp [RoundMachine.advanced] at hc⟩, h.schema, h.keys, h.nodup,
    h.sound, h.proposals, fun f hf => ?_, ?_, fun c hc => ?_, fun p hp => ?_, h.labels, h.order,
    fun rj hrj => UInt64.le_of_lt (UInt64.lt_of_le_of_lt (h.span rj hrj) hlt)⟩
  · rw [hrounds] at hf
    rcases List.mem_append.mp hf with hf | hf
    · exact h.agrees f hf
    · rw [List.mem_singleton.mp hf]
      refine ⟨fun n c => ?_, ?_⟩
      · simp only [Std.TreeMap.getElem?_emptyc, reduceCtorEq, false_iff]
        rintro ⟨hc, -, hr⟩
        obtain ⟨f, hf, hfr⟩ := h.commitmentRounds c hc
        exact UInt64.ne_of_lt (hle f hf) (hfr.trans hr)
      · rw [Option.toList_none, List.eq_nil_iff_forall_not_mem]
        intro p hp
        obtain ⟨hpm, hpr⟩ := mem_proposalsIn.mp hp
        obtain ⟨f, hf, hfr⟩ := h.proposalRounds p hpm
        exact UInt64.ne_of_lt (hle f hf) (hfr.trans hpr)
  · rw [hrounds, List.pairwise_append]
    refine ⟨h.ascending, List.pairwise_singleton _ _, ?_⟩
    intro f hf g hg
    rw [List.mem_singleton.mp hg]
    exact hle f hf
  · obtain ⟨f, hf, hfr⟩ := h.commitmentRounds c hc
    exact ⟨f, by rw [hrounds]; exact List.mem_append_left _ hf, hfr⟩
  · obtain ⟨f, hf, hfr⟩ := h.proposalRounds p hp
    exact ⟨f, by rw [hrounds]; exact List.mem_append_left _ hf, hfr⟩

/-- Every step of a round and the step to the next one keep the ledger, whatever is delivered. -/
theorem At.kept (ht : t.WellFormed Γ) : Kept Γ (At t) where
  rejects _ _ _ h hr := h.rejects hr
  remember _ _ _ _ h _ := ⟨h.1.remember _ _ _, h.2⟩
  commitment _ _ msg h := h.handleCommitment msg
  proposal _ _ msg h := h.handleProposal ht msg
  proof _ _ msg h := h.handleProof msg
  receipt _ _ msg h := h.handleReceipt msg
  advance r s m' h ha := by
    refine ⟨h.1.advance ha, ?_⟩
    obtain ⟨rfl, -⟩ := RoundMachine.advanceFallback_ok ha
    exact congrArg (· + 1) h.2

theorem At.proposalDone (ht : t.WellFormed Γ) (h : At t round s) (hd : ProposalDone R round s s') : At t round s' :=
  (At.kept ht).proposalDone h hd

/-- A round keeps the ledger, whatever is delivered in it. -/
theorem At.roundEnds (ht : t.WellFormed Γ) {o : RoundOutcome} (h : At t round s) (he : RoundEnds Γ R round s o s') :
    At t round s' :=
  (At.kept ht).roundEnds h he

/-- A fresh log and a fresh machine. -/
theorem initial (runId : String) (start : RoundId) {s : RuntimeState} (htopo : s.topology = t)
    (hlog : s.log = .new runId) (hmachine : s.roundMachine = .new t start) : Ledger t s := by
  refine ⟨htopo, hmachine ▸ RoundMachine.inv_new t start, ?_, fun k => ?_, ?_, fun c hc => ?_, fun p hp => ?_, fun f hf => ?_,
    ?_, fun c hc => ?_, fun p hp => ?_, fun rj hrj => ?_, ?_, fun rj hrj => ?_⟩
  · rw [hlog]
    rfl
  · rw [hlog]
    simp [CoordinationLog.new]
  · rw [hlog]
    exact List.nodup_nil
  · rw [hlog] at hc
    exact absurd hc List.not_mem_nil
  · rw [hlog] at hp
    exact absurd hp List.not_mem_nil
  · rw [hmachine] at hf
    rw [List.mem_singleton.mp hf, hlog]
    refine ⟨fun n c => ?_, rfl⟩
    simp [RoundMachine.new, CoordinationLog.HasCommitment, CoordinationLog.new]
  · rw [hmachine]
    exact List.pairwise_singleton _ _
  · rw [hlog] at hc
    exact absurd hc List.not_mem_nil
  · rw [hlog] at hp
    exact absurd hp List.not_mem_nil
  · rw [hlog] at hrj
    exact absurd hrj List.not_mem_nil
  · rw [hlog]
    exact List.Pairwise.nil
  · rw [hlog] at hrj
    exact absurd hrj List.not_mem_nil

end Ledger

/-! ## Before each round -/

/-- What a runtime satisfies before each round: the ledger, no receipt, and no rejection of the round yet. -/
structure BeforeRound (t : TopologyConfig) (s : RuntimeState) : Prop where
  ledger : Ledger t s
  receipts : s.log.receipts = []
  span : ∀ rj ∈ s.log.rejections, rj.round < s.roundMachine.current

namespace BeforeRound

variable {Γ : Crypto} {R : Delivery} {t : TopologyConfig} {s s' : RuntimeState}

theorem start {runId : String} {agents : Agents} {scenario : Scenario} {maxRounds : UInt64} {salt : Bytes 32} :
    BeforeRound t { RuntimeState.initial t agents scenario maxRounds with runSalt := salt, log := .new runId } :=
  ⟨.initial runId 0 rfl rfl rfl, rfl, fun _ hrj => absurd hrj List.not_mem_nil⟩

/-- A round that falls back leads to the next one. -/
theorem fallback (ht : t.WellFormed Γ) {m' : RoundMachine} (h : BeforeRound t s)
    (he : RoundEnds Γ R s.roundMachine.current s .fallback s') (ha : s'.roundMachine.advanceFallback = some (.ok (), m')) :
    BeforeRound t { s' with roundMachine := m' } := by
  obtain ⟨hl, hcur⟩ := Ledger.At.roundEnds ht ⟨h.ledger, rfl⟩ he
  refine ⟨hl.advance ha, he.receipts_fallback.trans h.receipts, ?_⟩
  intro rj hrj
  obtain ⟨rfl, hnext⟩ := RoundMachine.advanceFallback_ok ha
  refine UInt64.lt_of_le_of_lt (hl.span rj hrj) ?_
  change s'.roundMachine.current < s'.roundMachine.current + 1
  rw [UInt64.lt_iff_toNat_lt, hnext]
  exact Nat.lt_succ_self _

/-- The end of a run: of the machine that it leaves the ledger holds, the receipts are of a final round that is finalized and
the rejections of no later one. -/
theorem ends {τ : Type} [CoordinationTransport τ] {I : τ → Prop} (hd : Delivers τ I R) (ht : t.WellFormed Γ) {n : Nat}
    {rt rt' : Runtime τ} {fin : Bool} {fr : RoundId} (hI : I rt.transport) (h : BeforeRound t rt.state)
    (h0 : rt.state.roundMachine.current = 0) (hrun : Runtime.runRounds Γ n 0 rt = .ok (rt', fin, fr)) :
    Ledger t rt'.state ∧ (∀ r ∈ rt'.state.log.receipts, fin = true ∧ r.round = fr) ∧
      ∀ rj ∈ rt'.state.log.rejections, rj.round ≤ fr := by
  rcases Runtime.runRounds_spec hd (P := BeforeRound t) (fun _ _ _ => fallback ht) hI h hrun with
    ⟨rfl, s, hs, rfl, he⟩ | ⟨rfl, hs, hfr⟩
  · obtain ⟨hl, hcur⟩ := Ledger.At.roundEnds ht ⟨hs.ledger, rfl⟩ he
    refine ⟨hl, fun r hr => ⟨rfl, ?_⟩, fun rj hrj => hcur ▸ hl.span rj hrj⟩
    rcases he.receipts_finalized r hr with hr | hr
    · rw [hs.receipts] at hr
      exact absurd hr List.not_mem_nil
    · exact hr
  · refine ⟨hs.ledger, fun r hr => ?_, fun rj hrj => ?_⟩
    · rw [hs.receipts] at hr
      exact absurd hr List.not_mem_nil
    · have hlt := hs.span rj hrj
      rcases hfr with ⟨-, -, rfl⟩ | hfr
      · rw [h0] at hlt
        exact absurd hlt UInt64.not_lt_zero
      · rw [UInt64.lt_iff_toNat_lt] at hlt
        rw [UInt64.le_iff_toNat_le]
        omega

end BeforeRound

end VertexVeil
