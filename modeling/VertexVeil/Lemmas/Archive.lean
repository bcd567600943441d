import VertexVeil.Lemmas.RoundMachine

/-!
# Helpers about the round machine: what it has held over a whole run

`Holds` and `Proposes` speak of the active round and of the past ones alike. `Archive` is what every call keeps of them, and
`Collects` what a run adds: the machine holds the commitments its calls were granted and no others, and its history is their
texts.
-/

namespace VertexVeil

open Codec Transition

namespace RoundMachine

/-- The commitment a node has in a round the machine holds or has held. -/
def Holds (m : RoundMachine) (r : RoundId) (n : NodeId) (c : CommitmentRecord) : Prop :=
  ∃ f ∈ m.rounds, f.round = r ∧ f.commitments[n]? = some c

/-- The proposal of a round the machine holds or has held. -/
def Proposes (m : RoundMachine) (r : RoundId) (p : ProposalRecord) : Prop :=
  ∃ f ∈ m.rounds, f.round = r ∧ f.proposal = some p

variable {t : TopologyConfig} {m m' : RoundMachine} {r : RoundId} {n : NodeId} {c d : CommitmentRecord} {p : ProposalRecord}

theorem holds_iff : m.Holds r n c ↔
    (∃ f ∈ m.past, f.round = r ∧ f.commitments[n]? = some c) ∨ (m.current = r ∧ m.commitments[n]? = some c) := by
  unfold Holds
  constructor
  · rintro ⟨f, hf, h⟩
    rcases mem_rounds.mp hf with hf | rfl
    · exact Or.inl ⟨f, hf, h⟩
    · exact Or.inr h
  · rintro (⟨f, hf, h⟩ | h)
    · exact ⟨f, mem_rounds.mpr (Or.inl hf), h⟩
    · exact ⟨_, mem_rounds.mpr (Or.inr rfl), h⟩

theorem proposes_iff : m.Proposes r p ↔
    (∃ f ∈ m.past, f.round = r ∧ f.proposal = some p) ∨ (m.current = r ∧ m.proposal = some p) := by
  unfold Proposes
  constructor
  · rintro ⟨f, hf, h⟩
    rcases mem_rounds.mp hf with hf | rfl
    · exact Or.inl ⟨f, hf, h⟩
    · exact Or.inr h
  · rintro (⟨f, hf, h⟩ | h)
    · exact ⟨f, mem_rounds.mpr (Or.inl hf), h⟩
    · exact ⟨_, mem_rounds.mpr (Or.inr rfl), h⟩

/-- A new machine holds nothing. -/
theorem not_holds_new (t : TopologyConfig) (start : RoundId) : ¬ (new t start).Holds r n c := by
  intro h
  rcases holds_iff.mp h with ⟨f, hf, -⟩ | ⟨-, h⟩
  · exact absurd hf List.not_mem_nil
  · simp [new] at h

/-- Adding a commitment that passes the checks adds it to the active round, and loses nothing. -/
theorem holds_addCommitment (h : Committable m c) :
    (m.addCommitment c).Holds r n d ↔ m.Holds r n d ∨ (r = m.current ∧ n = c.nodeId ∧ d = c) := by
  rw [holds_iff, holds_iff, getElem?_addCommitment]
  by_cases hn : c.nodeId = n
  · subst hn
    have hnone : m.commitments[c.nodeId]? = none := Std.TreeMap.getElem?_eq_none h.fresh
    simp only [if_true, hnone, Option.some.injEq, true_and, or_assoc, addCommitment]
    refine or_congr Iff.rfl ?_
    constructor
    · intro hr
      exact Or.inr ⟨hr.1.symm, hr.2.symm⟩
    · intro hr
      rcases hr with hr | hr
      · simp at hr
      · exact ⟨hr.1.symm, hr.2.symm⟩
  · rw [if_neg hn]
    refine ⟨Or.inl, fun h => h.resolve_right ?_⟩
    rintro ⟨-, he, -⟩
    exact hn he.symm

theorem proposes_addCommitment : (m.addCommitment c).Proposes r p ↔ m.Proposes r p := by
  rw [proposes_iff, proposes_iff]
  rfl

theorem holds_propose (q : ProposalRecord) : ({ m with proposal := some q } : RoundMachine).Holds r n c ↔ m.Holds r n c := by
  rw [holds_iff, holds_iff]

theorem proposes_propose {q : ProposalRecord} (h : m.proposal = none) :
    ({ m with proposal := some q } : RoundMachine).Proposes r p ↔ m.Proposes r p ∨ (r = m.current ∧ p = q) := by
  simp only [proposes_iff, h, Option.some.injEq, reduceCtorEq, and_false, or_false]
  refine or_congr Iff.rfl ?_
  constructor
  · intro hp
    exact ⟨hp.1.symm, hp.2.symm⟩
  · intro hp
    exact ⟨hp.1.symm, hp.2.symm⟩

/-- Going on to a later round, the machine holds what it held. -/
theorem holds_advanced (next : RoundId) : (m.advanced next).Holds r n c ↔ m.Holds r n c := by
  rw [holds_iff, holds_iff]
  simp [advanced, or_and_right, exists_or]

theorem proposes_advanced (next : RoundId) : (m.advanced next).Proposes r p ↔ m.Proposes r p := by
  rw [proposes_iff, proposes_iff]
  simp [advanced, or_and_right, exists_or]

/-! ## What every call keeps -/

/-- A commitment stored under its node, of a node of the topology in its role, whose record and intent name the round it is
stored in. -/
structure Filed (t : TopologyConfig) (r : RoundId) (n : NodeId) (c : CommitmentRecord) : Prop where
  node : c.nodeId = n
  round : c.round = r
  sound : SoundCommitment t c

/-- A proposal by the proposer of its round, for committed participants and a capability that the one requires and the other
claims. -/
structure Stands (t : TopologyConfig) (m : RoundMachine) (r : RoundId) (p : ProposalRecord) : Prop where
  round : p.round = r
  proposer : deterministicProposer t r = .ok p.proposer
  requester : ∃ c k, m.Holds r p.candidateRequester c ∧
    c.publicIntent = .requester p.candidateRequester k p.matchedCapability
  provider : ∃ c k claims, m.Holds r p.candidateProvider c ∧
    c.publicIntent = .provider p.candidateProvider k claims ∧ p.matchedCapability ∈ claims

/-- What every call of the machine keeps of the rounds it holds and has held. -/
structure Archive (t : TopologyConfig) (m : RoundMachine) : Prop where
  topology : m.topology = t
  filed : ∀ r n c, m.Holds r n c → Filed t r n c
  distinct : ∀ r n c r' n' c', m.Holds r n c → m.Holds r' n' c' → c.commitmentHex = c'.commitmentHex → r = r' ∧ n = n'
  history : ∀ x, x ∈ m.historyHex ↔ ∃ r n c, m.Holds r n c ∧ c.commitmentHex = x
  ascending : m.past.Pairwise (·.round < ·.round)
  before : ∀ f ∈ m.past, f.round < m.current
  proposals : ∀ r p, m.Proposes r p → m.Stands t r p

theorem Stands.mono (h : m.Stands t r p) (hm : ∀ r n c, m.Holds r n c → m'.Holds r n c) : m'.Stands t r p := by
  obtain ⟨h1, h2, ⟨c, k, hc, hci⟩, ⟨d, k', claims, hd, hdi⟩⟩ := h
  exact ⟨h1, h2, ⟨c, k, hm _ _ _ hc, hci⟩, ⟨d, k', claims, hm _ _ _ hd, hdi⟩⟩

theorem archive_new (t : TopologyConfig) (start : RoundId) : Archive t (new t start) where
  topology := rfl
  filed _ _ _ h := absurd h (not_holds_new t start)
  distinct _ _ _ _ _ _ h := absurd h (not_holds_new t start)
  history x := by
    constructor
    · intro h
      simp [new] at h
    · rintro ⟨r, n, c, h, -⟩
      exact absurd h (not_holds_new t start)
  ascending := List.Pairwise.nil
  before f hf := absurd hf List.not_mem_nil
  proposals r p h := by
    rcases proposes_iff.mp h with ⟨f, hf, -⟩ | ⟨-, h⟩
    · exact absurd hf List.not_mem_nil
    · simp [new] at h

theorem Archive.addCommitment (h : Archive t m) (hc : Committable m c) : Archive t (m.addCommitment c) where
  topology := h.topology
  filed r n d hd := by
    rcases (holds_addCommitment hc).mp hd with hd | ⟨rfl, rfl, rfl⟩
    · exact h.filed r n d hd
    · exact ⟨rfl, hc.round, h.topology ▸ hc.sound⟩
  distinct r n d r' n' d' hd hd' he := by
    -- a text in the history is not the new one
    have hold : ∀ r n d, m.Holds r n d → d.commitmentHex ≠ c.commitmentHex := by
      intro r n d hd hx
      exact hc.unseen ((h.history _).mpr ⟨r, n, d, hd, hx⟩)
    rcases (holds_addCommitment hc).mp hd with hd | ⟨rfl, rfl, rfl⟩
    · rcases (holds_addCommitment hc).mp hd' with hd' | ⟨-, -, rfl⟩
      · exact h.distinct r n d r' n' d' hd hd' he
      · exact absurd he (hold r n d ‹_›)
    · rcases (holds_addCommitment hc).mp hd' with hd' | ⟨rfl, rfl, -⟩
      · exact absurd he.symm (hold r' n' d' hd')
      · exact ⟨rfl, rfl⟩
  history x := by
    simp only [RoundMachine.addCommitment, Finset.mem_insert]
    rw [h.history x]
    constructor
    · rintro (rfl | ⟨r, n, d, hd, hx⟩)
      · exact ⟨m.current, c.nodeId, c, (holds_addCommitment hc).mpr (Or.inr ⟨rfl, rfl, rfl⟩), rfl⟩
      · exact ⟨r, n, d, (holds_addCommitment hc).mpr (Or.inl hd), hx⟩
    · rintro ⟨r, n, d, hd, hx⟩
      rcases (holds_addCommitment hc).mp hd with hd | ⟨-, -, rfl⟩
      · exact Or.inr ⟨r, n, d, hd, hx⟩
      · exact Or.inl hx.symm
  ascending := h.ascending
  before := h.before
  proposals r p hp := (h.proposals r p (proposes_addCommitment.mp hp)).mono fun _ _ _ hd =>
    (holds_addCommitment hc).mpr (Or.inl hd)

theorem Archive.propose (h : Archive t m) (hp : Proposable m p) : Archive t { m with proposal := some p } where
  topology := h.topology
  filed r n c hc := h.filed r n c ((holds_propose p).mp hc)
  distinct r n c r' n' c' hc hc' := h.distinct r n c r' n' c' ((holds_propose p).mp hc) ((holds_propose p).mp hc')
  history x := by
    simp only [holds_propose]
    exact h.history x
  ascending := h.ascending
  before := h.before
  proposals r q hq := by
    rcases (proposes_propose hp.unproposed).mp hq with hq | ⟨rfl, rfl⟩
    · exact (h.proposals r q hq).mono fun _ _ _ hc => (holds_propose p).mpr hc
    · obtain ⟨c, k, hc, hci⟩ := hp.requester
      obtain ⟨d, k', claims, hd, hdi⟩ := hp.provider
      refine ⟨hp.round, ?_, ⟨c, k, ?_, hci⟩, ⟨d, k', claims, ?_, hdi⟩⟩
      · rw [← h.topology]
        exact currentProposer_eq_ok.mp hp.proposer
      · exact (holds_propose q).mpr (holds_iff.mpr (Or.inr ⟨rfl, hc⟩))
      · exact (holds_propose q).mpr (holds_iff.mpr (Or.inr ⟨rfl, hd⟩))

theorem Archive.advanced (h : Archive t m) {next : RoundId} (hlt : m.current < next) : Archive t (m.advanced next) where
  topology := h.topology
  filed r n c hc := h.filed r n c ((holds_advanced next).mp hc)
  distinct r n c r' n' c' hc hc' := h.distinct r n c r' n' c' ((holds_advanced next).mp hc) ((holds_advanced next).mp hc')
  history x := by
    simp only [holds_advanced]
    exact h.history x
  ascending := by
    refine List.pairwise_append.mpr ⟨h.ascending, List.pairwise_singleton _ _, ?_⟩
    intro f hf g hg
    rw [List.mem_singleton.mp hg]
    exact h.before f hf
  before f hf := by
    rcases List.mem_append.mp hf with hf | hf
    · exact UInt64.lt_trans (h.before f hf) hlt
    · rw [List.mem_singleton.mp hf]
      exact hlt
  proposals r p hp := (h.proposals r p ((proposes_advanced next).mp hp)).mono fun _ _ _ hc => (holds_advanced next).mpr hc

/-! ## Calls and runs -/

/-- The commitment a call is granted. -/
def granted (m : RoundMachine) : RoundCall → List CommitmentRecord
  | .acceptCommitment c =>
    match (m.acceptCommitment c).1 with
    | .ok () => [c]
    | .error _ => []
  | _ => []

/-- The commitments that calls are granted, one call after the other. -/
def grantedBy : RoundMachine → List RoundCall → List CommitmentRecord
  | _, [] => []
  | m, call :: calls =>
    match call.exec m with
    | none => []
    | some m' => granted m call ++ grantedBy m' calls

/-- Everything a call can do to the machine: add the commitment it is granted; or, granted none, store a proposal that passes the
checks, go on to a later round, or nothing. -/
theorem exec_cases {call : RoundCall} (h : call.exec m = some m') :
    (∃ c, granted m call = [c] ∧ Committable m c ∧ m' = m.addCommitment c) ∨
      (granted m call = [] ∧ ((∃ p, Proposable m p ∧ m' = { m with proposal := some p }) ∨
        (∃ next, m.current < next ∧ m' = m.advanced next) ∨ m' = m)) := by
  have hadvance : ∀ next, (m.advanceTo next).2 = m' → (∃ next, m.current < next ∧ m' = m.advanced next) ∨ m' = m := by
    intro next h
    unfold advanceTo at h
    split at h
    · exact Or.inr h.symm
    · rename_i hlt
      exact Or.inl ⟨next, UInt64.not_le.mp hlt, h.symm⟩
  cases call with
  | acceptCommitment c =>
    have h := Option.some.inj h
    rcases acceptCommitment_cases m c with ⟨hc, ha⟩ | ⟨-, e, ha⟩
    · rw [ha] at h
      exact Or.inl ⟨c, by simp only [granted, ha], hc, h.symm⟩
    · rw [ha] at h
      exact Or.inr ⟨by simp only [granted, ha], Or.inr (Or.inr h.symm)⟩
  | acceptProposal p =>
    have h := Option.some.inj h
    rcases acceptProposal_cases m p with ⟨hp, ha⟩ | ⟨-, e, ha⟩
    · rw [ha] at h
      exact Or.inr ⟨rfl, Or.inl ⟨p, hp, h.symm⟩⟩
    · rw [ha] at h
      exact Or.inr ⟨rfl, Or.inr (Or.inr h.symm)⟩
  | advanceTo next => exact Or.inr ⟨rfl, Or.inr (hadvance next (Option.some.inj h))⟩
  | advanceFallback =>
    obtain ⟨x, hx, rfl⟩ := Option.map_eq_some_iff.mp h
    obtain ⟨next, -, rfl⟩ := Option.map_eq_some_iff.mp hx
    exact Or.inr ⟨rfl, Or.inr (hadvance next rfl)⟩

/-- Every call keeps the archive. -/
theorem Archive.exec (h : Archive t m) {call : RoundCall} (he : call.exec m = some m') : Archive t m' := by
  rcases exec_cases he with ⟨c, -, hc, rfl⟩ | ⟨-, ⟨p, hp, rfl⟩ | ⟨next, hlt, rfl⟩ | rfl⟩
  · exact h.addCommitment hc
  · exact h.propose hp
  · exact h.advanced hlt
  · exact h

theorem archive_of_reachable (h : (machine t).Reachable m) : Archive t m := by
  refine h.invariant (fun s hs => ?_) (fun s a s' _ hi he => hi.exec he)
  obtain ⟨start, rfl⟩ := hs
  exact archive_new t start

/-- A call that returns an error leaves the machine as it was. -/
theorem call_error {call : RoundCall} {e : RoundError} (h : call.call m = some (.error e, m')) : m' = m := by
  cases call with
  | acceptCommitment c => exact acceptCommitment_error (Option.some.inj h)
  | acceptProposal p => exact acceptProposal_error (Option.some.inj h)
  | advanceTo next => exact advanceTo_error (Option.some.inj h)
  | advanceFallback =>
    obtain ⟨next, -, h⟩ := Option.map_eq_some_iff.mp h
    exact advanceTo_error h

/-- What a machine becomes over calls that were granted commitments: it holds these besides the ones it held, its history has
their texts besides the ones it had, and the texts are new and distinct. -/
structure Collects (m : RoundMachine) (cs : List CommitmentRecord) (m' : RoundMachine) : Prop where
  held : ∀ c, (∃ r n, m'.Holds r n c) ↔ (∃ r n, m.Holds r n c) ∨ c ∈ cs
  history : ∀ x, x ∈ m'.historyHex ↔ x ∈ m.historyHex ∨ x ∈ cs.map (·.commitmentHex)
  distinct : (cs.map (·.commitmentHex)).Nodup
  fresh : ∀ x ∈ cs.map (·.commitmentHex), x ∉ m.historyHex

theorem Collects.nothing (hh : ∀ r n c, m'.Holds r n c ↔ m.Holds r n c) (hx : m'.historyHex = m.historyHex) :
    Collects m [] m' := by
  refine ⟨fun c => ?_, fun x => ?_, List.nodup_nil, fun x hx => absurd hx List.not_mem_nil⟩
  · simp only [hh, List.not_mem_nil, or_false]
  · simp only [hx, List.map_nil, List.not_mem_nil, or_false]

theorem Collects.append {cs ds : List CommitmentRecord} {m₁ : RoundMachine} (h : Collects m cs m₁) (h' : Collects m₁ ds m') :
    Collects m (cs ++ ds) m' := by
  refine ⟨fun c => ?_, fun x => ?_, ?_, fun x hx => ?_⟩
  · rw [h'.held, h.held, List.mem_append, or_assoc]
  · rw [h'.history, h.history, List.map_append, List.mem_append, or_assoc]
  · rw [List.map_append, List.nodup_append]
    refine ⟨h.distinct, h'.distinct, ?_⟩
    intro x hx y hy he
    exact h'.fresh y hy ((h.history y).mpr (Or.inr (he ▸ hx)))
  · rw [List.map_append, List.mem_append] at hx
    rcases hx with hx | hx
    · exact h.fresh x hx
    · exact fun hm => h'.fresh x hx ((h.history x).mpr (Or.inl hm))

/-- A call collects what it is granted. -/
theorem collects_exec {call : RoundCall} (h : call.exec m = some m') : Collects m (granted m call) m' := by
  rcases exec_cases h with ⟨c, hg, hc, rfl⟩ | ⟨hg, h⟩
  · rw [hg]
    refine ⟨fun d => ?_, fun x => ?_, List.nodup_singleton _, fun x hx => ?_⟩
    · simp only [holds_addCommitment hc, exists_or, List.mem_singleton]
      refine or_congr Iff.rfl ⟨fun hd => ?_, fun hd => ⟨_, _, rfl, rfl, hd⟩⟩
      obtain ⟨r, n, -, -, hd⟩ := hd
      exact hd
    · simp only [addCommitment, Finset.mem_insert, List.map_singleton, List.mem_singleton]
      exact Or.comm
    · rw [List.map_singleton, List.mem_singleton] at hx
      rw [hx]
      exact hc.unseen
  · rw [hg]
    rcases h with ⟨p, -, rfl⟩ | ⟨next, -, rfl⟩ | rfl
    · exact .nothing (fun _ _ _ => holds_propose p) rfl
    · exact .nothing (fun _ _ _ => holds_advanced next) rfl
    · exact .nothing (fun _ _ _ => Iff.rfl) rfl

/-- A run collects what its calls are granted. -/
theorem collects_run {calls : List RoundCall} (h : (machine t).run m calls = some m') : Collects m (grantedBy m calls) m' := by
  induction calls generalizing m with
  | nil =>
    obtain rfl := Option.some.inj h
    exact .nothing (fun _ _ _ => Iff.rfl) rfl
  | cons call calls ih =>
    obtain ⟨m₁, h₁, h⟩ := Option.bind_eq_some_iff.mp h
    have h₁ : call.exec m = some m₁ := h₁
    simp only [grantedBy, h₁]
    exact (collects_exec h₁).append (ih h)

/-! ## Commitments of different nodes -/

/-- The machine after commitments were offered to it, one after the other. -/
def offered (m : RoundMachine) (cs : List CommitmentRecord) : RoundMachine :=
  cs.foldl (fun m c => (m.acceptCommitment c).2) m

theorem offered_concat (m : RoundMachine) (cs : List CommitmentRecord) (c : CommitmentRecord) :
    m.offered (cs ++ [c]) = ((m.offered cs).acceptCommitment c).2 := by
  simp only [offered, List.foldl_append, List.foldl_cons, List.foldl_nil]

theorem acceptCommitment_eq_ok : (m.acceptCommitment c).1 = .ok () ↔ Committable m c := by
  rcases acceptCommitment_cases m c with ⟨hc, ha⟩ | ⟨hc, e, ha⟩
  · simp only [ha, hc]
  · simp only [ha, hc, reduceCtorEq]

/-- A record of another node leaves a commitment acceptable unless it carries the same text and is itself taken: the history is
all that two nodes share. -/
theorem committable_after_iff (h : d.nodeId ≠ c.nodeId) : Committable (m.acceptCommitment d).2 c ↔
    Committable m c ∧ ¬ (d.commitmentHex = c.commitmentHex ∧ Committable m d) := by
  rcases acceptCommitment_cases m d with ⟨hd, ha⟩ | ⟨hd, e, ha⟩
  · rw [ha]
    constructor
    · intro hc
      have hfresh := hc.fresh
      have hunseen := hc.unseen
      rw [mem_addCommitment, not_or] at hfresh
      simp only [addCommitment, Finset.mem_insert, not_or] at hunseen
      refine ⟨⟨hc.unproposed, hc.round, hc.node, hc.intentRound, hc.intentNode, hfresh.2, hunseen.2, hc.capability⟩, ?_⟩
      intro he
      exact hunseen.1 he.1.symm
    · rintro ⟨hc, hne⟩
      refine ⟨hc.unproposed, hc.round, hc.node, hc.intentRound, hc.intentNode, ?_, ?_, hc.capability⟩
      · rw [mem_addCommitment, not_or]
        exact ⟨h, hc.fresh⟩
      · simp only [addCommitment, Finset.mem_insert, not_or]
        exact ⟨fun he => hne ⟨he.symm, hd⟩, hc.unseen⟩
  · rw [ha]
    exact ⟨fun hc => ⟨hc, fun he => hd he.2⟩, And.left⟩

/-- Over records of other nodes: a commitment stays acceptable unless one of them carries the same text and is taken. -/
theorem committable_offered_iff {cs : List CommitmentRecord} (h : ∀ d ∈ cs, d.nodeId ≠ c.nodeId) :
    Committable (m.offered cs) c ↔ Committable m c ∧ ∀ before d, before ++ [d] <+: cs →
      d.commitmentHex = c.commitmentHex → ¬ Committable (m.offered before) d := by
  induction cs using List.reverseRecOn with
  | nil =>
    refine ⟨fun hc => ⟨hc, fun before d hp => ?_⟩, And.left⟩
    simp at hp
  | append_singleton cs e ih =>
    have ih := ih fun d hd => h d (List.mem_append_left _ hd)
    rw [offered_concat, committable_after_iff (h e (List.mem_append_right _ (List.mem_singleton.mpr rfl))), ih]
    constructor
    · rintro ⟨⟨hc, hall⟩, he⟩
      refine ⟨hc, ?_⟩
      intro before d hp hx hd
      rcases List.prefix_concat_iff.mp hp with hp | hp
      · obtain ⟨rfl, hl⟩ := List.append_inj' hp rfl
        obtain rfl := List.singleton_inj.mp hl
        exact he ⟨hx, hd⟩
      · exact hall before d hp hx hd
    · rintro ⟨hc, hall⟩
      refine ⟨⟨hc, fun before d hp => hall before d (hp.trans (List.prefix_append _ _))⟩, ?_⟩
      rintro ⟨hx, hd⟩
      exact hall cs e (List.prefix_refl _) hx hd

end RoundMachine

end VertexVeil
