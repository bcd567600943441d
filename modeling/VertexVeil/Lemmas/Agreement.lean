import VertexVeil.Lemmas.Network
import VertexVeil.Lemmas.OwnCommitments

/-!
# Helpers for `Theorems/Network.lean`: what every process of a network satisfies

A process speaks under its own node, its commitments say what the topology says of the node, and it proposes once a round at
most (`Speech`). What its log holds others said (`Sourced`). `Honours` is the invariant of a process, in every state of it; the
steps of a process keep it, so it holds of every process of every reachable network.
-/

namespace VertexVeil

open Codec Broadcast CoordinationLog RuntimeState

/-- A requester's commitment names the capability the topology requires. -/
def NamesRequired (t : TopologyConfig) (c : CommitmentRecord) : Prop :=
  ∀ n r cap, c.publicIntent = .requester n r cap →
    ∃ node ∈ t.nodes, node.role = .requester ∧ node.requiredCapability = some cap

/-! ## What a node says -/

/-- A message under the node's own name that proposes nothing. -/
structure Plain (t : TopologyConfig) (node : NodeId) (msg : CoordinationMessage) : Prop where
  origin : msg.origin = node
  commitment : ∀ c, msg.payload = .commitment c → NamesRequired t c
  noProposal : ∀ p, msg.payload ≠ .proposal p

/-- What a node has broadcast: its own messages, with at most one proposal a round. -/
structure Speech (t : TopologyConfig) (node : NodeId) (msgs : List CoordinationMessage) : Prop where
  origin : ∀ msg ∈ msgs, msg.origin = node
  commitments : ∀ msg ∈ msgs, ∀ c, msg.payload = .commitment c → NamesRequired t c
  once : ∀ msg ∈ msgs, ∀ msg' ∈ msgs, ∀ p p', msg.payload = .proposal p → msg'.payload = .proposal p' →
    p.round = p'.round → p = p'

/-- The rounds of the proposals among messages satisfy a condition. -/
def ProposesIn (rounds : RoundId → Prop) (msgs : List CoordinationMessage) : Prop :=
  ∀ msg ∈ msgs, ∀ p, msg.payload = .proposal p → rounds p.round

section

variable {t : TopologyConfig} {node : NodeId} {msgs new : List CoordinationMessage}

theorem Speech.append (h : Speech t node msgs) (hnew : ∀ msg ∈ new, Plain t node msg) : Speech t node (msgs ++ new) := by
  refine ⟨fun msg hm => ?_, fun msg hm => ?_, fun msg hm msg' hm' p p' hp hp' => ?_⟩
  · rcases List.mem_append.mp hm with hm | hm
    · exact h.origin msg hm
    · exact (hnew msg hm).origin
  · rcases List.mem_append.mp hm with hm | hm
    · exact h.commitments msg hm
    · exact (hnew msg hm).commitment
  · rcases List.mem_append.mp hm with hm | hm
    · rcases List.mem_append.mp hm' with hm' | hm'
      · exact h.once msg hm msg' hm' p p' hp hp'
      · exact absurd hp' ((hnew msg' hm').noProposal p')
    · exact absurd hp ((hnew msg hm).noProposal p)

theorem ProposesIn.append {rounds : RoundId → Prop} (h : ProposesIn rounds msgs) (hnew : ∀ msg ∈ new, Plain t node msg) :
    ProposesIn rounds (msgs ++ new) := by
  intro msg hm p hp
  rcases List.mem_append.mp hm with hm | hm
  · exact h msg hm p hp
  · exact absurd hp ((hnew msg hm).noProposal p)

/-- A proposal of a round in which none was broadcast. -/
theorem Speech.propose (h : Speech t node msgs) {q : ProposalRecord} (hfresh : ProposesIn (· < q.round) msgs) :
    Speech t node (msgs ++ [{ origin := node, payload := .proposal q }]) := by
  have hold : ∀ msg ∈ msgs, ∀ p, msg.payload = .proposal p → p.round ≠ q.round := fun msg hm p hp =>
    UInt64.ne_of_lt (hfresh msg hm p hp)
  refine ⟨fun msg hm => ?_, fun msg hm => ?_, fun msg hm msg' hm' p p' hp hp' hr => ?_⟩
  · rcases List.mem_append.mp hm with hm | hm
    · exact h.origin msg hm
    · rw [List.mem_singleton.mp hm]
  · rcases List.mem_append.mp hm with hm | hm
    · exact h.commitments msg hm
    · intro c hc
      rw [List.mem_singleton.mp hm] at hc
      simp at hc
  · rcases List.mem_append.mp hm with hm | hm
    · rcases List.mem_append.mp hm' with hm' | hm'
      · exact h.once msg hm msg' hm' p p' hp hp' hr
      · rw [List.mem_singleton.mp hm', MessagePayload.proposal.injEq] at hp'
        exact absurd (hr.trans (congrArg ProposalRecord.round hp'.symm)) (hold msg hm p hp)
    · rw [List.mem_singleton.mp hm, MessagePayload.proposal.injEq] at hp
      rcases List.mem_append.mp hm' with hm' | hm'
      · exact absurd (hr.symm.trans (congrArg ProposalRecord.round hp.symm)) (hold msg' hm' p' hp')
      · rw [List.mem_singleton.mp hm', MessagePayload.proposal.injEq] at hp'
        exact hp.symm.trans hp'

end

/-! ## What a process holds -/

/-- The state of a node's process in a round: its own agents, and a log that holds what others said. -/
structure Sourced (Γ : Crypto) (t : TopologyConfig) (said : NodeId → List CoordinationMessage) (node : NodeId)
    (round : RoundId) (s : RuntimeState) : Prop where
  ledger : Ledger.At t round s
  own : ∀ id ∈ s.agents, id = node
  agents : AgentsOf Γ t s.agents
  remembered : ∀ k c, s.historicalCommitments k = some c → NamesRequired t c
  commitments : ∀ c ∈ s.log.commitments, NamesRequired t c
  proposals : ∀ p ∈ s.log.proposals, { origin := p.proposer, payload := .proposal p } ∈ said p.proposer

namespace Sourced

variable {Γ : Crypto} {t : TopologyConfig} {said said' : NodeId → List CoordinationMessage} {node : NodeId} {round : RoundId}
  {s s' : RuntimeState}

theorem mono (hle : ∀ j, said j <+: said' j) (h : Sourced Γ t said node round s) : Sourced Γ t said' node round s :=
  ⟨h.ledger, h.own, h.agents, h.remembered, h.commitments, fun p hp => (hle _).subset (h.proposals p hp)⟩

theorem rejects (h : Sourced Γ t said node round s) (hr : Rejects round s s') : Sourced Γ t said node round s' := by
  have hl := h.ledger.rejects hr
  obtain ⟨_, _, _, -, rfl⟩ := hr
  exact ⟨hl, h.own, h.agents, h.remembered, h.commitments, h.proposals⟩

theorem handleCommitment (h : Sourced Γ t said node round s) {msg : CoordinationMessage}
    (hmsg : ∀ c, msg.payload = .commitment c → NamesRequired t c) :
    Sourced Γ t said node round (handleCommitment round s msg) := by
  have hl := h.ledger.handleCommitment msg
  rcases handleCommitment_cases round s msg with ⟨c, hpay, -, hc, ⟨-, he⟩ | ⟨hk, -⟩⟩ | hr
  · have hlog := h.ledger.1.log_takeCommitment hc
    rw [he] at hl ⊢
    refine ⟨hl, h.own, h.agents, h.remembered, fun d hd => ?_, fun p hp => ?_⟩
    · rw [hlog] at hd
      rcases List.mem_append.mp hd with hd | hd
      · exact h.commitments d hd
      · exact List.mem_singleton.mp hd ▸ hmsg c hpay
    · rw [hlog] at hp
      exact h.proposals p hp
  · exact absurd hk (h.ledger.1.key_notMem hc)
  · exact h.rejects hr

theorem handleProposal (ht : t.WellFormed Γ) (h : Sourced Γ t said node round s) {msg : CoordinationMessage}
    (hmsg : msg ∈ said msg.origin) : Sourced Γ t said node round (handleProposal round s msg) := by
  have hl := h.ledger.handleProposal ht msg
  rcases handleProposal_cases round s msg with ⟨p, hpay, horigin, -, he⟩ | hr
  · rw [he] at hl ⊢
    refine ⟨hl, h.own, h.agents, h.remembered, h.commitments, ?_⟩
    intro q hq
    rcases List.mem_append.mp hq with hq | hq
    · exact h.proposals q hq
    · rw [List.mem_singleton.mp hq, ← horigin, ← hpay]
      exact hmsg
  · exact h.rejects hr

theorem handleProof (h : Sourced Γ t said node round s) (msg : CoordinationMessage) :
    Sourced Γ t said node round (handleProof round s msg) := by
  have hl := h.ledger.handleProof msg
  rcases handleProof_cases round s msg with ⟨a, c, -, -, -, -, -, he⟩ | hr
  · rw [he] at hl ⊢
    exact ⟨hl, h.own, h.agents, h.remembered, h.commitments, h.proposals⟩
  · exact h.rejects hr

theorem handleReceipt (h : Sourced Γ t said node round s) (msg : CoordinationMessage) :
    Sourced Γ t said node round (handleReceipt round s msg) := by
  have hl := h.ledger.handleReceipt msg
  rcases handleReceipt_cases round s msg with ⟨r, -, -, -, -, he⟩ | ⟨-, hr⟩
  · rw [he] at hl ⊢
    exact ⟨hl, h.own, h.agents, h.remembered, h.commitments, h.proposals⟩
  · exact h.rejects hr

/-- A drain loop keeps it, whatever a node says. -/
theorem handle (ht : t.WellFormed Γ) (h : Sourced Γ t said node round s) {msg : CoordinationMessage} {j : NodeId}
    (hj : Speech t j (said j)) (hmsg : msg ∈ said j) (stage : Stage) :
    Sourced Γ t said node round (stage.handle round s msg) := by
  have horigin : msg ∈ said msg.origin := (hj.origin msg hmsg).symm ▸ hmsg
  cases stage with
  | commitments => exact h.handleCommitment (hj.commitments msg hmsg)
  | proposal => exact h.handleProposal ht horigin
  | proofs p => exact h.handleProof msg
  | receipts p => exact h.handleReceipt msg

theorem remember (h : Sourced Γ t said node round s) {n : NodeId} {r : RoundId} {c : CommitmentRecord}
    (hc : NamesRequired t c) : Sourced Γ t said node round (s.remember n r c) := by
  refine ⟨⟨h.ledger.1.remember _ _ _, h.ledger.2⟩, h.own, h.agents, fun k d hd => ?_, h.commitments, h.proposals⟩
  by_cases hk : k = (n, r)
  · subst hk
    simp only [RuntimeState.remember, Function.update_self, Option.some.injEq] at hd
    exact hd ▸ hc
  · simp only [RuntimeState.remember, Function.update_of_ne hk] at hd
    exact h.remembered k d hd

/-- The step to the next round. -/
theorem advance (h : Sourced Γ t said node round s) {m' : RoundMachine}
    (ha : s.roundMachine.advanceFallback = some (.ok (), m')) :
    Sourced Γ t said node (round + 1) { s with roundMachine := m' } ∧ round < round + 1 := by
  obtain ⟨hm, hnext⟩ := RoundMachine.advanceFallback_ok ha
  rw [h.ledger.2] at hnext
  refine ⟨⟨⟨h.ledger.1.advance ha, ?_⟩, h.own, h.agents, h.remembered, h.commitments, h.proposals⟩, ?_⟩
  · change m'.current = _
    rw [hm, ← h.ledger.2]
    rfl
  · rw [UInt64.lt_iff_toNat_lt, hnext]
    exact Nat.lt_succ_self _

/-! ## What a process broadcasts -/

theorem namesRequired_build (h : Sourced Γ t said node round s) {n : NodeId} {r : RoundId}
    {c : CommitmentRecord} (hc : s.buildCommitment Γ n r = .ok c) : NamesRequired t c := by
  have htopo := h.ledger.1.topology
  have hb := builds_of_ok hc
  obtain ⟨m, hm, hrole⟩ := hb.role (htopo ▸ h.agents)
  intro n' r' cap hi
  cases hb with
  | requester hagent hnode _ _ _ hcap =>
    rw [hnode, Option.some.injEq] at hm
    subst hm
    rw [PublicIntent.requester.injEq] at hi
    obtain ⟨-, -, rfl⟩ := hi
    exact ⟨_, htopo ▸ (TopologyConfig.findNode_some hnode).1, hrole.symm, hcap⟩
  | provider hagent hnode _ _ _ => simp at hi

theorem plain_replays (h : Sourced Γ t said node round s) {msg : CoordinationMessage} (hmsg : msg ∈ s.replays node round) :
    Plain t node msg := by
  obtain ⟨e, he, hmap⟩ := List.mem_filterMap.mp hmsg
  split at hmap
  · rename_i n r fromRound
    obtain ⟨prior, hprior, rfl⟩ := Option.map_eq_some_iff.mp hmap
    refine ⟨origin_replays hmsg, fun c hc => ?_, fun p hp => by simp at hp⟩
    rw [MessagePayload.commitment.injEq] at hc
    subst hc
    intro n' r' cap hi
    cases hpi : prior.publicIntent with
    | requester n₀ r₀ cap₀ =>
      simp only [updateIntentRound, hpi, PublicIntent.requester.injEq] at hi
      exact hi.2.2 ▸ h.remembered _ _ hprior n₀ r₀ cap₀ hpi
    | provider n₀ r₀ claims => simp [updateIntentRound, hpi] at hi
  · simp at hmap

theorem plain_doubleCommits (h : Sourced Γ t said node round s) {msg : CoordinationMessage}
    (hmsg : msg ∈ s.doubleCommits node round) : Plain t node msg := by
  obtain ⟨e, he, hmap⟩ := List.mem_filterMap.mp hmsg
  split at hmap
  · rename_i n r
    obtain ⟨rec, hrec, rfl⟩ := Option.map_eq_some_iff.mp hmap
    refine ⟨origin_doubleCommits hmsg, fun c hc => ?_, fun p hp => by simp at hp⟩
    rw [MessagePayload.commitment.injEq] at hc
    exact hc ▸ h.remembered _ _ hrec
  · simp at hmap

theorem plain_broadcastCommitment (h : Sourced Γ t said node round s) {msg : CoordinationMessage}
    (hmsg : msg ∈ (s.broadcastCommitment Γ round node).1) : Plain t node msg := by
  unfold broadcastCommitment at hmsg
  split at hmsg
  · exact h.plain_replays hmsg
  · split at hmsg
    · exact h.plain_replays hmsg
    · rename_i c hc
      have hnames := h.namesRequired_build hc
      rcases List.mem_append.mp hmsg with hmsg | hmsg
      · rcases List.mem_append.mp hmsg with hmsg | hmsg
        · exact h.plain_replays hmsg
        · rw [List.mem_singleton.mp hmsg]
          refine ⟨rfl, fun d hd => ?_, fun p hp => by simp at hp⟩
          rw [MessagePayload.commitment.injEq] at hd
          exact hd ▸ hnames
      · exact (h.remember hnames).plain_doubleCommits hmsg

theorem broadcastCommitment_ok (h : Sourced Γ t said node round s) {n : NodeId}
    (hb : (s.broadcastCommitment Γ round n).2 = .ok s') : Sourced Γ t said node round s' := by
  rcases broadcastCommitment_cases hb with ⟨-, rfl⟩ | ⟨-, c, hc, rfl⟩
  · exact h.rejects ⟨_, _, _, by simp [ProperLabels], rfl⟩
  · exact h.remember (h.namesRequired_build hc)

/-- The commitment phase: plain messages, and the state stays sourced. -/
theorem broadcastCommitmentsOf (h : Sourced Γ t said node round s) {nodes : List NodeId}
    (hnodes : ∀ n ∈ nodes, n = node) : (∀ msg ∈ (s.broadcastCommitmentsOf Γ round nodes).1, Plain t node msg) ∧
      ∀ s', (s.broadcastCommitmentsOf Γ round nodes).2 = .ok s' → Sourced Γ t said node round s' := by
  induction nodes generalizing s with
  | nil =>
    refine ⟨fun msg hmsg => absurd hmsg List.not_mem_nil, ?_⟩
    intro s' hs'
    exact Except.ok.inj hs' ▸ h
  | cons n nodes ih =>
    obtain rfl := hnodes n List.mem_cons_self
    have hn : ∀ n' ∈ nodes, n' = n := fun n' hn' => hnodes n' (List.mem_cons_of_mem _ hn')
    simp only [RuntimeState.broadcastCommitmentsOf, Emit.andThen]
    split
    · rename_i s₁ hs₁
      obtain ⟨hplain, hok⟩ := ih (h.broadcastCommitment_ok hs₁) hn
      refine ⟨fun msg hmsg => ?_, hok⟩
      rcases List.mem_append.mp hmsg with hmsg | hmsg
      · exact h.plain_broadcastCommitment hmsg
      · exact hplain msg hmsg
    · exact ⟨fun msg hmsg => h.plain_broadcastCommitment hmsg, fun s' hs' => by simp at hs'⟩

theorem broadcastCommitments (h : Sourced Γ t said node round s) :
    (∀ msg ∈ (s.broadcastCommitments Γ round).1, Plain t node msg) ∧
      ∀ s', (s.broadcastCommitments Γ round).2 = .ok s' → Sourced Γ t said node round s' :=
  h.broadcastCommitmentsOf (fun n hn => h.own n (Std.TreeMap.mem_keys.mp hn))

/-- The proposal phase: nothing, or the node's own proposal of the round. -/
theorem broadcastProposal (h : Sourced Γ t said node round s) : (s.broadcastProposal round).1 = [] ∨
    ∃ q : ProposalRecord, (s.broadcastProposal round).1 = [{ origin := node, payload := .proposal q }] ∧ q.round = round := by
  rcases broadcastProposal_msgs s round with he | ⟨q, hq, hmem, he⟩
  · exact Or.inl he
  · exact Or.inr ⟨q, by rw [he, h.own _ hmem], hq⟩

theorem plain_broadcastProofs (h : Sourced Γ t said node round s) {p : ProposalRecord} {msg : CoordinationMessage}
    (hmsg : msg ∈ (s.broadcastProofs Γ round p).1) : Plain t node msg := by
  obtain ⟨n, hn, a, rfl⟩ := broadcastProofs_msgs hmsg
  exact ⟨h.own _ hn, fun c hc => by simp at hc, fun p hp => by simp at hp⟩

theorem plain_broadcastReceipt (h : Sourced Γ t said node round s) {p : ProposalRecord} {msg : CoordinationMessage}
    (hmsg : msg ∈ (s.broadcastReceipt Γ round p).1) : Plain t node msg := by
  obtain ⟨n, hn, r, rfl⟩ := broadcastReceipt_msgs hmsg
  exact ⟨h.own _ hn, fun c hc => by simp at hc, fun p hp => by simp at hp⟩

end Sourced

/-! ## The invariant of a process -/

/-- The rounds in which a process may have proposed: those whose commitment phase is over. -/
def Process.MayHaveProposed : Process → RoundId → Prop
  | .ready _, _ => False
  | .draining x, round =>
    match x.stage with
    | .commitments => round < x.round
    | _ => round ≤ x.round
  | .returned _, _ => True
  | .failed _, _ => True

/-- A proposal that was logged: its proposer, whose turn it was, broadcast it, for the topology's requester and the capability
it requires. -/
structure Landed (t : TopologyConfig) (said : NodeId → List CoordinationMessage) (q : ProposalRecord) : Prop where
  proposer : t.providersStable[q.round.toNat % t.providersStable.length]? = some q.proposer
  said : { origin := q.proposer, payload := .proposal q } ∈ said q.proposer
  requester : ∃ n ∈ t.nodes, n.role = .requester ∧ n.id = q.candidateRequester ∧
    n.requiredCapability = some q.matchedCapability

/-- What a process knows, by where it is in its session. -/
def Process.Sound (Γ : Crypto) (t : TopologyConfig) (said : NodeId → List CoordinationMessage) (node : NodeId) :
    Process → Prop
  | .ready s => Sourced Γ t said node 0 s
  | .draining x => Sourced Γ t said node x.round x.state ∧
      ∀ p, x.stage = .proofs p ∨ x.stage = .receipts p → x.state.log.proposalOf x.round = some p
  | .returned out => out.finalized = true → ∃ q, out.log.proposalOf out.finalRound = some q ∧ Landed t said q
  | .failed _ => True

/-- The invariant of a process. -/
structure Honours (Γ : Crypto) (t : TopologyConfig) (said : NodeId → List CoordinationMessage) (node : NodeId)
    (p : Process) : Prop where
  speech : Speech t node (said node)
  proposes : ProposesIn p.MayHaveProposed (said node)
  sound : p.Sound Γ t said node

/-- What every node has broadcast once a node broadcast some more. -/
def saying (said : NodeId → List CoordinationMessage) (node : NodeId) (msgs : List CoordinationMessage) :
    NodeId → List CoordinationMessage :=
  Function.update said node (said node ++ msgs)

/-- A broadcasting step leads to a process that honours the invariant. -/
def Settles (Γ : Crypto) (t : TopologyConfig) (said : NodeId → List CoordinationMessage) (node : NodeId)
    (e : Emit Process) : Prop :=
  Honours Γ t (saying said node e.settle.1) node e.settle.2

section

variable {Γ : Crypto} {t : TopologyConfig} {said said' : NodeId → List CoordinationMessage} {node : NodeId} {round : RoundId}
  {s s' : RuntimeState} {msgs : List CoordinationMessage}

@[simp] theorem saying_self : saying said node msgs node = said node ++ msgs := Function.update_self ..

@[simp] theorem saying_nil : saying said node [] = said := by
  rw [saying, List.append_nil, Function.update_eq_self]

theorem saying_saying (msgs' : List CoordinationMessage) :
    saying (saying said node msgs) node msgs' = saying said node (msgs ++ msgs') := by
  rw [saying, saying_self, List.append_assoc, saying, Function.update_idem]
  rfl

theorem prefix_saying (j : NodeId) : said j <+: saying said node msgs j := by
  by_cases h : j = node
  · subst h
    rw [saying_self]
    exact List.prefix_append _ _
  · simp only [saying, Function.update_of_ne h, List.prefix_refl]

theorem Landed.mono {q : ProposalRecord} (hle : ∀ j, said j <+: said' j) (h : Landed t said q) : Landed t said' q :=
  ⟨h.proposer, (hle _).subset h.said, h.requester⟩

/-- The logged proposal of a round has landed. -/
theorem Sourced.landed (ht : t.WellFormed Γ) {q : ProposalRecord} (h : Sourced Γ t said node round s) {r : RoundId}
    (hq : s.log.proposalOf r = some q) : Landed t said q := by
  have hmem := (proposalOf_some hq).1
  obtain ⟨hsound, -⟩ := h.ledger.1.proposals q hmem
  obtain ⟨c, n, r', ⟨hc, hcn, -⟩, hi⟩ := hsound.requester
  obtain ⟨m, hm, hmid, hmrole⟩ := (h.ledger.1.sound c hc).node
  obtain ⟨m', hm', hmrole', hcap⟩ := h.commitments c hc n r' _ hi
  obtain ⟨req, -, -, -, huniq⟩ := ht.requester_unique
  have hrole : m.role = .requester := hmrole.trans (by rw [hi]; rfl)
  have he : m' = m := (huniq m' hm' hmrole').trans (huniq m hm hrole).symm
  exact ⟨hsound.proposer, h.proposals q hmem, m, hm, hrole, hmid.trans hcn, he ▸ hcap⟩

namespace Settles

theorem of_honours {p : Process} (h : Honours Γ t said node p) : Settles Γ t said node ([], .ok p) := by
  rw [Settles, Emit.settle, saying_nil]
  exact h

/-- A step that fails ends the session. -/
theorem failed {e : Fault RuntimeError} (hs : Speech t node (said node ++ msgs)) :
    Settles Γ t said node (msgs, .error e) :=
  ⟨by rw [saying_self]; exact hs, fun _ _ _ _ => trivial, trivial⟩

theorem andThen {α : Type} {x : Emit α} {f : α → Emit Process} (hs : Speech t node (said node ++ x.1))
    (h : ∀ a, x.2 = .ok a → Settles Γ t (saying said node x.1) node (f a)) : Settles Γ t said node (x.andThen f) := by
  unfold Emit.andThen
  split
  · rename_i a ha
    have hf := h a ha
    rw [Settles, saying_saying] at hf
    exact hf
  · exact failed hs

/-- Into a round, when no proposal of it was broadcast. -/
theorem beginRound (n : Nat) (fr : RoundId) (h : Sourced Γ t said node s.roundMachine.current s)
    (hs : Speech t node (said node)) (hp : ProposesIn (· < s.roundMachine.current) (said node)) :
    Settles Γ t said node (beginRound Γ n fr s) := by
  cases n with
  | zero => exact of_honours ⟨hs, fun _ _ _ _ => trivial, fun hf => absurd hf Bool.false_ne_true⟩
  | succ n =>
    obtain ⟨hplain, hok⟩ := h.broadcastCommitments
    refine andThen (hs.append hplain) (fun s' hs' => of_honours ⟨?_, ?_, ?_⟩)
    · rw [saying_self]
      exact hs.append hplain
    · rw [saying_self]
      exact hp.append hplain
    · exact ⟨(hok s' hs').mono prefix_saying, fun p hp => by simp at hp⟩

/-- Out of a round into the next. -/
theorem fallBack (n : Nat) (h : Sourced Γ t said node round s) (hs : Speech t node (said node))
    (hp : ProposesIn (· ≤ round) (said node)) : Settles Γ t said node (fallBack Γ n round s) := by
  unfold VertexVeil.fallBack
  split
  · exact failed (by rw [List.append_nil]; exact hs)
  · rename_i rt hrt
    obtain ⟨m', hm', rfl⟩ := Runtime.advanceFallback_ok hrt
    obtain ⟨hadv, hlt⟩ := h.advance hm'
    have hcur : m'.current = round + 1 := hadv.ledger.2
    refine beginRound n round ?_ hs (fun msg hmsg p hpay => ?_)
    · change Sourced Γ t said node m'.current _
      rw [hcur]
      exact hadv
    · change p.round < m'.current
      rw [hcur]
      exact UInt64.lt_of_le_of_lt (hp msg hmsg p hpay) hlt

/-- A pause of a process that honours the invariant. -/
theorem pause (ht : t.WellFormed Γ) {x : Session} (h : Honours Γ t said node (.draining x)) : Settles Γ t said node (x.pause Γ) := by
  obtain ⟨hs, hp, hx, hprop⟩ := h
  obtain ⟨s, round, n, stage⟩ := x
  cases stage with
  | commitments =>
    have hle : ProposesIn (· ≤ round) (said node) := fun msg hm p hpay => UInt64.le_of_lt (hp msg hm p hpay)
    simp only [Session.pause]
    split
    · exact failed (by rw [List.append_nil]; exact hs)
    · split
      · exact fallBack n (hx.rejects ⟨_, _, _, by simp [ProperLabels], rfl⟩) hs hle
      · have hspeech : Speech t node (said node ++ (s.broadcastProposal round).1) ∧
            ProposesIn (· ≤ round) (said node ++ (s.broadcastProposal round).1) := by
          rcases hx.broadcastProposal with he | ⟨q, he, rfl⟩
          · rw [he, List.append_nil]
            exact ⟨hs, hle⟩
          · rw [he]
            refine ⟨hs.propose hp, ?_⟩
            intro msg hm p hpay
            rcases List.mem_append.mp hm with hm | hm
            · exact hle msg hm p hpay
            · rw [List.mem_singleton.mp hm, MessagePayload.proposal.injEq] at hpay
              exact hpay ▸ UInt64.le_refl _
        refine andThen hspeech.1 ?_
        intro y hy
        obtain ⟨ok, s'⟩ := y
        rw [← saying_self] at hspeech
        rcases broadcastProposal_cases (Prod.ext rfl hy) with ⟨rfl, rfl⟩ | ⟨rfl, -, hr⟩
        · rw [if_neg (not_not.mpr rfl)]
          exact of_honours ⟨hspeech.1, hspeech.2, hx.mono prefix_saying, fun p hp => by simp at hp⟩
        · exact fallBack n ((hx.rejects hr).mono prefix_saying) hspeech.1 hspeech.2
  | proposal =>
    simp only [Session.pause]
    split
    · exact fallBack n hx hs hp
    · rename_i p hlast
      have hplain := fun msg (hm : msg ∈ (s.broadcastProofs Γ round p).1) => hx.plain_broadcastProofs hm
      refine andThen (hs.append hplain) (fun _ _ => of_honours ⟨?_, ?_, hx.mono prefix_saying, fun q hq => ?_⟩)
      · rw [saying_self]
        exact hs.append hplain
      · rw [saying_self]
        exact ProposesIn.append hp hplain
      · simp only [Stage.proofs.injEq, reduceCtorEq, or_false] at hq
        exact hq ▸ hlast
  | proofs p =>
    have hlast := hprop p (Or.inl rfl)
    simp only [Session.pause]
    split
    · have hplain := fun msg (hm : msg ∈ (s.broadcastReceipt Γ round p).1) => hx.plain_broadcastReceipt hm
      refine andThen (hs.append hplain) (fun _ _ => of_honours ⟨?_, ?_, hx.mono prefix_saying, fun q hq => ?_⟩)
      · rw [saying_self]
        exact hs.append hplain
      · rw [saying_self]
        exact ProposesIn.append hp hplain
      · simp only [Stage.receipts.injEq, reduceCtorEq, false_or] at hq
        exact hq ▸ hlast
    · exact fallBack n hx hs hp
  | receipts p =>
    have hlast := hprop p (Or.inr rfl)
    refine of_honours ⟨hs, fun _ _ _ _ => trivial, fun _ => ⟨p, ?_, hx.landed ht hlast⟩⟩
    exact hlast

end Settles

/-! ## The steps of a process -/

/-- What others say keeps the invariant. -/
theorem Honours.mono {p : Process} (hle : ∀ j, said j <+: said' j) (hown : said' node = said node)
    (h : Honours Γ t said node p) : Honours Γ t said' node p := by
  refine ⟨hown ▸ h.speech, hown ▸ h.proposes, ?_⟩
  have hsound := h.sound
  cases p with
  | ready s => exact Sourced.mono hle hsound
  | draining x => exact ⟨hsound.1.mono hle, hsound.2⟩
  | returned out =>
    intro hf
    obtain ⟨q, hq, hl⟩ := hsound hf
    exact ⟨q, hq, hl.mono hle⟩
  | failed e => trivial

/-- A message that a node said keeps the invariant. -/
theorem Honours.hear (ht : t.WellFormed Γ) {p p' : Process} {msg : CoordinationMessage} {j : NodeId} {q : Process}
    (h : Honours Γ t said node p) (hj : Honours Γ t said j q) (hmsg : msg ∈ said j)
    (hp : (protocol Γ).hear p msg = some p') : Honours Γ t said node p' := by
  cases p with
  | draining x =>
    simp only [protocol, Option.some.injEq] at hp
    subst hp
    refine ⟨h.speech, h.proposes, h.sound.1.handle ht hj.speech hmsg x.stage, ?_⟩
    intro r hr
    have hlast := h.sound.2 r hr
    have hkeep : (x.stage.handle x.round x.state msg).log.proposals = x.state.log.proposals := by
      rcases hr with hr | hr
      · rw [show x.stage = _ from hr]
        exact proposals_handleProof _ _ _
      · rw [show x.stage = _ from hr]
        exact proposals_handleReceipt _ _ _
    change (x.stage.handle x.round x.state msg).log.proposals.reverse.find? _ = some r
    rw [hkeep]
    exact hlast
  | ready s => simp [protocol] at hp
  | returned out => simp [protocol] at hp
  | failed e => simp [protocol] at hp

/-- A process's own step keeps the invariant, with what it broadcasts. -/
theorem Honours.act (ht : t.WellFormed Γ) {p p' : Process} (h : Honours Γ t said node p)
    (hp : (protocol Γ).act p = some (msgs, p')) : Honours Γ t (saying said node msgs) node p' := by
  cases p with
  | ready s =>
    simp only [protocol, Option.some.injEq] at hp
    have hcur : s.roundMachine.current = 0 := h.sound.ledger.2
    have hsound : Sourced Γ t said node 0 s := h.sound
    have hset := Settles.beginRound (Γ := Γ) s.maxRounds.toNat 0 (hcur ▸ hsound) h.speech
      (fun msg hm q hq => absurd (h.proposes msg hm q hq) id)
    rw [Settles, hp] at hset
    exact hset
  | draining x =>
    simp only [protocol, Option.some.injEq] at hp
    have hset := Settles.pause ht h
    rw [Settles, hp] at hset
    exact hset
  | returned out => simp [protocol] at hp
  | failed e => simp [protocol] at hp

end

/-- A process that boots honours the invariant. -/
theorem honours_of_boots {Γ : Crypto} {T : LoadedTopology Γ} {scenario : NodeId → Scenario} {node : NodeId} {p : Process}
    (h : Boots T scenario node p) : Honours Γ T.config (fun _ => []) node p := by
  obtain ⟨L, agent, maxRounds, rt, salt, runId, hagent, hnew, rfl⟩ := h
  obtain rfl := Runtime.new_eq_ok hnew
  refine ⟨⟨fun _ hm => absurd hm List.not_mem_nil, fun _ hm => absurd hm List.not_mem_nil,
    fun _ hm => absurd hm List.not_mem_nil⟩, fun _ hm => absurd hm List.not_mem_nil, ?_⟩
  refine ⟨⟨.initial runId 0 rfl rfl rfl, rfl⟩, fun id hid => ?_, fun id a ha => ?_, fun k c hc => ?_,
    fun c hc => absurd hc List.not_mem_nil, fun q hq => absurd hq List.not_mem_nil⟩
  · rw [Std.TreeMap.mem_iff_isSome_getElem?, Option.isSome_iff_exists] at hid
    obtain ⟨a, ha⟩ := hid
    exact (own_agent ha).1
  · obtain ⟨rfl, rfl⟩ := own_agent ha
    exact L.agentsOf _ _ hagent
  · simp [RuntimeState.initial, Runtime.withLog, Runtime.withRunSalt] at hc

/-- Every process of a reachable network honours the invariant. -/
theorem network_honours {Γ : Crypto} (T : LoadedTopology Γ) {scenario : NodeId → Scenario}
    {net : Net NodeId Process CoordinationMessage} (h : (network T scenario).Reachable net) {node : NodeId} {p : Process}
    (hp : net.procs node = some p) : Honours Γ T.config net.sent node p := by
  refine pointwise (L := Honours Γ T.config) (fun _ _ _ _ hle hown hh => hh.mono hle hown) (fun _ _ => honours_of_boots)
    (fun _ _ _ _ _ hh hj hs => ?_) (fun _ _ _ _ _ hh hs => hh.act T.wellFormed hs) h hp
  obtain ⟨j, q, hq, hm⟩ := hj
  exact hh.hear T.wellFormed hq hm hs

/-- A proposal that landed is a match for the requester of the topology and the capability it requires. -/
theorem Landed.matched {Γ : Crypto} {t : TopologyConfig} (ht : t.WellFormed Γ) {said : NodeId → List CoordinationMessage}
    {q : ProposalRecord} (h : Landed t said q) :
    ∃ n, t.requester = some n ∧ q.candidateRequester = n.id ∧ n.requiredCapability = some q.matchedCapability := by
  obtain ⟨m, hm, hrole, hid, hcap⟩ := h.requester
  obtain ⟨n, hn, -, -, huniq⟩ := ht.requester_unique
  obtain rfl := huniq m hm hrole
  exact ⟨m, hn, hid.symm, hcap⟩

/-- The proposals of a round that landed are one. -/
theorem landed_unique {Γ : Crypto} {T : LoadedTopology Γ} {scenario : NodeId → Scenario}
    {net : Net NodeId Process CoordinationMessage} (h : (network T scenario).Reachable net) {q q' : ProposalRecord}
    (hq : Landed T.config net.sent q) (hq' : Landed T.config net.sent q') (hround : q.round = q'.round) : q = q' := by
  have hproposer : q.proposer = q'.proposer := by
    have he := hq.proposer
    rw [hround, hq'.proposer, Option.some.injEq] at he
    exact he.symm
  have hsaid := hq.said
  rw [hproposer] at hsaid
  -- a node with no process has said nothing, so the proposer has one, and it proposes once a round
  cases hp : net.procs q'.proposer with
  | none =>
    rw [silent h hp] at hsaid
    exact absurd hsaid List.not_mem_nil
  | some p => exact (network_honours T h hp).speech.once _ hsaid _ hq'.said q q' rfl rfl hround

end VertexVeil
