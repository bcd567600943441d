import VertexVeil.Lemmas.Ledger

/-!
# Helpers about in-process runs: the commitment phase

Where the transport delivers what was broadcast and nothing else, the commitment phase leaves the machine that `ownStep`
computes: each node that has not dropped adds its own commitment, unless its digest was seen. Replays and double commits change
nothing. No assumption on the hash is made; what follows when it has no collision is in the last section.
-/

namespace VertexVeil

open Codec

/-- The text of a commitment spells a digest. -/
def CommitmentRecord.HasDigest (c : CommitmentRecord) : Prop := ∃ d : Bytes 32, c.commitmentHex = hexEncode d.toList

namespace RuntimeState

/-! ## A node's own commitments -/

/-- The parts of a state a whole run leaves alone. -/
structure SameConfig (s s' : RuntimeState) : Prop where
  topology : s'.topology = s.topology
  agents : s'.agents = s.agents
  scenario : s'.scenario = s.scenario
  schedule : s'.invalidProofSchedule = s.invalidProofSchedule
  salt : s'.runSalt = s.runSalt

theorem SameFrame.config {s s' : RuntimeState} (h : SameFrame s s') : SameConfig s s' :=
  ⟨h.topology, h.agents, h.scenario, h.schedule, h.salt⟩

theorem SameConfig.refl (s : RuntimeState) : SameConfig s s := ⟨rfl, rfl, rfl, rfl, rfl⟩

theorem SameConfig.trans {a b c : RuntimeState} (h : SameConfig a b) (h' : SameConfig b c) : SameConfig a c :=
  ⟨h'.1.trans h.1, h'.2.trans h.2, h'.3.trans h.3, h'.4.trans h.4, h'.5.trans h.5⟩

theorem SameConfig.buildCommitment {s s' : RuntimeState} (h : SameConfig s s') (Γ : Crypto) (n : NodeId) (r : RoundId) :
    s'.buildCommitment Γ n r = s.buildCommitment Γ n r := by
  simp only [RuntimeState.buildCommitment, h.agents, h.topology, h.salt]

/-- What a built commitment is made of. -/
inductive Builds (Γ : Crypto) (s : RuntimeState) (n : NodeId) (r : RoundId) : CommitmentRecord → Prop where
  | requester {agent node i commit cap} : s.agents[n]? = some agent → s.topology.findNode n = some node →
      agent.role = .requester → agent.requester = some i →
      commitRequester Γ i (deriveTestNonce Γ n r s.runSalt) r = .ok commit → node.requiredCapability = some cap →
      Builds Γ s n r {
        nodeId := n, round := r, commitmentHex := hexEncode commit.toList
        publicIntent := .requester n r cap }
  | provider {agent node i commit} : s.agents[n]? = some agent → s.topology.findNode n = some node →
      agent.role = .provider → agent.provider = some i →
      commitProvider Γ i (deriveTestNonce Γ n r s.runSalt) r = .ok commit →
      Builds Γ s n r {
        nodeId := n, round := r, commitmentHex := hexEncode commit.toList
        publicIntent := .provider n r node.capabilityClaims }

theorem builds_of_ok {Γ : Crypto} {s : RuntimeState} {n : NodeId} {r : RoundId} {c : CommitmentRecord}
    (h : s.buildCommitment Γ n r = .ok c) : Builds Γ s n r c := by
  unfold buildCommitment at h
  split at h
  · simp at h
  · rename_i agent hagent
    dsimp only at h
    split at h
    · simp at h
    · rename_i node hnode
      split at h
      · rename_i hrole
        split at h
        · simp at h
        · rename_i i hi
          split at h
          · simp at h
          · rename_i commit hcommit
            split at h
            · simp at h
            · rename_i cap hcap
              exact Except.ok.inj h ▸ .requester hagent hnode hrole hi hcommit hcap
      · rename_i hrole
        split at h
        · simp at h
        · rename_i i hi
          split at h
          · simp at h
          · rename_i commit hcommit
            exact Except.ok.inj h ▸ .provider hagent hnode hrole hi hcommit

namespace Builds

variable {Γ : Crypto} {s : RuntimeState} {n : NodeId} {r : RoundId} {c : CommitmentRecord}

theorem nodeId (h : Builds Γ s n r c) : c.nodeId = n := by cases h <;> rfl

theorem round (h : Builds Γ s n r c) : c.round = r := by cases h <;> rfl

theorem intentNode (h : Builds Γ s n r c) : c.publicIntent.nodeId = n := by cases h <;> rfl

theorem intentRound (h : Builds Γ s n r c) : c.publicIntent.round = r := by cases h <;> rfl

theorem hasDigest (h : Builds Γ s n r c) : c.HasDigest := by cases h <;> exact ⟨_, rfl⟩

theorem mem_agents (h : Builds Γ s n r c) : n ∈ s.agents := by
  rw [Std.TreeMap.mem_iff_isSome_getElem?]
  cases h with
  | requester ha _ _ _ _ _ => rw [ha]; rfl
  | provider ha _ _ _ _ => rw [ha]; rfl

/-- The role of the intent is the node's. -/
theorem role (ha : AgentsOf Γ s.topology s.agents) (h : Builds Γ s n r c) :
    ∃ node, s.topology.findNode n = some node ∧ c.publicIntent.role = node.role := by
  cases h with
  | requester hagent hnode hrole _ _ _ =>
    obtain ⟨m, hm, hacts⟩ := ha n _ hagent
    rw [hnode, Option.some.injEq] at hm
    subst hm
    cases hacts with
    | requester i hr _ _ _ => exact ⟨_, hnode, hr.symm⟩
    | provider i hr _ _ _ => simp [AgentState.ofProvider] at hrole
  | provider hagent hnode hrole _ _ =>
    obtain ⟨m, hm, hacts⟩ := ha n _ hagent
    rw [hnode, Option.some.injEq] at hm
    subst hm
    cases hacts with
    | requester i hr _ _ _ => simp [AgentState.ofRequester] at hrole
    | provider i hr _ _ _ => exact ⟨_, hnode, hr.symm⟩

/-- The intent of a node's commitment: what the topology says of the node. -/
theorem intent (ht : s.topology.WellFormed Γ) (ha : AgentsOf Γ s.topology s.agents) {node : NodeConfig}
    (hn : node ∈ s.topology.nodes) (h : Builds Γ s node.id r c) :
    (node.role = .requester ∧ ∃ cap, node.requiredCapability = some cap ∧ c.publicIntent = .requester node.id r cap) ∨
      (node.role = .provider ∧ c.publicIntent = .provider node.id r node.capabilityClaims) := by
  obtain ⟨m, hm, hrole⟩ := h.role ha
  rw [ht.findNode_self hn, Option.some.injEq] at hm
  subst hm
  cases h with
  | requester _ hnode _ _ _ hcap =>
    rw [ht.findNode_self hn, Option.some.injEq] at hnode
    subst hnode
    exact Or.inl ⟨hrole.symm, _, hcap, rfl⟩
  | provider _ hnode _ _ _ =>
    rw [ht.findNode_self hn, Option.some.injEq] at hnode
    subst hnode
    exact Or.inr ⟨hrole.symm, rfl⟩

/-- The commitment of a requester's agent binds its private intent. -/
theorem bindsRequester {i : PrivateRequesterIntent} (hi : s.agents[n]? = some (.ofRequester i)) (h : Builds Γ s n r c) :
    ∃ d, c.commitmentHex = hexEncode d.toList ∧ commitRequester Γ i (deriveTestNonce Γ n r s.runSalt) r = .ok d := by
  cases h with
  | requester ha _ _ hreq hcommit _ =>
    rw [hi, Option.some.injEq] at ha
    rw [← ha, AgentState.ofRequester, Option.some.injEq] at hreq
    exact ⟨_, rfl, hreq ▸ hcommit⟩
  | provider ha _ hrole _ _ =>
    rw [hi, Option.some.injEq] at ha
    rw [← ha] at hrole
    simp [AgentState.ofRequester] at hrole

/-- The commitment of a provider's agent binds its private intent. -/
theorem bindsProvider {i : PrivateProviderIntent} (hi : s.agents[n]? = some (.ofProvider i)) (h : Builds Γ s n r c) :
    ∃ d, c.commitmentHex = hexEncode d.toList ∧ commitProvider Γ i (deriveTestNonce Γ n r s.runSalt) r = .ok d := by
  cases h with
  | requester ha _ hrole _ _ _ =>
    rw [hi, Option.some.injEq] at ha
    rw [← ha] at hrole
    simp [AgentState.ofProvider] at hrole
  | provider ha _ _ hprov hcommit =>
    rw [hi, Option.some.injEq] at ha
    rw [← ha, AgentState.ofProvider, Option.some.injEq] at hprov
    exact ⟨_, rfl, hprov ▸ hcommit⟩

/-- The requester's intent names a capability. -/
theorem capability (ht : s.topology.WellFormed Γ) (ha : AgentsOf Γ s.topology s.agents) (h : Builds Γ s n r c) :
    RoundMachine.lacksRequiredCapability c.publicIntent = false := by
  obtain ⟨node, hfind, hrole⟩ := h.role ha
  cases h with
  | requester _ hnode _ _ _ hcap =>
    rw [hnode, Option.some.injEq] at hfind
    subst hfind
    obtain ⟨tag, -, htag, hne⟩ := ht.required _ (TopologyConfig.findNode_some hnode).1 hrole.symm
    rw [hcap, Option.some.injEq] at htag
    simpa [RoundMachine.lacksRequiredCapability, htag] using hne
  | provider _ _ _ _ _ => rfl

end Builds

/-- A node's own commitment for a round in which it has not dropped. -/
def Own (Γ : Crypto) (s : RuntimeState) (n : NodeId) (r : RoundId) (c : CommitmentRecord) : Prop :=
  s.scenario.hasDropped n r = false ∧ s.buildCommitment Γ n r = .ok c

variable {Γ : Crypto} {t : TopologyConfig} {s₀ : RuntimeState} {round : RoundId}

theorem Own.builds {n : NodeId} {r : RoundId} {c : CommitmentRecord} (h : Own Γ s₀ n r c) : Builds Γ s₀ n r c :=
  builds_of_ok h.2

theorem Own.unique {n : NodeId} {r : RoundId} {c d : CommitmentRecord} (h : Own Γ s₀ n r c) (h' : Own Γ s₀ n r d) : c = d :=
  Except.ok.inj (h.2.symm.trans h'.2)

/-- A node's own commitment passes the checks of a machine that has neither the node nor the digest. -/
theorem Own.committable (ht : s₀.topology.WellFormed Γ) (ha : AgentsOf Γ s₀.topology s₀.agents) {m : RoundMachine}
    {n : NodeId} {c : CommitmentRecord} (h : Own Γ s₀ n m.current c) (htopo : m.topology = s₀.topology)
    (hp : m.proposal = none) (hfresh : n ∉ m.commitments) (hseen : c.commitmentHex ∉ m.historyHex) :
    RoundMachine.Committable m c where
  unproposed := hp
  round := h.builds.round
  node := by
    rw [h.builds.nodeId, htopo]
    exact h.builds.role ha
  intentRound := h.builds.intentRound
  intentNode := h.builds.intentNode.trans h.builds.nodeId.symm
  fresh := h.builds.nodeId.symm ▸ hfresh
  unseen := hseen
  capability := h.builds.capability ht ha

/-! ## One node's messages -/

/-- What a node adds to the machine in the commitment phase. -/
def ownStep (Γ : Crypto) (s₀ : RuntimeState) (round : RoundId) (m : RoundMachine) (n : NodeId) : RoundMachine :=
  if s₀.scenario.hasDropped n round then m
  else match s₀.buildCommitment Γ n round with
    | .error _ => m
    | .ok c => if c.commitmentHex ∈ m.historyHex then m else m.addCommitment c

theorem ownStep_dropped {m : RoundMachine} {n : NodeId} (h : s₀.scenario.hasDropped n round = true) :
    ownStep Γ s₀ round m n = m := if_pos h

theorem ownStep_own {m : RoundMachine} {n : NodeId} {c : CommitmentRecord} (h : Own Γ s₀ n round c) :
    ownStep Γ s₀ round m n = if c.commitmentHex ∈ m.historyHex then m else m.addCommitment c := by
  simp only [ownStep, h.1, h.2, Bool.false_eq_true, if_false]

/-- Commitments whose digest was seen change nothing. -/
theorem foldl_seen (batch : List CoordinationMessage) {x : RuntimeState}
    (h : ∀ msg ∈ batch, ∀ c, msg.payload = .commitment c → c.commitmentHex ∈ x.roundMachine.historyHex) :
    (batch.foldl (handleCommitment round) x).roundMachine = x.roundMachine := by
  refine List.foldlRecOn (motive := fun (x' : RuntimeState) => x'.roundMachine = x.roundMachine) _ _ rfl
    (fun x' hx' msg hmsg => ?_)
  rcases handleCommitment_cases round x' msg with ⟨c, hpay, -, hc, -⟩ | ⟨_, _, _, -, hr⟩
  · exact absurd (h msg hmsg c hpay) (hx' ▸ hc.unseen)
  · rw [hr]
    exact hx'

/-- A node's own commitment is added unless its digest was seen. -/
theorem handle_own (ht : s₀.topology.WellFormed Γ) (ha : AgentsOf Γ s₀.topology s₀.agents) {x : RuntimeState}
    (hx : Ledger.At s₀.topology round x) (hp : x.roundMachine.proposal = none) {n : NodeId} {c : CommitmentRecord}
    (h : Own Γ s₀ n round c) (hfresh : n ∉ x.roundMachine.commitments) :
    (handleCommitment round x { origin := n, payload := .commitment c }).roundMachine =
      if c.commitmentHex ∈ x.roundMachine.historyHex then x.roundMachine else x.roundMachine.addCommitment c := by
  obtain ⟨hl, rfl⟩ := hx
  split
  · rename_i hseen
    exact foldl_seen [{ origin := n, payload := .commitment c }] (fun msg hmsg d hd => by
      rw [List.mem_singleton.mp hmsg, MessagePayload.commitment.injEq] at hd
      exact hd ▸ hseen)
  · rename_i hseen
    have hc := h.committable ht ha hl.machine.topology hp hfresh hseen
    rcases handleCommitment_cases x.roundMachine.current x { origin := n, payload := .commitment c } with
      ⟨d, hd, -, -, ⟨-, he⟩ | ⟨-, he⟩⟩ | ⟨_, _, _, -, -⟩
    · rw [MessagePayload.commitment.injEq] at hd
      rw [he, hd]
      rfl
    · rw [MessagePayload.commitment.injEq] at hd
      rw [he, hd]
      rfl
    · simp only [handleCommitment, h.builds.nodeId, ne_eq, not_true_eq_false, if_false,
        RoundMachine.acceptCommitment_of_committable hc]
      split <;> rfl

/-- Every own commitment of an earlier round was seen. -/
def SeenBefore (Γ : Crypto) (s₀ : RuntimeState) (round : RoundId) (m : RoundMachine) : Prop :=
  ∀ n r c, r < round → Own Γ s₀ n r c → c.commitmentHex ∈ m.historyHex

theorem historyHex_ownStep {m : RoundMachine} {n : NodeId} {x : Text} (h : x ∈ m.historyHex) :
    x ∈ (ownStep Γ s₀ round m n).historyHex := by
  unfold ownStep
  split
  · exact h
  · split
    · exact h
    · split
      · exact h
      · exact Finset.mem_insert_of_mem h

/-- After its step a node's own commitment was seen. -/
theorem seen_ownStep {m : RoundMachine} {n : NodeId} {c : CommitmentRecord} (h : Own Γ s₀ n round c) :
    c.commitmentHex ∈ (ownStep Γ s₀ round m n).historyHex := by
  rw [ownStep_own h]
  split
  · assumption
  · exact Finset.mem_insert_self _ _

theorem proposal_ownStep (m : RoundMachine) (n : NodeId) : (ownStep Γ s₀ round m n).proposal = m.proposal := by
  unfold ownStep
  split
  · rfl
  · split
    · rfl
    · split <;> rfl

/-- The step of a node adds at most its own commitment. -/
theorem getElem?_ownStep (Γ : Crypto) (s₀ : RuntimeState) (round : RoundId) (m : RoundMachine) (n k : NodeId) :
    (ownStep Γ s₀ round m n).commitments[k]? = m.commitments[k]? ∨
      n = k ∧ ∃ c, Own Γ s₀ n round c ∧ c.commitmentHex ∉ m.historyHex ∧
        (ownStep Γ s₀ round m n).commitments[k]? = some c := by
  by_cases hd : s₀.scenario.hasDropped n round = true
  · rw [ownStep_dropped hd]
    exact Or.inl rfl
  · cases hb : s₀.buildCommitment Γ n round with
    | error e => exact Or.inl (by simp only [ownStep, hb]; split <;> rfl)
    | ok c =>
      have hown : Own Γ s₀ n round c := ⟨by simpa using hd, hb⟩
      rw [ownStep_own hown]
      split
      · exact Or.inl rfl
      · rename_i hseen
        rw [RoundMachine.getElem?_addCommitment, hown.builds.nodeId]
        split
        · rename_i hk
          exact Or.inr ⟨hk, c, hown, hseen, rfl⟩
        · exact Or.inl rfl

theorem remember_self (s : RuntimeState) (n : NodeId) (r : RoundId) (c : CommitmentRecord) :
    (s.remember n r c).historicalCommitments (n, r) = some c := Function.update_self ..

theorem remember_of_ne (s : RuntimeState) {n : NodeId} {r : RoundId} (c : CommitmentRecord) {k : NodeId × RoundId}
    (h : k ≠ (n, r)) : (s.remember n r c).historicalCommitments k = s.historicalCommitments k := Function.update_of_ne h ..

/-- What the runtime remembers before a node broadcasts in a round: own commitments of earlier rounds. -/
def RemembersOwn (Γ : Crypto) (s₀ : RuntimeState) (round : RoundId) (s : RuntimeState) (n : NodeId) : Prop :=
  ∀ r c, s.historicalCommitments (n, r) = some c → r < round ∧ Own Γ s₀ n r c

/-- The messages of one node: replays, which were seen, then its own commitment, then double commits, which were seen by
then. -/
theorem drain_node (ht : s₀.topology.WellFormed Γ) (ha : AgentsOf Γ s₀.topology s₀.agents) {s s' x : RuntimeState}
    {n : NodeId} (hconf : SameConfig s₀ s) (hrem : RemembersOwn Γ s₀ round s n)
    (hb : (s.broadcastCommitment Γ round n).2 = .ok s') (hx : Ledger.At s₀.topology round x)
    (hp : x.roundMachine.proposal = none) (hfresh : n ∉ x.roundMachine.commitments)
    (hseen : SeenBefore Γ s₀ round x.roundMachine) :
    ((s.broadcastCommitment Γ round n).1.foldl (handleCommitment round) x).roundMachine =
      ownStep Γ s₀ round x.roundMachine n := by
  have hreplays : ∀ msg ∈ s.replays n round, ∀ c, msg.payload = .commitment c →
      c.commitmentHex ∈ x.roundMachine.historyHex := by
    intro msg hmsg c hpay
    obtain ⟨e, he, hmap⟩ := List.mem_filterMap.mp hmsg
    split at hmap
    · rename_i node r₀ fromRound
      obtain ⟨prior, hprior, rfl⟩ := Option.map_eq_some_iff.mp hmap
      rw [MessagePayload.commitment.injEq] at hpay
      have hnode : node = n := by
        have := (List.mem_filter.mp he).2
        simp only [ScenarioEvent.targets, decide_eq_true_eq] at this
        exact this.1
      rw [hnode] at hprior
      obtain ⟨hlt, hown⟩ := hrem fromRound prior hprior
      rw [← hpay]
      exact hseen n fromRound prior hlt hown
    · simp at hmap
  by_cases hd : s₀.scenario.hasDropped n round = true
  · have he : s.broadcastCommitment Γ round n =
        (s.replays n round, .ok (s.reject round n "commitment" "node_dropped")) := if_pos (hconf.scenario ▸ hd)
    rw [he, ownStep_dropped hd]
    exact foldl_seen _ hreplays
  · rcases broadcastCommitment_cases hb with ⟨hd', -⟩ | ⟨hd', c, hc, rfl⟩
    · exact absurd (hconf.scenario ▸ hd') hd
    · have hown : Own Γ s₀ n round c := ⟨hconf.scenario ▸ hd', (hconf.buildCommitment Γ n round).symm.trans hc⟩
      have he : (s.broadcastCommitment Γ round n).1 = s.replays n round ++ [{ origin := n, payload := .commitment c }] ++
          (s.remember n round c).doubleCommits n round := by
        simp only [broadcastCommitment, hd', hc, Bool.false_eq_true, if_false]
      obtain ⟨y, hy⟩ : ∃ y, y = (s.replays n round).foldl (handleCommitment round) x := ⟨_, rfl⟩
      have hmy : y.roundMachine = x.roundMachine := hy ▸ foldl_seen _ hreplays
      have hyat : Ledger.At s₀.topology round y :=
        hy ▸ List.foldlRecOn _ _ hx (fun _ hP msg _ => hP.handleCommitment msg)
      obtain ⟨z, hz⟩ : ∃ z, z = handleCommitment round y { origin := n, payload := .commitment c } := ⟨_, rfl⟩
      have hmz : z.roundMachine = ownStep Γ s₀ round x.roundMachine n := by
        rw [hz, handle_own ht ha hyat (hmy ▸ hp) hown (hmy ▸ hfresh), hmy, ownStep_own hown]
      rw [he, List.foldl_append, List.foldl_append, ← hy, List.foldl_cons, List.foldl_nil, ← hz, ← hmz]
      refine foldl_seen _ ?_
      intro msg hmsg d hpay
      obtain ⟨e, he', hmap⟩ := List.mem_filterMap.mp hmsg
      split at hmap
      · rename_i node r₀
        obtain ⟨rec, hrec, rfl⟩ := Option.map_eq_some_iff.mp hmap
        rw [MessagePayload.commitment.injEq] at hpay
        have htarget := (List.mem_filter.mp he').2
        simp only [ScenarioEvent.targets, decide_eq_true_eq] at htarget
        rw [htarget.1, htarget.2, remember_self, Option.some.injEq] at hrec
        rw [← hpay, ← hrec, hmz]
        exact seen_ownStep hown
      · simp at hmap

/-- The commitment broadcast of a node leaves the configuration alone. -/
theorem SameConfig.broadcastCommitment {s s' : RuntimeState} {n : NodeId} (h : SameConfig s₀ s)
    (hb : (s.broadcastCommitment Γ round n).2 = .ok s') : SameConfig s₀ s' := by
  rcases broadcastCommitment_cases hb with ⟨-, rfl⟩ | ⟨-, c, -, rfl⟩
  · exact ⟨h.1, h.2, h.3, h.4, h.5⟩
  · exact ⟨h.1, h.2, h.3, h.4, h.5⟩

/-- The commitment broadcast of a node changes nothing of what is remembered of others, or of other rounds. -/
theorem historical_broadcastCommitment {s s' : RuntimeState} {n : NodeId} (hb : (s.broadcastCommitment Γ round n).2 = .ok s')
    {k : NodeId × RoundId} (hk : k ≠ (n, round)) : s'.historicalCommitments k = s.historicalCommitments k := by
  rcases broadcastCommitment_cases hb with ⟨-, rfl⟩ | ⟨-, c, -, rfl⟩
  · rfl
  · exact remember_of_ne _ _ hk

/-- The step of a node leaves the others where they are. -/
theorem notMem_ownStep {m : RoundMachine} {n k : NodeId} (hne : n ≠ k) (h : k ∉ m.commitments) :
    k ∉ (ownStep Γ s₀ round m n).commitments := by
  rw [Std.TreeMap.mem_iff_isSome_getElem?]
  rcases getElem?_ownStep Γ s₀ round m n k with he | ⟨hnk, -⟩
  · rw [he, ← Std.TreeMap.mem_iff_isSome_getElem?]
    exact h
  · exact absurd hnk hne

/-- The messages of several nodes: one step a node. -/
theorem drain_nodes (ht : s₀.topology.WellFormed Γ) (ha : AgentsOf Γ s₀.topology s₀.agents) {nodes : List NodeId}
    (hnd : nodes.Nodup) {s s' x : RuntimeState} {msgs : List CoordinationMessage} (hconf : SameConfig s₀ s)
    (hrem : ∀ n ∈ nodes, RemembersOwn Γ s₀ round s n) (hb : s.broadcastCommitmentsOf Γ round nodes = (msgs, .ok s'))
    (hx : Ledger.At s₀.topology round x) (hp : x.roundMachine.proposal = none)
    (hfresh : ∀ n ∈ nodes, n ∉ x.roundMachine.commitments) (hseen : SeenBefore Γ s₀ round x.roundMachine) :
    (msgs.foldl (handleCommitment round) x).roundMachine = nodes.foldl (ownStep Γ s₀ round) x.roundMachine := by
  induction nodes generalizing s x msgs with
  | nil =>
    simp only [broadcastCommitmentsOf, Prod.mk.injEq] at hb
    rw [← hb.1]
    rfl
  | cons n nodes ih =>
    obtain ⟨hn, hnd'⟩ := List.nodup_cons.mp hnd
    obtain ⟨s₁, h₁, h₂, hmsgs⟩ := andThen_eq_ok hb
    have hstep := drain_node ht ha hconf (hrem n List.mem_cons_self) h₁ hx hp (hfresh n List.mem_cons_self) hseen
    have hat : Ledger.At s₀.topology round ((s.broadcastCommitment Γ round n).1.foldl (handleCommitment round) x) :=
      List.foldlRecOn _ _ hx (fun _ hP msg _ => hP.handleCommitment msg)
    have hne : ∀ k ∈ nodes, n ≠ k := by
      rintro k hk rfl
      exact hn hk
    rw [hmsgs, List.foldl_append, List.foldl_cons, ← hstep]
    refine ih hnd' (hconf.broadcastCommitment h₁) ?_ (Prod.ext rfl h₂) hat ?_ ?_ ?_
    · intro k hk r c hc
      rw [historical_broadcastCommitment h₁ (fun he => hne k hk (Prod.mk.inj he).1.symm)] at hc
      exact hrem k (List.mem_cons_of_mem _ hk) r c hc
    · rw [hstep, proposal_ownStep, hp]
    · intro k hk
      rw [hstep]
      exact notMem_ownStep (hne k hk) (hfresh k (List.mem_cons_of_mem _ hk))
    · intro k r c hr hc
      rw [hstep]
      exact historyHex_ownStep (hseen k r c hr hc)

/-! ## The machine the steps leave -/

section

variable {nodes : List NodeId} {m : RoundMachine}

theorem historyHex_ownSteps {x : Text} (h : x ∈ m.historyHex) : x ∈ (nodes.foldl (ownStep Γ s₀ round) m).historyHex :=
  List.foldlRecOn (motive := fun (m : RoundMachine) => x ∈ m.historyHex) _ _ h (fun _ hx _ _ => historyHex_ownStep hx)

/-- What the steps hold for a node they did not find there is the node's own. -/
theorem own_of_ownSteps {k : NodeId} {c : CommitmentRecord}
    (h : (nodes.foldl (ownStep Γ s₀ round) m).commitments[k]? = some c) :
    m.commitments[k]? = some c ∨ Own Γ s₀ k round c := by
  induction nodes generalizing m with
  | nil => exact Or.inl h
  | cons n nodes ih =>
    rcases ih h with h' | h'
    · rcases getElem?_ownStep Γ s₀ round m n k with he | ⟨rfl, d, hd, -, he⟩
      · exact Or.inl (he ▸ h')
      · exact Or.inr (Option.some.inj (he.symm.trans h') ▸ hd)
    · exact Or.inr h'

/-- What the steps have seen was seen before or is the digest of a node's own commitment. -/
theorem seen_of_ownSteps (nodes : List NodeId) {x : Text} (h : x ∈ (nodes.foldl (ownStep Γ s₀ round) m).historyHex) :
    x ∈ m.historyHex ∨ ∃ n ∈ nodes, ∃ c, Own Γ s₀ n round c ∧ c.commitmentHex = x := by
  induction nodes generalizing m with
  | nil => exact Or.inl h
  | cons n nodes ih =>
    rcases ih h with h' | ⟨k, hk, hown⟩
    · by_cases hd : s₀.scenario.hasDropped n round = true
      · exact Or.inl (ownStep_dropped (Γ := Γ) (m := m) hd ▸ h')
      · cases hb : s₀.buildCommitment Γ n round with
        | error e =>
          simp only [ownStep, hd, hb, if_false, Bool.false_eq_true] at h'
          exact Or.inl h'
        | ok c =>
          have hown : Own Γ s₀ n round c := ⟨by simpa using hd, hb⟩
          rw [ownStep_own hown] at h'
          split at h'
          · exact Or.inl h'
          · rcases Finset.mem_insert.mp h' with rfl | h'
            · exact Or.inr ⟨n, List.mem_cons_self, c, hown, rfl⟩
            · exact Or.inl h'
    · exact Or.inr ⟨k, List.mem_cons_of_mem _ hk, hown⟩

/-- Every own commitment of a node that takes its step was seen after it. -/
theorem seen_ownSteps {n : NodeId} (hn : n ∈ nodes) {c : CommitmentRecord} (h : Own Γ s₀ n round c) :
    c.commitmentHex ∈ (nodes.foldl (ownStep Γ s₀ round) m).historyHex := by
  induction nodes generalizing m with
  | nil => exact absurd hn List.not_mem_nil
  | cons k nodes ih =>
    rcases List.mem_cons.mp hn with rfl | hn
    · exact historyHex_ownSteps (m := ownStep Γ s₀ round m n) (seen_ownStep h)
    · exact ih hn

/-- A commitment that is held stays, when its node takes no step. -/
theorem held_ownSteps {n : NodeId} (hn : n ∉ nodes) :
    (nodes.foldl (ownStep Γ s₀ round) m).commitments[n]? = m.commitments[n]? := by
  induction nodes generalizing m with
  | nil => rfl
  | cons k nodes ih =>
    rw [List.foldl_cons, ih (fun h => hn (List.mem_cons_of_mem _ h))]
    rcases getElem?_ownStep Γ s₀ round m k n with he | ⟨rfl, -⟩
    · exact he
    · exact absurd List.mem_cons_self hn

/-- A commitment of its own that no other node's equals is held after the steps. -/
theorem held_of_own (hnd : nodes.Nodup) {n : NodeId} (hn : n ∈ nodes) {c : CommitmentRecord} (h : Own Γ s₀ n round c)
    (hseen : c.commitmentHex ∉ m.historyHex)
    (hne : ∀ k d, Own Γ s₀ k round d → d.commitmentHex = c.commitmentHex → k = n) :
    (nodes.foldl (ownStep Γ s₀ round) m).commitments[n]? = some c := by
  induction nodes generalizing m with
  | nil => exact absurd hn List.not_mem_nil
  | cons k nodes ih =>
    obtain ⟨hk, hnd'⟩ := List.nodup_cons.mp hnd
    rw [List.foldl_cons]
    rcases List.mem_cons.mp hn with rfl | hn
    · rw [held_ownSteps hk, ownStep_own h, if_neg hseen, RoundMachine.getElem?_addCommitment, h.builds.nodeId, if_pos rfl]
    · refine ih hnd' hn ?_
      intro hs
      rcases seen_of_ownSteps [k] hs with hs | ⟨k', hk', d, hd, he⟩
      · exact hseen hs
      · rw [List.mem_singleton.mp hk'] at hd
        exact hk (hne k d hd he ▸ hn)

end

end RuntimeState

end VertexVeil
