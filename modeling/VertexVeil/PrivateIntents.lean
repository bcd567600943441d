import Std.Data.TreeMap.Lemmas
import VertexVeil.Config

/-!
# The private-intent loader

From what the TOML parser yields of a private-intent file, the agents of a run, cross-validated against the topology. What one
entry gives is `RawAgent.Gives`, and the loop takes the entries one after the other. A `LoadedAgents` is a bundle with the proof
that it loaded; `LoadedAgents.agentsOf` and `LoadedAgents.mem_agents` are what later modules need of one.
-/

namespace VertexVeil

open Codec

/-- Errors of the loader. A message shows the identifier it carries; none shows a private value. -/
inductive PrivateIntentError where
  | parse (message : Text)
  | unsupportedVersion (version : UInt32)
  | invalidNodeId (shown : Text)
  | unknownNodeId (id : Text)
  | duplicateEntry (id : Text)
  | roleMismatch (id : Text)
  | missingCapability (id : Text)
  | badCapability (id : Text)
  | missingWitness (id : Text) (role : String)
  | missingAgent (id : Text)
  | badSigningKey (id : Text)
  | signingKeyMismatch (id : Text)
  deriving DecidableEq

/-- An entry of a bundle, as parsed. -/
structure RawAgent where
  node : Text
  role : Text
  requiredCapability : Option Text
  capabilityClaims : Option (List Text)
  budgetCents : Option UInt64
  reservationCents : Option UInt64
  signingSecretKey : Option Text

/-- A bundle, as parsed. -/
structure RawBundle where
  version : UInt32
  agents : List RawAgent

/-- The agents of a process, by node. -/
abbrev Agents : Type := Std.TreeMap NodeId AgentState

/-- The role an entry declares. -/
def parseRole (s : Text) : Option Role :=
  if s = "requester".toList then some .requester else if s = "provider".toList then some .provider else none

/-- `char::is_whitespace`: the characters with the Unicode property `White_Space`. -/
def isWhitespace (c : Char) : Bool :=
  let n := c.toNat
  (9 ≤ n && n ≤ 13) || n == 0x20 || n == 0x85 || n == 0xA0 || n == 0x1680 || (0x2000 ≤ n && n ≤ 0x200A) || n == 0x2028 ||
    n == 0x2029 || n == 0x202F || n == 0x205F || n == 0x3000

/-- `str::trim` -/
def trim (s : Text) : Text := ((s.dropWhile isWhitespace).reverse.dropWhile isWhitespace).reverse

/-- The first `n` bytes of a text (`&s[..n]`); nothing where byte `n` lies inside a character or past the end. -/
def sliceTo : Text → Nat → Option Text
  | [], n => if n = 0 then some [] else none
  | c :: cs, n =>
    if n = 0 then some []
    else if c.utf8Size ≤ n then (sliceTo cs (n - c.utf8Size)).map (c :: ·)
    else none

/-- What an error shows of a text that is no identifier: its first twelve bytes. -/
def redactTail (s : Text) : Except (Fault PrivateIntentError) Text :=
  let trimmed := trim s
  if utf8Len trimmed ≤ 12 then .ok trimmed
  else match sliceTo trimmed 12 with
    | none => .error (.panic "byte index 12 is not a char boundary")
    | some shown => .ok (shown ++ ['…'])

/-- The signing seed of an entry, which must belong to the key the topology gives the node. -/
def RawAgent.seedFor (Γ : Crypto) (raw : RawAgent) (node : NodeConfig) :
    Except (Fault PrivateIntentError) (Option SigningSecretSeed) :=
  match raw.signingSecretKey with
  | none => .ok none
  | some hex =>
    match SigningSecretSeed.fromHex hex with
    | .error _ => .error (.error (.badSigningKey node.id.toHex))
    | .ok seed =>
      match node.signingPublicKey with
      | some topoPk =>
        if Γ.publicKey seed ≠ topoPk then .error (.error (.signingKeyMismatch node.id.toHex)) else .ok (some seed)
      | none => .ok (some seed)

/-- Parse the claims of an entry, one after the other. -/
def parseClaims (id : NodeId) : List Text → Except (Fault PrivateIntentError) (List CapabilityTag)
  | [] => .ok []
  | s :: raws =>
    match CapabilityTag.parseShape s with
    | .error _ => .error (.error (.badCapability id.toHex))
    | .ok c => do
      let claims ← parseClaims id raws
      return c :: claims

/-- The requester's agent: its capability is the topology's, its budget is given. -/
def RawAgent.requesterAgent (raw : RawAgent) (node : NodeConfig) (seed : Option SigningSecretSeed) :
    Except (Fault PrivateIntentError) AgentState :=
  match raw.requiredCapability with
  | none => .error (.error (.missingCapability node.id.toHex))
  | some s =>
    match CapabilityTag.parseShape s with
    | .error _ => .error (.error (.badCapability node.id.toHex))
    | .ok cap =>
      match node.requiredCapability with
      | none => .error (.panic "topology-required-capability")
      | some topoCap =>
        if topoCap ≠ cap then .error (.error (.badCapability node.id.toHex))
        else match raw.budgetCents with
          | none => .error (.error (.missingWitness node.id.toHex "requester"))
          | some budget => .ok (.ofRequester
            { nodeId := node.id, requiredCapability := cap, budgetCents := budget, signingSecretKey := seed })

/-- A provider's agent: its claims are the topology's, its reservation is given. -/
def RawAgent.providerAgent (raw : RawAgent) (node : NodeConfig) (seed : Option SigningSecretSeed) :
    Except (Fault PrivateIntentError) AgentState :=
  match raw.capabilityClaims with
  | none => .error (.error (.missingCapability node.id.toHex))
  | some raws => do
    let claims ← parseClaims node.id raws
    if node.capabilityClaims ≠ claims then .error (.error (.badCapability node.id.toHex))
    else match raw.reservationCents with
      | none => .error (.error (.missingWitness node.id.toHex "provider"))
      | some reservation => .ok (.ofProvider
        { nodeId := node.id, capabilityClaims := claims, reservationCents := reservation, signingSecretKey := seed })

/-- The agent of an entry, by the role of its node. -/
def RawAgent.agentFor (raw : RawAgent) (node : NodeConfig) (seed : Option SigningSecretSeed) :
    Except (Fault PrivateIntentError) AgentState :=
  match node.role with
  | .requester => raw.requesterAgent node seed
  | .provider => raw.providerAgent node seed

/-- The loop over the entries. -/
def loadAgents (Γ : Crypto) (t : TopologyConfig) : List RawAgent → Agents → Except (Fault PrivateIntentError) Agents
  | [], out => .ok out
  | raw :: raws, out =>
    match NodeId.fromStr raw.node with
    | .error _ => do
      let shown ← redactTail raw.node
      .error (.error (.invalidNodeId shown))
    | .ok node =>
      match t.findNode node with
      | none => .error (.error (.unknownNodeId node.toHex))
      | some topologyNode =>
        if out.contains node then .error (.error (.duplicateEntry node.toHex))
        else match parseRole raw.role with
          | none => .error (.error (.roleMismatch node.toHex))
          | some declaredRole =>
            if declaredRole ≠ topologyNode.role then .error (.error (.roleMismatch node.toHex))
            else do
              let seed ← raw.seedFor Γ topologyNode
              let agent ← raw.agentFor topologyNode seed
              loadAgents Γ t raws (out.insert node agent)

/-- Load a bundle: every entry valid, every node of the topology covered. -/
def agentsFromBundle (Γ : Crypto) (t : TopologyConfig) (bundle : RawBundle) :
    Except (Fault PrivateIntentError) Agents :=
  if bundle.version ≠ 1 then .error (.error (.unsupportedVersion bundle.version))
  else do
    let out ← loadAgents Γ t bundle.agents ∅
    match t.nodes.find? (fun n => ¬ out.contains n.id) with
    | some n => .error (.error (.missingAgent n.id.toHex))
    | none => .ok out

/-! ## What the loader takes -/

section Entries

variable {Γ : Crypto} {t : TopologyConfig} {raw : RawAgent} {raws : List RawAgent} {out agents : Agents} {id : NodeId}
  {a : AgentState}

/-- What an entry gives: a configured node, of the declared role, and the agent that is to act for it. -/
structure RawAgent.Gives (Γ : Crypto) (t : TopologyConfig) (raw : RawAgent) (id : NodeId) (a : AgentState) : Prop where
  parses : NodeId.fromStr raw.node = .ok id
  agent : ∃ node seed, t.findNode id = some node ∧ parseRole raw.role = some node.role ∧ raw.seedFor Γ node = .ok seed ∧
    raw.agentFor node seed = .ok a

/-- The loop goes on with the agent of its first entry, if the entry gives one and the node has none yet. -/
theorem loadAgents_cons_of_gives (h : raw.Gives Γ t id a) (hid : id ∉ out) :
    loadAgents Γ t (raw :: raws) out = loadAgents Γ t raws (out.insert id a) := by
  obtain ⟨node, seed, hnode, hrole, hseed, ha⟩ := h.agent
  have hcont : out.contains id = false := by
    rw [← Bool.not_eq_true, Std.TreeMap.contains_iff_mem]
    exact hid
  simp only [loadAgents, h.parses, hnode, hcont, Bool.false_eq_true, if_false, hrole, ne_eq, not_true_eq_false, hseed, ha, bind,
    Except.bind]

/-- The entries that the loop takes. -/
theorem loadAgents_cons_eq_ok : loadAgents Γ t (raw :: raws) out = .ok agents ↔
    ∃ id a, raw.Gives Γ t id a ∧ id ∉ out ∧ loadAgents Γ t raws (out.insert id a) = .ok agents := by
  constructor
  · intro h
    simp only [loadAgents] at h
    split at h
    · obtain ⟨shown, -, h⟩ := Except.bind_eq_ok h
      simp at h
    · rename_i id hid
      split at h
      · simp at h
      · rename_i node hnode
        split at h
        · simp at h
        · rename_i hcont
          split at h
          · simp at h
          · rename_i role hrole
            split at h
            · simp at h
            · rename_i hsame
              obtain ⟨seed, hseed, h⟩ := Except.bind_eq_ok h
              obtain ⟨a, ha, h⟩ := Except.bind_eq_ok h
              obtain rfl := not_not.mp hsame
              exact ⟨id, a, ⟨hid, node, seed, hnode, hrole, hseed, ha⟩, fun hm => hcont (Std.TreeMap.contains_iff_mem.mpr hm), h⟩
  · rintro ⟨id, a, hgives, hid, h⟩
    rw [loadAgents_cons_of_gives hgives hid]
    exact h

/-- A bundle loads exactly when its version is known, its entries load and they cover the topology. -/
theorem agentsFromBundle_eq_ok {bundle : RawBundle} : agentsFromBundle Γ t bundle = .ok agents ↔
    bundle.version = 1 ∧ loadAgents Γ t bundle.agents ∅ = .ok agents ∧ ∀ n ∈ t.nodes, n.id ∈ agents := by
  unfold agentsFromBundle
  constructor
  · intro h
    split at h
    · simp at h
    · rename_i hversion
      obtain ⟨out, hout, h⟩ := Except.bind_eq_ok h
      split at h
      · simp at h
      · rename_i hnone
        obtain rfl := Except.ok.inj h
        refine ⟨not_not.mp hversion, hout, ?_⟩
        intro n hn
        simpa using List.find?_eq_none.mp hnone n hn
  · rintro ⟨hversion, hload, hall⟩
    have hnone : t.nodes.find? (fun n => ¬ agents.contains n.id) = none := by
      rw [List.find?_eq_none]
      intro n hn
      simpa using hall n hn
    simp only [hversion, ne_eq, not_true_eq_false, if_false, hload, bind, Except.bind]
    rw [hnone]

end Entries

/-! ## What the loader accepts -/

/-- An agent acts for a node: it has the node's identifier and role, the capabilities the topology gives the node, and a
seed, if it has one, of the key the topology gives the node. -/
inductive AgentState.ActsFor (Γ : Crypto) (n : NodeConfig) : AgentState → Prop where
  | requester (i : PrivateRequesterIntent) : n.role = .requester → i.nodeId = n.id →
      n.requiredCapability = some i.requiredCapability →
      (∀ seed pk, i.signingSecretKey = some seed → n.signingPublicKey = some pk → Γ.publicKey seed = pk) →
      ActsFor Γ n (.ofRequester i)
  | provider (i : PrivateProviderIntent) : n.role = .provider → i.nodeId = n.id →
      n.capabilityClaims = i.capabilityClaims →
      (∀ seed pk, i.signingSecretKey = some seed → n.signingPublicKey = some pk → Γ.publicKey seed = pk) →
      ActsFor Γ n (.ofProvider i)

/-- Every agent acts for a node of the topology, under that node's identifier. -/
def AgentsOf (Γ : Crypto) (t : TopologyConfig) (agents : Agents) : Prop :=
  ∀ id a, agents[id]? = some a → ∃ n, t.findNode id = some n ∧ a.ActsFor Γ n

theorem RawAgent.seedFor_ok {Γ : Crypto} {raw : RawAgent} {node : NodeConfig} {out : Option SigningSecretSeed}
    (h : raw.seedFor Γ node = .ok out) :
    ∀ seed pk, out = some seed → node.signingPublicKey = some pk → Γ.publicKey seed = pk := by
  rintro seed pk rfl hpk
  unfold seedFor at h
  split at h
  · simp at h
  · split at h
    · simp at h
    · split at h
      · rename_i topoPk htopo
        split at h
        · simp at h
        · rename_i hk
          simp only [Except.ok.injEq, Option.some.injEq] at h
          subst h
          rw [htopo, Option.some.injEq] at hpk
          exact (not_not.mp hk).trans hpk
      · rename_i htopo
        rw [htopo] at hpk
        simp at hpk

theorem RawAgent.requesterAgent_ok {Γ : Crypto} {raw : RawAgent} {node : NodeConfig} {seed : Option SigningSecretSeed}
    {a : AgentState} (h : raw.requesterAgent node seed = .ok a) (hr : node.role = .requester)
    (hs : ∀ s pk, seed = some s → node.signingPublicKey = some pk → Γ.publicKey s = pk) : a.ActsFor Γ node := by
  unfold requesterAgent at h
  split at h
  · simp at h
  · split at h
    · simp at h
    · split at h
      · simp at h
      · rename_i cap hcap topoCap htopo
        split at h
        · simp at h
        · rename_i he
          split at h
          · simp at h
          · simp only [Except.ok.injEq] at h
            subst h
            exact .requester _ hr rfl (by rw [htopo, not_not.mp he]) hs

theorem RawAgent.providerAgent_ok {Γ : Crypto} {raw : RawAgent} {node : NodeConfig} {seed : Option SigningSecretSeed}
    {a : AgentState} (h : raw.providerAgent node seed = .ok a) (hr : node.role = .provider)
    (hs : ∀ s pk, seed = some s → node.signingPublicKey = some pk → Γ.publicKey s = pk) : a.ActsFor Γ node := by
  unfold providerAgent at h
  split at h
  · simp at h
  · obtain ⟨claims, -, h⟩ := Except.bind_eq_ok h
    split at h
    · simp at h
    · rename_i he
      split at h
      · simp at h
      · simp only [Except.ok.injEq] at h
        subst h
        exact .provider _ hr rfl (not_not.mp he) hs

theorem RawAgent.agentFor_ok {Γ : Crypto} {raw : RawAgent} {node : NodeConfig} {seed : Option SigningSecretSeed}
    {a : AgentState} (h : raw.agentFor node seed = .ok a)
    (hs : ∀ s pk, seed = some s → node.signingPublicKey = some pk → Γ.publicKey s = pk) : a.ActsFor Γ node := by
  unfold agentFor at h
  split at h
  · rename_i hrole
    exact requesterAgent_ok h hrole hs
  · rename_i hrole
    exact providerAgent_ok h hrole hs

/-- The loop adds agents that act for nodes of the topology. -/
theorem loadAgents_ok {Γ : Crypto} {t : TopologyConfig} {raws : List RawAgent} {out agents : Agents}
    (h : loadAgents Γ t raws out = .ok agents) (ho : AgentsOf Γ t out) : AgentsOf Γ t agents := by
  induction raws generalizing out with
  | nil =>
    simp only [loadAgents, Except.ok.injEq] at h
    exact h ▸ ho
  | cons raw raws ih =>
    obtain ⟨node, agent, hgives, -, h⟩ := loadAgents_cons_eq_ok.mp h
    obtain ⟨topologyNode, seed, hfind, -, hseed, hagent⟩ := hgives.agent
    have hacts := RawAgent.agentFor_ok hagent (RawAgent.seedFor_ok hseed)
    refine ih h ?_
    intro id a ha
    rw [Std.TreeMap.getElem?_insert] at ha
    split at ha
    · rename_i he
      simp only [Option.some.injEq] at ha
      subst ha
      have hid : node = id := compare_eq_iff_eq.mp he
      exact ⟨topologyNode, hid ▸ hfind, hacts⟩
    · exact ho id a ha

/-- A loaded bundle gives every node of the topology its agent, and no other agents. -/
theorem agentsFromBundle_ok {Γ : Crypto} {t : TopologyConfig} {bundle : RawBundle} {agents : Agents}
    (h : agentsFromBundle Γ t bundle = .ok agents) :
    AgentsOf Γ t agents ∧ ∀ n ∈ t.nodes, n.id ∈ agents := by
  obtain ⟨-, hload, hall⟩ := agentsFromBundle_eq_ok.mp h
  exact ⟨loadAgents_ok hload (fun id a ha => by simp at ha), hall⟩

/-- A private-intent bundle that loads for a topology. -/
structure LoadedAgents (Γ : Crypto) (t : TopologyConfig) where
  bundle : RawBundle
  agents : Agents
  loaded : agentsFromBundle Γ t bundle = .ok agents

/-- A bundle that was checked to load. -/
def LoadedAgents.ofBundle {Γ : Crypto} {t : TopologyConfig} (bundle : RawBundle)
    (h : (agentsFromBundle Γ t bundle).isOk = true) : LoadedAgents Γ t :=
  match hl : agentsFromBundle Γ t bundle with
  | .ok agents => { bundle, agents, loaded := hl }
  | .error _ => absurd h (by rw [hl]; exact Bool.false_ne_true)

namespace LoadedAgents

variable {Γ : Crypto} {t : TopologyConfig}

theorem ofBundle_bundle {bundle : RawBundle} (h : (agentsFromBundle Γ t bundle).isOk = true) :
    (ofBundle bundle h).bundle = bundle := by
  unfold ofBundle
  split
  · rfl
  · rename_i he
    rw [he] at h
    exact absurd h Bool.false_ne_true

theorem agentsOf (l : LoadedAgents Γ t) : AgentsOf Γ t l.agents := (agentsFromBundle_ok l.loaded).1

/-- Every node of the topology has its agent. -/
theorem exists_agent (l : LoadedAgents Γ t) (ht : t.WellFormed Γ) {n : NodeConfig} (hn : n ∈ t.nodes) :
    ∃ a, l.agents[n.id]? = some a ∧ a.ActsFor Γ n := by
  have hm := (agentsFromBundle_ok l.loaded).2 n hn
  rw [Std.TreeMap.mem_iff_isSome_getElem?, Option.isSome_iff_exists] at hm
  obtain ⟨a, ha⟩ := hm
  obtain ⟨m, hm, hacts⟩ := l.agentsOf n.id a ha
  rw [ht.findNode_self hn, Option.some.injEq] at hm
  exact ⟨a, ha, hm ▸ hacts⟩

/-- The agents are those of the topology's nodes. -/
theorem mem_agents (l : LoadedAgents Γ t) {id : NodeId} : id ∈ l.agents ↔ ∃ n ∈ t.nodes, n.id = id := by
  constructor
  · intro hm
    rw [Std.TreeMap.mem_iff_isSome_getElem?, Option.isSome_iff_exists] at hm
    obtain ⟨a, ha⟩ := hm
    obtain ⟨n, hn, -⟩ := l.agentsOf id a ha
    exact ⟨n, (TopologyConfig.findNode_some hn).1, (TopologyConfig.findNode_some hn).2⟩
  · rintro ⟨n, hn, rfl⟩
    exact (agentsFromBundle_ok l.loaded).2 n hn

end LoadedAgents

end VertexVeil
