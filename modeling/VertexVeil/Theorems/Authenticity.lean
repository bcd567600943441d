import VertexVeil.Fixtures
import VertexVeil.Lemmas.Network
import VertexVeil.VertexTransport

/-!
# Whose records a node logs over the consensus engine

`logged_broadcast`: as long as what the faulty node submits names that node as its origin, every record in a node's log that is
attributed to another node was broadcast by that node's own process. `record_forged`: a transaction whose message names another
node is taken for that node's.
-/

namespace VertexVeil

open Codec Broadcast

/-! ## Authenticity of logged records -/

/-- What the faulty node submits under its key names it as the origin, where the worker makes a message of it. -/
def SignsAs (J : Serde) (X : NodeId) (submitted : List Transaction) : Prop :=
  ∀ tx ∈ submitted, ∀ msg, J.receive tx = some msg → msg.origin = X

namespace AuthenticityAux

/-- A message that names another node than the faulty one was broadcast by that node's own process. -/
def Authored (J : Serde) (X : NodeId) (sent : Party → List Transaction) (msg : CoordinationMessage) : Prop :=
  msg.origin ≠ X → J.transaction msg.origin msg ∈ sent (.node msg.origin)

/-- A node: what it broadcast names it, what it logged was broadcast, and it runs its own agent only, now and later. -/
structure Honest (J : Serde) (X : NodeId) (sent : Party → List Transaction) (id : NodeId) (p : Process)
    (sessions : List RuntimeState) : Prop where
  speaks : ∀ tx ∈ sent (.node id), ∃ msg, tx = J.transaction id msg ∧ msg.origin = id
  logged : ∀ msg ∈ p.logged, Authored J X sent msg
  own : ∀ s, p.state = some s → ∀ n ∈ s.agents, n = id
  later : ∀ s ∈ sessions, s.log.messages = [] ∧ ∀ n ∈ s.agents, n = id

/-- What a party is and has submitted. -/
def Lawful (J : Serde) (X : NodeId) (sent : Party → List Transaction) (i : Party) : Peer → Prop
  | .node id p sessions => i = .node id ∧ Honest J X sent id p sessions
  | .worker id => i = .worker id ∧ ∀ tx ∈ sent (.worker id), tx.raw = heartbeatMarker
  | .faulty id _ => i = .faulty id ∧ id = X

variable {Γ : Crypto} {J : Serde} {X : NodeId} {sent sent' : Party → List Transaction} {i : Party} {q q' : Peer}

theorem signsAs_of_le {submitted submitted' : List Transaction} (hle : submitted <+: submitted')
    (h : SignsAs J X submitted') : SignsAs J X submitted :=
  fun tx htx => h tx (hle.subset htx)

theorem Authored.mono {msg : CoordinationMessage} (hle : ∀ j, sent j <+: sent' j) (h : Authored J X sent msg) :
    Authored J X sent' msg :=
  fun hne => (hle _).subset (h hne)

/-- What other parties submit changes nothing. -/
theorem Lawful.mono (hle : ∀ j, sent j <+: sent' j) (hown : sent' i = sent i) (h : Lawful J X sent i q) :
    Lawful J X sent' i q := by
  cases q with
  | node id p sessions =>
    obtain ⟨rfl, h⟩ := h
    exact ⟨rfl, hown ▸ h.speaks, fun msg hm => (h.logged msg hm).mono hle, h.own, h.later⟩
  | worker id =>
    obtain ⟨rfl, h⟩ := h
    exact ⟨rfl, hown ▸ h⟩
  | faulty id script => exact h

/-- What the worker makes of a transaction of a lawful party was broadcast by the node it names, or the faulty node is named. -/
theorem authored_of_receive (hX : SignsAs J X (sent (.faulty X))) (h : Lawful J X sent i q) {tx : Transaction}
    (htx : tx ∈ sent i) {msg : CoordinationMessage} (hmsg : J.receive tx = some msg) : Authored J X sent msg := by
  cases q with
  | node id p sessions =>
    obtain ⟨rfl, h⟩ := h
    obtain ⟨msg', rfl, rfl⟩ := h.speaks tx htx
    unfold Serde.receive at hmsg
    split at hmsg
    · simp at hmsg
    · rw [Serde.transaction, J.fromSlice_toVec, Option.some.injEq] at hmsg
      exact fun _ => hmsg ▸ htx
  | worker id =>
    obtain ⟨rfl, h⟩ := h
    rw [Serde.receive, h tx htx, if_pos List.prefix_rfl] at hmsg
    simp at hmsg
  | faulty id script =>
    obtain ⟨rfl, rfl⟩ := h
    exact fun hne => absurd (hX tx htx msg hmsg) hne

theorem Lawful.hear (h : Lawful J X sent i q) {tx : Transaction}
    (htx : ∀ msg, J.receive tx = some msg → Authored J X sent msg) (hs : Peer.hear Γ J q tx = some q') :
    Lawful J X sent i q' := by
  cases q with
  | node id p sessions =>
    obtain ⟨rfl, h⟩ := h
    unfold Peer.hear at hs
    dsimp only at hs
    split at hs
    · exact Option.some.inj hs ▸ ⟨rfl, h⟩
    · rename_i msg hmsg
      obtain ⟨p', hp', rfl⟩ := Option.map_eq_some_iff.mp hs
      cases p with
      | draining x =>
        simp only [protocol, Option.some.injEq] at hp'
        subst hp'
        refine ⟨rfl, h.speaks, fun m hm => ?_, fun s hs n hn => ?_, h.later⟩
        · change m ∈ (x.stage.handle x.round x.state msg).log.messages at hm
          rcases x.stage.messages_handle x.round x.state msg with he | he
          · rw [he] at hm
            exact h.logged m hm
          · rcases List.mem_cons.mp (he.mem_iff.mp hm) with rfl | hm
            · exact htx m hmsg
            · exact h.logged m hm
        · obtain rfl := Option.some.inj hs
          exact h.own _ rfl n (x.stage.agents_handle x.round x.state msg ▸ hn)
      | ready s => simp [protocol] at hp'
      | returned out => simp [protocol] at hp'
      | failed e => simp [protocol] at hp'
  | worker id => simp [Peer.hear] at hs
  | faulty id script => simp [Peer.hear] at hs

/-- A step of a node is the step of its process, when it takes one. -/
theorem act_node {id : NodeId} {p p' : Process} {sessions : List RuntimeState} {msgs : List CoordinationMessage}
    (h : (protocol Γ).act p = some (msgs, p')) :
    (vertexProtocol Γ J).act (.node id p sessions) = some (msgs.map (J.transaction id), .node id p' sessions) := by
  have he : (vertexProtocol Γ J).act (.node id p sessions) =
      ((protocol Γ).act p).map fun x => (x.1.map (J.transaction id), .node id x.2 sessions) := by
    cases p with
    | ready _ => rfl
    | draining _ => rfl
    | returned _ => simp [protocol] at h
    | failed _ => rfl
  rw [he, h, Option.map_some]

theorem hear_node {id : NodeId} {p p' : Process} {sessions : List RuntimeState} {tx : Transaction} {msg : CoordinationMessage}
    (hmsg : J.receive tx = some msg) (h : (protocol Γ).hear p msg = some p') :
    (vertexProtocol Γ J).hear (.node id p sessions) tx = some (.node id p' sessions) := by
  simp only [vertexProtocol, Peer.hear, hmsg, h, Option.map_some]

/-- A process's own step: what it broadcasts names its node, and it logs nothing. -/
theorem Honest.act {id : NodeId} {p p' : Process} {sessions : List RuntimeState} {msgs : List CoordinationMessage}
    (h : Honest J X sent id p sessions) (hs : (protocol Γ).act p = some (msgs, p')) :
    Honest J X (Function.update sent (.node id) (sent (.node id) ++ msgs.map (J.transaction id))) id p' sessions := by
  obtain ⟨s, hstate, horigin, hgo⟩ := act_cases hs
  have hlogged : s.log.messages = p.logged := by
    cases p with
    | ready _ =>
      obtain rfl := Option.some.inj hstate
      rfl
    | draining _ =>
      obtain rfl := Option.some.inj hstate
      rfl
    | returned _ => simp [Process.state] at hstate
    | failed _ => simp [Process.state] at hstate
  have hle : ∀ j, sent j <+: Function.update sent (.node id) (sent (.node id) ++ msgs.map (J.transaction id)) j := by
    intro j
    by_cases hj : j = .node id
    · subst hj
      rw [Function.update_self]
      exact List.prefix_append _ _
    · rw [Function.update_of_ne hj]
  refine ⟨fun tx htx => ?_, fun msg hm => ?_, fun s' hs' => ?_, h.later⟩
  · rw [Function.update_self] at htx
    rcases List.mem_append.mp htx with htx | htx
    · exact h.speaks tx htx
    · obtain ⟨msg, hm, rfl⟩ := List.mem_map.mp htx
      exact ⟨msg, rfl, h.own s hstate _ (horigin msg hm)⟩
  · refine (h.logged msg ?_).mono hle
    cases p' with
    | ready _ => exact hgo.elim
    | draining x => exact hlogged ▸ hgo.2 ▸ hm
    | returned out => exact hlogged ▸ hgo.1 ▸ hm
    | failed _ => exact absurd hm List.not_mem_nil
  · cases p' with
    | ready _ => exact hgo.elim
    | draining x =>
      obtain rfl := Option.some.inj hs'
      exact hgo.1 ▸ h.own s hstate
    | returned out => simp [Process.state] at hs'
    | failed _ => simp [Process.state] at hs'

theorem Lawful.act {txs : List Transaction} (h : Lawful J X sent i q) (hs : Peer.act Γ J q = some (txs, q')) :
    Lawful J X (Function.update sent i (sent i ++ txs)) i q' := by
  cases q with
  | node id p sessions =>
    obtain ⟨rfl, h⟩ := h
    have hstep : ((protocol Γ).act p).map (fun x => (x.1.map (J.transaction id), Peer.node id x.2 sessions)) = some (txs, q') →
        Lawful J X (Function.update sent (.node id) (sent (.node id) ++ txs)) (.node id) q' := by
      intro hs
      obtain ⟨⟨msgs, p'⟩, hp', he⟩ := Option.map_eq_some_iff.mp hs
      obtain ⟨rfl, rfl⟩ := Prod.mk.inj he
      exact ⟨rfl, h.act hp'⟩
    cases p with
    | ready s => exact hstep hs
    | draining x => exact hstep hs
    | failed e => exact hstep hs
    | returned out =>
      cases sessions with
      | nil => exact hstep hs
      | cons s rest =>
        -- the next session starts with an empty log
        obtain ⟨rfl, rfl⟩ := Prod.mk.inj (Option.some.inj hs)
        obtain ⟨hnew, hown⟩ := h.later s List.mem_cons_self
        rw [List.append_nil, Function.update_eq_self]
        refine ⟨rfl, h.speaks, fun msg hm => ?_, fun s' hs' => Option.some.inj hs' ▸ hown, fun s' hs' =>
          h.later s' (List.mem_cons_of_mem _ hs')⟩
        rw [Process.logged, hnew] at hm
        exact absurd hm List.not_mem_nil
  | worker id =>
    obtain ⟨rfl, h⟩ := h
    obtain ⟨rfl, rfl⟩ := Prod.mk.inj (Option.some.inj hs)
    refine ⟨rfl, ?_⟩
    intro tx htx
    rw [Function.update_self] at htx
    rcases List.mem_append.mp htx with htx | htx
    · exact h tx htx
    · rw [List.mem_singleton.mp htx]
  | faulty id script =>
    cases script with
    | nil => simp [Peer.act] at hs
    | cons raw script =>
      obtain ⟨rfl, rfl⟩ := Prod.mk.inj (Option.some.inj hs)
      exact h

theorem Lawful.boot {T : LoadedTopology Γ} {scenario : NodeId → Scenario} (h : VertexBoots T scenario X i q) :
    Lawful J X (fun _ => []) i q := by
  cases i with
  | node id =>
    cases q with
    | node id' p sessions =>
      obtain ⟨rfl, -, hp, hsessions⟩ := h
      obtain ⟨s, rfl, hlog, hown⟩ := hp.ready
      refine ⟨rfl, fun tx htx => absurd htx List.not_mem_nil, fun msg hm => ?_, fun s' hs' => ?_, fun s' hs' => ?_⟩
      · rw [Process.logged, hlog] at hm
        exact absurd hm List.not_mem_nil
      · exact Option.some.inj hs' ▸ hown
      · obtain ⟨s₁, he, hlog', hown'⟩ := (hsessions s' hs').ready
        obtain rfl := Process.ready.inj he
        exact ⟨hlog', hown'⟩
    | worker id' => exact h.elim
    | faulty id' script => exact h.elim
  | worker id =>
    cases q with
    | worker id' => exact ⟨congrArg Party.worker h.symm, fun tx htx => absurd htx List.not_mem_nil⟩
    | node id' p sessions => exact h.elim
    | faulty id' script => exact h.elim
  | faulty id =>
    cases q with
    | faulty id' script => exact ⟨congrArg Party.faulty h.1.symm, h.1.trans h.2⟩
    | node id' p sessions => exact h.elim
    | worker id' => exact h.elim

end AuthenticityAux

open AuthenticityAux in
/-- **Authenticity of logged records.** In a network of nodes over the consensus engine with a faulty node that submits any
transactions: as long as those of its transactions the worker makes messages of name it as their origin, every record in a
node's log that is attributed to another node was broadcast by that node's own process. -/
theorem logged_broadcast {Γ : Crypto} (J : Serde) (T : LoadedTopology Γ) {scenario : NodeId → Scenario} {X : NodeId}
    {net : Net Party Peer Transaction} (h : (vertexNetwork J T scenario X).Reachable net)
    (hX : SignsAs J X (net.sent (.faulty X))) {node id : NodeId} {p : Process} {sessions : List RuntimeState}
    (hp : net.procs (.node node) = some (.node id p sessions)) :
    ∀ msg ∈ p.logged, msg.origin ≠ X → J.transaction msg.origin msg ∈ net.sent (.node msg.origin) := by
  have hl : Lawful J X net.sent (.node node) (.node id p sessions) := by
    refine pointwise (L := fun sent i q => SignsAs J X (sent (.faulty X)) → Lawful J X sent i q) ?_ ?_ ?_ ?_ h hp hX
    · intro S S' i q hle hown hq hX
      exact (hq (signsAs_of_le (hle _) hX)).mono hle hown
    · intro i q hq _
      exact .boot hq
    · intro S i q tx q' hq htold hs hX
      obtain ⟨j, r, hr, htx⟩ := htold
      exact (hq hX).hear (fun msg hmsg => authored_of_receive hX (hr hX) htx hmsg) hs
    · intro S i q txs q' hq hs hX
      refine (hq (signsAs_of_le ?_ hX)).act hs
      by_cases hi : Party.faulty X = i
      · subst hi
        rw [Function.update_self]
        exact List.prefix_append _ _
      · rw [Function.update_of_ne hi]
  exact hl.2.logged

namespace Sample

open AuthenticityAux

/-- A commitment in the name of the first provider that its process did not make. -/
def forged : CoordinationMessage := { origin := provider₁, payload := .commitment provider₁Commitment }

/-- A commitment of the third provider. -/
def own₃ : CoordinationMessage :=
  { origin := provider₃, payload := .commitment (commitment (.provider provider₃ 0 [cpu]) 0xa4) }

/-- The requester's process hears a message, and then what the first provider's process broadcast: what that was, and what the
requester's process has logged. -/
def hearing (m : CoordinationMessage) : Option (List CoordinationMessage × List CoordinationMessage) :=
  (processes provider₁).bind fun pa => ((protocol crypto).act pa).bind fun x =>
    (processes requester).bind fun pb => ((protocol crypto).act pb).bind fun y =>
      x.1.head?.bind fun m₁ => ((protocol crypto).hear y.2 m).bind fun pb₁ =>
        ((protocol crypto).hear pb₁ m₁).map fun pb₂ => (x.1, pb₂.logged)

/-- The forged commitment is logged; so is the third provider's own one, next to another node's. -/
theorem hearing_logs : (∃ said logged, hearing forged = some (said, logged) ∧ forged ∈ logged ∧ forged ∉ said) ∧
    ∃ said logged, hearing own₃ = some (said, logged) ∧ own₃ ∈ logged ∧ ∃ m ∈ logged, m.origin ≠ provider₃ := by
  have h : (hearing forged).any (fun z => forged ∈ z.2 ∧ forged ∉ z.1) = true ∧
      (hearing own₃).any (fun z => own₃ ∈ z.2 ∧ ∃ m ∈ z.2, m.origin ≠ provider₃) = true := by decide +kernel
  obtain ⟨x, hx, hforged⟩ := (Option.any_eq_true _ _).mp h.1
  obtain ⟨y, hy, hown⟩ := (Option.any_eq_true _ _).mp h.2
  exact ⟨⟨x.1, x.2, hx, of_decide_eq_true hforged⟩, y.1, y.2, hy, of_decide_eq_true hown⟩

/-- The parties of the deployment: the third provider is the faulty node. -/
def parties (script : List (List UInt8)) : Party → Option Peer
  | .node id => (processes id).map fun p => .node id p []
  | .worker id => some (.worker id)
  | .faulty id => if id = provider₃ then some (.faulty provider₃ script) else none

theorem parties_boot {script : List (List UInt8)} {i : Party} {q : Peer} (h : parties script i = some q) :
    VertexBoots topology (fun _ => .empty) provider₃ i q := by
  cases i with
  | node id =>
    obtain ⟨p, hp, rfl⟩ := Option.map_eq_some_iff.mp h
    refine ⟨rfl, ?_, boots hp, fun s hs => absurd hs List.not_mem_nil⟩
    rintro rfl
    simp [processes] at hp
  | worker id =>
    obtain rfl := Option.some.inj h
    rfl
  | faulty id =>
    change (if id = provider₃ then some (Peer.faulty provider₃ script) else none) = some q at h
    split at h
    · rename_i hid
      obtain rfl := Option.some.inj h
      exact ⟨hid.symm, hid⟩
    · simp at h

/-- The faulty node submits a message, and the requester's process hears it before what the first provider's process broadcast. -/
theorem heard_run {J : Serde} {m : CoordinationMessage} {said logged : List CoordinationMessage}
    (hJ : ∀ node msg, J.receive (J.transaction node msg) = some msg) (h : hearing m = some (said, logged)) :
    ∃ net p, (vertexNetwork J topology (fun _ => .empty) provider₃).Reachable net ∧
      net.procs (.node requester) = some (.node requester p []) ∧ p.logged = logged ∧
      net.sent (.faulty provider₃) = [J.transaction provider₃ m] ∧
      net.sent (.node provider₁) = said.map (J.transaction provider₁) := by
  obtain ⟨pa, ha, h⟩ := Option.bind_eq_some_iff.mp h
  obtain ⟨x, hacta, h⟩ := Option.bind_eq_some_iff.mp h
  obtain ⟨pb, hb, h⟩ := Option.bind_eq_some_iff.mp h
  obtain ⟨y, hactb, h⟩ := Option.bind_eq_some_iff.mp h
  obtain ⟨m₁, hm₁, h⟩ := Option.bind_eq_some_iff.mp h
  obtain ⟨pb₁, hhear, h⟩ := Option.bind_eq_some_iff.mp h
  obtain ⟨pb₂, hhear₁, h⟩ := Option.map_eq_some_iff.mp h
  obtain ⟨rfl, rfl⟩ := Prod.mk.inj h
  obtain ⟨rest, hx⟩ := List.head?_eq_some_iff.mp hm₁
  have hne : Party.node requester ≠ Party.node provider₁ := by decide
  have h₀ : (vertexNetwork J topology (fun _ => .empty) provider₃).Reachable (.boot (parties [J.toVec m])) :=
    .start ⟨_, fun _ _ => parties_boot, rfl⟩
  have h₁ := reachable_acts h₀ (i := .faulty provider₃) (p := .faulty provider₃ [J.toVec m]) (by simp [Net.boot, parties]) rfl
  have h₂ := reachable_acts h₁ (i := .node provider₁) (p := .node provider₁ pa []) (by simp [Net.acts, Net.boot, parties, ha])
    (act_node hacta)
  have h₃ := reachable_acts h₂ (i := .node requester) (p := .node requester pb []) (by simp [Net.acts, Net.boot, parties, hb, hne])
    (act_node hactb)
  have h₄ := reachable_order h₃ (k := 0) (m := J.transaction provider₃ m) (by simp [Net.acts, Net.boot, Serde.transaction])
  have h₅ := reachable_order h₄ (k := 0) (m := J.transaction provider₁ m₁) (by simp [Net.order, Net.acts, Net.boot, hx])
  have h₆ := reachable_hears h₅ (i := .node requester) (p := .node requester y.2 []) (by simp [Net.order, Net.acts, Net.boot])
    (m := J.transaction provider₃ m) (by simp [Net.order, Net.acts, Net.boot]) (hear_node (hJ _ _) hhear)
  have h₇ := reachable_hears h₆ (i := .node requester) (p := .node requester pb₁ []) (by simp [Net.hears])
    (m := J.transaction provider₁ m₁) (by simp [Net.hears, Net.order, Net.acts, Net.boot]) (hear_node (hJ _ _) hhear₁)
  refine ⟨_, pb₂, h₇, ?_, rfl, ?_, ?_⟩
  · simp [Net.hears]
  · simp [Net.hears, Net.order, Net.acts, Net.boot, Serde.transaction]
  · simp [Net.hears, Net.order, Net.acts, Net.boot, hne.symm]

end Sample

/-- A transaction of the faulty node that names another node is logged as that node's commitment. -/
theorem record_forged : ¬ ∀ (Γ : Crypto) (J : Serde) (T : LoadedTopology Γ) (scenario : NodeId → Scenario) (X : NodeId)
    (net : Net Party Peer Transaction), (vertexNetwork J T scenario X).Reachable net → ∀ node id p sessions,
      net.procs (.node node) = some (.node id p sessions) → ∀ msg ∈ p.logged, msg.origin ≠ X →
        J.transaction msg.origin msg ∈ net.sent (.node msg.origin) := by
  intro h
  obtain ⟨⟨said, logged, hheard, hlogged, hsaid⟩, -⟩ := Sample.hearing_logs
  obtain ⟨net, p, hnet, hp, rfl, -, hsent⟩ := Sample.heard_run Serde.json_receive hheard
  have hforged := h _ _ _ _ _ net hnet _ _ p _ hp Sample.forged hlogged (by decide)
  rw [show Sample.forged.origin = Sample.provider₁ from rfl, hsent] at hforged
  obtain ⟨msg, hmsg, he⟩ := List.mem_map.mp hforged
  obtain rfl := Serde.json.toVec_injective (congrArg Transaction.raw he)
  exact hsaid hmsg

/-- The third provider names itself; what the requester's process logs of other nodes they broadcast. -/
theorem logged_broadcast_sample : ∃ net p,
    (vertexNetwork Serde.json Sample.topology (fun _ => .empty) Sample.provider₃).Reachable net ∧
      net.procs (.node Sample.requester) = some (.node Sample.requester p []) ∧ Sample.own₃ ∈ p.logged ∧
      ∃ msg ∈ p.logged, msg.origin ≠ Sample.provider₃ ∧
        Serde.json.transaction msg.origin msg ∈ net.sent (.node msg.origin) := by
  obtain ⟨-, said, logged, hheard, hown, msg, hmsg, hne⟩ := Sample.hearing_logs
  obtain ⟨net, p, hnet, hp, rfl, hX, -⟩ := Sample.heard_run Serde.json_receive hheard
  refine ⟨net, p, hnet, hp, hown, msg, hmsg, hne, logged_broadcast _ _ hnet (fun tx htx m hm => ?_) hp msg hmsg hne⟩
  rw [hX] at htx
  rw [List.mem_singleton.mp htx, Serde.json_receive, Option.some.injEq] at hm
  rw [← hm]
  rfl

end VertexVeil
