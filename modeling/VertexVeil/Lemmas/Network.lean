import VertexVeil.Network
import VertexVeil.Lemmas.Ledger

/-!
# Helpers for `Theorems/Network.lean`

First, a process is the runtime cut at its polls: what a process returns its runtime returns over a transport with these polls,
and both broadcast the same (`run_of_follow`). Then what one step of a process can do, and what every process of a network
satisfies (`Honours`): what it says is its own and is said once, and its log holds what others said.
-/

namespace VertexVeil

open Codec Broadcast CoordinationLog RuntimeState

/-! ## A process and its runtime -/

section

variable {Γ : Crypto} {polls : List (Option CoordinationMessage)} {sent total : List CoordinationMessage}
  {out : RuntimeOutcome} {round : RoundId} {s : RuntimeState} {n : Nat}

/-- After `sent` was broadcast, a process goes on with a broadcasting step and through polls, and returns an outcome when
`total` was broadcast. -/
def Follows (Γ : Crypto) (e : Emit Process) (polls : List (Option CoordinationMessage))
    (sent total : List CoordinationMessage) (out : RuntimeOutcome) : Prop :=
  ∃ msgs, (protocol Γ).follow e.settle.2 polls = some (msgs, .returned out) ∧ sent ++ e.settle.1 ++ msgs = total

namespace Follows

/-- A process that has failed returns nothing. -/
theorem not_error {msgs : List CoordinationMessage} {e : Fault RuntimeError} :
    ¬ Follows Γ (msgs, .error e) polls sent total out := by
  rintro ⟨msgs, hf, -⟩
  cases polls with
  | nil => simp [Protocol.follow, Emit.settle] at hf
  | cons poll polls => cases poll <;> simp [Protocol.follow, protocol, Emit.settle] at hf

/-- A step before the rest: it succeeds, and the rest goes on. -/
theorem andThen {α : Type} {x : Emit α} {f : α → Emit Process} (h : Follows Γ (x.andThen f) polls sent total out) :
    ∃ a, x.2 = .ok a ∧ Follows Γ (f a) polls (sent ++ x.1) total out := by
  obtain ⟨msgs, hf, ht⟩ := h
  unfold Emit.andThen at hf ht
  split at hf
  · rename_i a ha
    rw [ha] at ht
    refine ⟨a, ha, msgs, hf, ?_⟩
    rw [← ht]
    simp only [Emit.settle, List.append_assoc]
  · rename_i e he
    rw [he] at ht
    exact absurd ⟨msgs, hf, ht⟩ not_error

/-- A process that has returned broadcasts nothing more. -/
theorem returned {o : RuntimeOutcome} (h : Follows Γ ([], .ok (.returned o)) polls sent total out) :
    o = out ∧ sent = total := by
  obtain ⟨msgs, hf, ht⟩ := h
  cases polls with
  | nil =>
    simp only [Protocol.follow, Emit.settle, Option.some.injEq, Prod.mk.injEq, Process.returned.injEq] at hf
    obtain ⟨rfl, rfl⟩ := hf
    exact ⟨rfl, by simpa [Emit.settle] using ht⟩
  | cons poll polls => cases poll <;> simp [Protocol.follow, protocol, Emit.settle] at hf

/-- A process in a drain loop hears what the loop takes of the polls, and pauses. -/
theorem draining {x : Session} (h : Follows Γ ([], .ok (.draining x)) polls sent total out) :
    Follows Γ ({ x with state := (Polls.drain polls).1.foldl (x.stage.handle x.round) x.state : Session }.pause Γ)
      (Polls.drain polls).2 sent total out := by
  obtain ⟨msgs, hf, ht⟩ := h
  simp only [Emit.settle, List.append_nil] at hf ht
  induction polls generalizing x with
  | nil => simp [Protocol.follow] at hf
  | cons poll polls ih =>
    cases poll with
    | none =>
      obtain ⟨y, hy, hf⟩ := Option.bind_eq_some_iff.mp hf
      obtain ⟨z, hz, he⟩ := Option.map_eq_some_iff.mp hf
      simp only [protocol, Option.some.injEq] at hy
      subst hy
      obtain ⟨rfl, hz'⟩ := Prod.mk.inj he
      refine ⟨z.1, ?_, ?_⟩
      · rw [← hz']
        exact hz
      · rw [← ht, List.append_assoc]
        rfl
    | some msg => exact ih hf

end Follows

namespace Runtime

/-- A step that succeeds hands over all its messages. -/
theorem emit_polls {α : Type} {e : Emit α} {a : α} (h : e.2 = .ok a) :
    emit ({ polls, sent } : Polls) e = .ok (a, { polls, sent := sent ++ e.1 }) := by
  simp only [emit, Polls.broadcastAll_eq, h]

/-- What a round leads to: its run returns the outcome, or the process falls back and goes on. -/
def Leads (Γ : Crypto) (n : Nat) (round : RoundId) (total : List CoordinationMessage) (out : RuntimeOutcome) :
    RoundOutcome × Runtime Polls → Prop
  | (.finalized, rt) => rt.transport.sent = total ∧
      out = { log := closeLog rt.state.log true round, finalized := true, finalRound := round }
  | (.fallback, rt) => Follows Γ (fallBack Γ n round rt.state) rt.transport.polls rt.transport.sent total out

theorem receiptPhase_of_follows {p : ProposalRecord} (h : Follows Γ ((s.broadcastReceipt Γ round p).andThen fun () =>
      ([], .ok (.draining { state := s, round, roundsLeft := n, stage := .receipts p }))) polls sent total out) :
    ∃ res, receiptPhase Γ round p { state := s, transport := ({ polls, sent } : Polls) } = .ok res ∧
      Leads Γ n round total out res := by
  obtain ⟨⟨⟩, hx, h⟩ := h.andThen
  obtain ⟨rfl, ht⟩ := h.draining.returned
  simp only [receiptPhase, emit_polls hx, bind, Except.bind]
  exact ⟨_, rfl, ht, rfl⟩

theorem proofPhase_of_follows {p : ProposalRecord} (h : Follows Γ ((s.broadcastProofs Γ round p).andThen fun () =>
      ([], .ok (.draining { state := s, round, roundsLeft := n, stage := .proofs p }))) polls sent total out) :
    ∃ res, proofPhase Γ round p { state := s, transport := ({ polls, sent } : Polls) } = .ok res ∧
      Leads Γ n round total out res := by
  obtain ⟨⟨⟩, hx, h⟩ := h.andThen
  have hd := h.draining
  simp only [Session.pause] at hd
  simp only [proofPhase, emit_polls hx, bind, Except.bind]
  split at hd
  · rename_i hb
    obtain ⟨res, hres, hl⟩ := receiptPhase_of_follows hd
    exact ⟨res, (if_pos hb).trans hres, hl⟩
  · rename_i hb
    exact ⟨_, if_neg hb, hd⟩

theorem proposalPhase_of_follows (h : Follows Γ ((s.broadcastProposal round).andThen fun y =>
      if ¬ y.1 then fallBack Γ n round y.2
      else ([], .ok (.draining { state := y.2, round, roundsLeft := n, stage := .proposal }))) polls sent total out) :
    ∃ res, proposalPhase Γ round { state := s, transport := ({ polls, sent } : Polls) } = .ok res ∧
      Leads Γ n round total out res := by
  obtain ⟨⟨proposed, s'⟩, hx, h⟩ := h.andThen
  simp only [proposalPhase, emit_polls hx, bind, Except.bind]
  cases proposed with
  | false => exact ⟨_, rfl, h⟩
  | true =>
    have hd := Follows.draining h
    simp only [Session.pause] at hd
    rw [if_neg (not_not.mpr rfl)]
    split at hd
    · rename_i hp
      refine ⟨(.fallback, {
        state := s'.drainProposal round (Polls.drain polls).1
        transport := { polls := (Polls.drain polls).2, sent := _ } }), ?_, hd⟩
      simp only [receive, CoordinationTransport.deliver, CoordinationTransport.flush]
      rw [show (s'.drainProposal round (Polls.drain polls).1).log.proposalOf round = none from hp]
      rfl
    · rename_i p hp
      obtain ⟨res, hres, hl⟩ := proofPhase_of_follows hd
      refine ⟨res, ?_, hl⟩
      simp only [receive, CoordinationTransport.deliver, CoordinationTransport.flush]
      rw [show (s'.drainProposal round (Polls.drain polls).1).log.proposalOf round = some p from hp]
      exact hres

theorem runOneRound_of_follows (h : Follows Γ ((s.broadcastCommitments Γ round).andThen fun s =>
      ([], .ok (.draining { state := s, round, roundsLeft := n, stage := .commitments }))) polls sent total out) :
    ∃ res, runOneRound Γ round { state := s, transport := ({ polls, sent } : Polls) } = .ok res ∧
      Leads Γ n round total out res := by
  obtain ⟨s', hx, h⟩ := h.andThen
  have hd := h.draining
  simp only [Session.pause] at hd
  simp only [runOneRound, emit_polls hx, bind, Except.bind, receive, CoordinationTransport.deliver,
    CoordinationTransport.flush]
  split at hd
  · exact absurd hd Follows.not_error
  · rename_i requester hreq
    rw [show (s'.drainCommitments round (Polls.drain polls).1).topology.requester = some requester from hreq]
    dsimp only
    split at hd
    · rename_i hc
      refine ⟨(.fallback, {
        state := (s'.drainCommitments round (Polls.drain polls).1).reject round requester.id "round" "requester_missing"
        transport := { polls := (Polls.drain polls).2, sent := _ } }), ?_, hd⟩
      exact if_pos hc
    · rename_i hc
      obtain ⟨res, hres, hl⟩ := proposalPhase_of_follows hd
      exact ⟨res, (if_neg hc).trans hres, hl⟩

/-- The rounds of a process are those of its runtime. -/
theorem runRounds_of_follows {fr : RoundId} (h : Follows Γ (beginRound Γ n fr s) polls sent total out) :
    ∃ rt, runRounds Γ n fr { state := s, transport := ({ polls, sent } : Polls) } = .ok (rt, out.finalized, out.finalRound) ∧
      rt.transport.sent = total ∧ out.log = closeLog rt.state.log out.finalized out.finalRound := by
  induction n generalizing fr s polls sent with
  | zero =>
    obtain ⟨rfl, rfl⟩ := h.returned
    exact ⟨_, rfl, rfl, rfl⟩
  | succ n ih =>
    obtain ⟨⟨o, rt⟩, hres, hl⟩ := runOneRound_of_follows h
    simp only [runRounds, hres, bind, Except.bind]
    cases o with
    | finalized =>
      obtain ⟨ht, rfl⟩ := hl
      exact ⟨rt, rfl, ht, rfl⟩
    | fallback =>
      obtain ⟨s', polls', sent'⟩ := rt
      simp only [Leads, fallBack] at hl
      split at hl
      · exact absurd hl Follows.not_error
      · rename_i rt' hrt'
        obtain ⟨m', hm', rfl⟩ := advanceFallback_ok hrt'
        simp only [advanceFallback, hm']
        exact ih hl

end Runtime

/-- A process about to run that returns has started first. -/
theorem follow_ready {polls : List (Option CoordinationMessage)} {msgs : List CoordinationMessage}
    (h : (protocol Γ).follow (.ready s) polls = some (msgs, .returned out)) : ∃ rest, polls = none :: rest := by
  cases polls with
  | nil => simp [Protocol.follow] at h
  | cons poll polls =>
    cases poll with
    | some msg => simp [Protocol.follow, protocol] at h
    | none => exact ⟨polls, rfl⟩

/-- A process that starts, follows polls and returns is its runtime over these polls: they return the same and broadcast the
same. -/
theorem run_of_follow {msgs : List CoordinationMessage} (runId : String)
    (h : (protocol Γ).follow (.ready { s with log := .new runId }) (none :: polls) = some (msgs, .returned out)) :
    ∃ t, Runtime.runWithTransport Γ runId { state := s, transport := ({ polls, sent := [] } : Polls) } = .ok (out, t) ∧
      t.sent = msgs := by
  obtain ⟨y, hy, h⟩ := Option.bind_eq_some_iff.mp h
  obtain ⟨z, hz, he⟩ := Option.map_eq_some_iff.mp h
  simp only [protocol, Option.some.injEq] at hy
  subst hy
  obtain ⟨rfl, hz'⟩ := Prod.mk.inj he
  have hfollows : Follows Γ (beginRound Γ s.maxRounds.toNat 0 { s with log := .new runId }) polls [] _ out :=
    ⟨z.1, by rw [← hz']; exact hz, rfl⟩
  obtain ⟨rt, hrun, ht, hlog⟩ := Runtime.runRounds_of_follows hfollows
  refine ⟨rt.transport, ?_, ht⟩
  simp only [Runtime.runWithTransport, Runtime.withLog, hrun, bind, Except.bind, ← hlog]
  rfl

end

/-! ## The log of a process -/

namespace CoordinationLog

variable (log : CoordinationLog)

theorem messages_appendProposal (p : ProposalRecord) :
    (log.appendProposal p).messages.Perm ({ origin := p.proposer, payload := .proposal p } :: log.messages) := by
  simp only [messages, appendProposal, List.map_append, List.map_cons, List.map_nil, List.append_assoc, List.cons_append,
    List.nil_append]
  rw [← List.append_assoc, ← List.append_assoc]
  exact List.perm_middle

theorem messages_appendProof (a : ProofArtifactRecord) :
    (log.appendProof a).messages.Perm ({ origin := a.nodeId, payload := .proof a } :: log.messages) := by
  simp only [messages, appendProof, List.map_append, List.map_cons, List.map_nil]
  rw [← List.append_assoc, List.append_assoc _ [_], List.singleton_append]
  exact List.perm_middle

theorem messages_appendReceipt (r : CompletionReceiptRecord) :
    (log.appendReceipt r).messages.Perm ({ origin := r.provider, payload := .receipt r } :: log.messages) := by
  simp only [messages, appendReceipt, List.map_append, List.map_cons, List.map_nil]
  rw [← List.append_assoc]
  exact List.perm_append_singleton _ _

theorem messages_appendCommitment (c : CommitmentRecord) : (log.appendCommitment c).2.messages = log.messages ∨
    (log.appendCommitment c).2.messages.Perm ({ origin := c.nodeId, payload := .commitment c } :: log.messages) := by
  unfold appendCommitment
  split
  · exact Or.inl rfl
  · refine Or.inr ?_
    simp only [messages, List.map_append, List.map_cons, List.map_nil, List.append_assoc, List.cons_append, List.nil_append]
    exact List.perm_middle

end CoordinationLog

namespace RuntimeState

theorem messages_of_rejects {round : RoundId} {s s' : RuntimeState} (h : Rejects round s s') :
    s'.log.messages = s.log.messages := by
  obtain ⟨_, _, _, -, rfl⟩ := h
  rfl

theorem messages_broadcastCommitments {Γ : Crypto} {round : RoundId} {s s' : RuntimeState}
    {msgs : List CoordinationMessage} (h : s.broadcastCommitments Γ round = (msgs, .ok s')) :
    s'.log.messages = s.log.messages :=
  broadcastCommitmentsOf_invariant (P := fun s' => s'.log.messages = s.log.messages)
    (fun _ _ hs hr => (messages_of_rejects hr).trans hs) (fun _ _ _ hs _ _ => hs) rfl h

end RuntimeState

/-- A drain loop logs the message it takes, under the message's own origin, or logs no record. -/
theorem Stage.messages_handle (stage : Stage) (round : RoundId) (s : RuntimeState) (msg : CoordinationMessage) :
    (stage.handle round s msg).log.messages = s.log.messages ∨
      (stage.handle round s msg).log.messages.Perm (msg :: s.log.messages) := by
  obtain ⟨origin, payload⟩ := msg
  cases stage with
  | commitments =>
    rcases handleCommitment_cases round s ⟨origin, payload⟩ with ⟨c, rfl, rfl, -, ⟨-, h⟩ | ⟨-, h⟩⟩ | h
    · rw [handle, h]
      exact messages_appendCommitment _ _
    · rw [handle, h]
      exact messages_appendCommitment _ _
    · exact Or.inl (messages_of_rejects h)
  | proposal =>
    rcases handleProposal_cases round s ⟨origin, payload⟩ with ⟨p, rfl, rfl, -, h⟩ | h
    · rw [handle, h]
      exact Or.inr (messages_appendProposal _ _)
    · exact Or.inl (messages_of_rejects h)
  | proofs _ =>
    rcases handleProof_cases round s ⟨origin, payload⟩ with ⟨a, c, rfl, rfl, -, -, -, h⟩ | h
    · rw [handle, h]
      exact Or.inr (messages_appendProof _ _)
    · exact Or.inl (messages_of_rejects h)
  | receipts _ =>
    rcases handleReceipt_cases round s ⟨origin, payload⟩ with ⟨r, rfl, rfl, -, -, h⟩ | ⟨-, h⟩
    · rw [handle, h]
      exact Or.inr (messages_appendReceipt _ _)
    · exact Or.inl (messages_of_rejects h)

theorem Stage.agents_handle (stage : Stage) (round : RoundId) (s : RuntimeState) (msg : CoordinationMessage) :
    (stage.handle round s msg).agents = s.agents := by
  cases stage with
  | commitments => exact (sameFrame_handleCommitment round s msg).agents
  | proposal => exact (sameFrame_handleProposal round s msg).agents
  | proofs _ => exact (sameFrame_handleProof round s msg).agents
  | receipts _ => exact (sameFrame_handleReceipt round s msg).agents

/-- A process that goes on from a state after it broadcast messages: its agents and its records are those of the state, and
where it returns it broadcast nothing. -/
def Process.GoesOn (s : RuntimeState) (msgs : List CoordinationMessage) : Process → Prop
  | .ready _ => False
  | .draining x => x.state.agents = s.agents ∧ x.state.log.messages = s.log.messages
  | .returned out => out.log.messages = s.log.messages ∧ msgs = []
  | .failed _ => True

/-- A broadcasting step of a process in a state: it broadcasts for its own agents, and goes on. -/
structure Emit.StepsFrom (s : RuntimeState) (e : Emit Process) : Prop where
  origin : ∀ msg ∈ e.1, msg.origin ∈ s.agents
  goesOn : ∀ p, e.2 = .ok p → p.GoesOn s e.1

namespace Emit.StepsFrom

variable {Γ : Crypto} {s s' : RuntimeState} {round : RoundId}

theorem congr {e : Emit Process} (hagents : s'.agents = s.agents) (hlog : s'.log.messages = s.log.messages)
    (h : e.StepsFrom s') : e.StepsFrom s := by
  refine ⟨fun msg hm => hagents ▸ h.origin msg hm, ?_⟩
  intro p hp
  have hgo := h.goesOn p hp
  cases p with
  | ready _ => exact hgo
  | draining x => exact ⟨hgo.1.trans hagents, hgo.2.trans hlog⟩
  | returned out => exact ⟨hgo.1.trans hlog, hgo.2⟩
  | failed _ => trivial

theorem error {msgs : List CoordinationMessage} {e : Fault RuntimeError} (h : ∀ msg ∈ msgs, msg.origin ∈ s.agents) :
    Emit.StepsFrom s (msgs, .error e) :=
  ⟨h, fun _ hp => by simp at hp⟩

/-- A broadcast, and into a drain loop. -/
theorem draining {α : Type} {x : Emit α} {f : α → Session} (hx : ∀ msg ∈ x.1, msg.origin ∈ s.agents)
    (h : ∀ a, x.2 = .ok a → (f a).state.agents = s.agents ∧ (f a).state.log.messages = s.log.messages) :
    (x.andThen fun a => ([], .ok (.draining (f a)))).StepsFrom s := by
  unfold Emit.andThen
  split
  · rename_i a ha
    refine ⟨by rw [List.append_nil]; exact hx, ?_⟩
    intro p hp
    obtain rfl := Except.ok.inj hp
    exact h a ha
  · exact error hx

theorem beginRound (n : Nat) (fr : RoundId) : (beginRound Γ n fr s).StepsFrom s := by
  cases n with
  | zero =>
    refine ⟨fun msg hm => absurd hm List.not_mem_nil, ?_⟩
    intro p hp
    obtain rfl := Except.ok.inj hp
    exact ⟨rfl, rfl⟩
  | succ n =>
    exact draining (fun msg hm => origin_broadcastCommitments hm) (fun s' hs' =>
      ⟨(sameFrame_broadcastCommitments (Prod.ext rfl hs')).agents, messages_broadcastCommitments (Prod.ext rfl hs')⟩)

theorem fallBack (n : Nat) : (fallBack Γ n round s).StepsFrom s := by
  unfold VertexVeil.fallBack
  split
  · exact error (fun msg hm => absurd hm List.not_mem_nil)
  · rename_i rt hrt
    obtain ⟨m', -, rfl⟩ := Runtime.advanceFallback_ok hrt
    refine congr ?_ ?_ (beginRound n round)
    · rfl
    · rfl

theorem pause (x : Session) : (x.pause Γ).StepsFrom x.state := by
  obtain ⟨s, round, n, stage⟩ := x
  have hnone : ∀ msg ∈ ([] : List CoordinationMessage), msg.origin ∈ s.agents := fun msg hm => absurd hm List.not_mem_nil
  cases stage with
  | commitments =>
    simp only [Session.pause]
    split
    · exact error hnone
    · split
      · refine congr ?_ ?_ (fallBack n)
        · rfl
        · rfl
      · have hx : ∀ msg ∈ (s.broadcastProposal round).1, msg.origin ∈ s.agents := fun msg hm => origin_broadcastProposal hm
        unfold Emit.andThen
        split
        · rename_i y hy
          obtain ⟨ok, s'⟩ := y
          dsimp only
          rcases broadcastProposal_cases (Prod.ext rfl hy) with ⟨rfl, rfl⟩ | ⟨rfl, hmsgs, hr⟩
          · rw [if_neg (not_not.mpr rfl), List.append_nil]
            refine ⟨hx, ?_⟩
            intro p hp
            obtain rfl := Except.ok.inj hp
            exact ⟨rfl, rfl⟩
          · have he : (s.broadcastProposal round).1 = [] := hmsgs
            rw [if_pos Bool.false_ne_true, he, List.nil_append]
            exact (fallBack n).congr (SameFrame.of_rejects hr).agents (messages_of_rejects hr)
        · exact error hx
  | proposal =>
    simp only [Session.pause]
    split
    · exact fallBack n
    · refine draining (fun msg hm => ?_) (fun _ _ => ⟨rfl, rfl⟩)
      obtain ⟨m, hmem, _, rfl⟩ := broadcastProofs_msgs hm
      exact hmem
  | proofs p =>
    simp only [Session.pause]
    split
    · refine draining (fun msg hm => ?_) (fun _ _ => ⟨rfl, rfl⟩)
      obtain ⟨m, hmem, _, rfl⟩ := broadcastReceipt_msgs hm
      exact hmem
    · exact fallBack n
  | receipts p =>
    refine ⟨hnone, ?_⟩
    intro p hp
    obtain rfl := Except.ok.inj hp
    exact ⟨rfl, rfl⟩

end Emit.StepsFrom

/-- The one agent of a node's own process. -/
theorem own_agent {node id : NodeId} {agent a : AgentState} (h : ((∅ : Agents).insert node agent)[id]? = some a) :
    id = node ∧ a = agent := by
  rw [Std.TreeMap.getElem?_insert] at h
  split at h
  · rename_i he
    exact ⟨(compare_eq_iff_eq.mp he).symm, (Option.some.inj h).symm⟩
  · simp at h

/-- A node's process before a session: nothing is logged, and the node's own agent is the only one. -/
theorem Boots.ready {Γ : Crypto} {T : LoadedTopology Γ} {scenario : NodeId → Scenario} {node : NodeId} {p : Process}
    (h : Boots T scenario node p) : ∃ s, p = .ready s ∧ s.log.messages = [] ∧ ∀ n ∈ s.agents, n = node := by
  obtain ⟨L, agent, maxRounds, rt, salt, runId, -, hnew, rfl⟩ := h
  obtain rfl := Runtime.new_eq_ok hnew
  refine ⟨_, rfl, rfl, ?_⟩
  intro n hn
  obtain ⟨a, ha⟩ := Option.isSome_iff_exists.mp (Std.TreeMap.mem_iff_isSome_getElem?.mp hn)
  exact (own_agent ha).1

/-- The state of a process in its session. -/
def Process.state : Process → Option RuntimeState
  | .ready s => some s
  | .draining x => some x.state
  | .returned _ => none
  | .failed _ => none

/-- A process acts from its state. -/
theorem act_cases {Γ : Crypto} {p p' : Process} {msgs : List CoordinationMessage} (h : (protocol Γ).act p = some (msgs, p')) :
    ∃ s, p.state = some s ∧ (∀ msg ∈ msgs, msg.origin ∈ s.agents) ∧ p'.GoesOn s msgs := by
  have hsettle : ∀ {s} {e : Emit Process}, e.StepsFrom s → e.settle = (msgs, p') →
      (∀ msg ∈ msgs, msg.origin ∈ s.agents) ∧ p'.GoesOn s msgs := by
    intro s e he hs
    obtain ⟨rfl, rfl⟩ := Prod.mk.inj hs
    refine ⟨he.origin, ?_⟩
    split
    · exact he.goesOn _ ‹_›
    · trivial
  cases p with
  | ready s => exact ⟨s, rfl, hsettle (.beginRound s.maxRounds.toNat 0) (Option.some.inj h)⟩
  | draining x => exact ⟨x.state, rfl, hsettle (.pause x) (Option.some.inj h)⟩
  | returned out => simp [protocol] at h
  | failed e => simp [protocol] at h

end VertexVeil
