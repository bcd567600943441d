import VertexVeil.Fixtures
import VertexVeil.Lemmas.Sessions

/-!
# Sessions one after the other over one transport

`returned_session`: what a session at a host returns, its runtime returns over a transport whose polls are what was delivered.
`session_appends`: what a session appends was on its way when it started or was broadcast during it, and without delay the
latter. `isolation_fails`: with a delay a session appends what was broadcast during the one before; no message carries a session,
and every session starts again in round 0 with no commitment seen.
-/

namespace VertexVeil

open Codec Broadcast

/-- What a session returns is what its runtime returns over a transport that delivers the messages the session heard. -/
theorem returned_session {Γ : Crypto} {x : Host} (h : (hosts Γ).Reachable x) {out : RuntimeOutcome}
    (hout : x.process = .returned out) :
    ∃ (c : SessionConfig) (heard : List Dated) (polls : List (Option CoordinationMessage)) (rt : Runtime Polls) (t : Polls),
      Runtime.new c.topology ({ polls, sent := [] } : Polls) c.agents c.scenario c.maxRounds = .ok rt ∧
        Runtime.runWithTransport Γ c.runId (rt.withRunSalt c.salt) = .ok (out, t) ∧
        polls.reduceOption = heard.map Dated.msg ∧ x.appended.Sublist heard := by
  obtain ⟨c, p, polls, own, hc⟩ := Host.exists_course h
  obtain ⟨rest, rt, t, hnew, hrun, hpolls⟩ := hc.returned hout
  exact ⟨c, polls.reduceOption, rest, rt, t, hnew, hrun, hpolls, hc.appended⟩

/-- In process a session takes everything that was broadcast, and hands back an empty bus. -/
theorem bus_handed_back {Γ : Crypto} {runId : String} {rt : Runtime OrderedBus} {out : RuntimeOutcome} {b : OrderedBus}
    (hq : rt.transport.queue = []) (h : Runtime.runWithTransport Γ runId rt = .ok (out, b)) : b.queue = [] := by
  obtain ⟨⟨rt', fin, fr⟩, hrun, h⟩ := Except.bind_eq_ok h
  simp only [pure, Except.pure, Except.ok.injEq, Prod.mk.injEq] at h
  have hq' : (rt.withLog runId).transport.queue = [] := hq
  exact h.2 ▸ Runtime.runRounds_keeps OrderedBus.delivers hq' hrun

/-! ## What a session appends of the sessions before -/

namespace Sample

/-- A session of one round in the second provider's own process. -/
def session₂ : SessionConfig :=
  { topology := topology.config, agents := agents.agents.filter (fun id _ => id = provider₂), scenario := .empty, maxRounds := 1,
    salt, runId := "run" }

/-- What the requester and the first provider broadcast in a round. -/
def others : List CoordinationMessage :=
  [Phase.commitments, .proposal, .proofs, .receipts].flatMap ((deliveries [receipt]).schedule 0)

/-- Everything is delivered a session late. -/
def late : List HostStep :=
  List.flatten [
    [.act], others.map .others, [.act, .next session₂, .act, .deliver, .deliver, .deliver],
    [.act, .deliver, .act, .deliver, .deliver, .act, .deliver, .act]]

/-- Everything is delivered in time. -/
def inTime : List HostStep := [.act, .deliver, .act, .next session₂, .act, .deliver]

/-- A host after steps from the first session on. -/
def hostAfter (M : Transition.Machine Host HostStep) (steps : List HostStep) : Option Host :=
  session₂.process.bind fun p => M.run (.boot p) steps

/-- A process that has finalized its session. -/
def finalizes : Process → Bool
  | .returned out => out.finalized
  | _ => false

/-- The session of a host, whether it is finalized and the sessions in which what it appended was broadcast. -/
def dates (x : Host) : Nat × Bool × List Nat := (x.session, finalizes x.process, x.appended.map (·.session))

theorem of_hostAfter {M : Transition.Machine Host HostStep} {steps : List HostStep} {d : Nat × Bool × List Nat}
    (hM : ∀ c p, SessionConfig.process c = some p → M.start (.boot p)) (h : (hostAfter M steps).map dates = some d) :
    ∃ x, M.Reachable x ∧ dates x = d := by
  obtain ⟨x, hx, hd⟩ := Option.map_eq_some_iff.mp h
  obtain ⟨p, hp, hrun⟩ := Option.bind_eq_some_iff.mp hx
  exact ⟨x, .run (.start (hM session₂ p hp)) hrun, hd⟩

theorem hosts_run : (hostAfter (hosts crypto) late).map dates = some (1, true, [0, 0, 0, 0, 0, 0, 0]) ∧
    (hostAfter (promptHosts crypto) inTime).map dates = some (1, false, [1]) := by
  decide +kernel

/-- When everything is delivered late, a session is finalized on what was broadcast during the one before. -/
theorem late_run : ∃ x, (hosts crypto).Reachable x ∧ dates x = (1, true, [0, 0, 0, 0, 0, 0, 0]) :=
  of_hostAfter (fun c p hp => ⟨c, p, hp, rfl⟩) hosts_run.1

theorem inTime_run : ∃ x, (promptHosts crypto).Reachable x ∧ dates x = (1, false, [1]) :=
  of_hostAfter (fun c p hp => ⟨c, p, hp, rfl⟩) hosts_run.2

end Sample

/-- With a delay a session appends what was broadcast during an earlier one. -/
theorem isolation_fails : ¬ ∀ (Γ : Crypto) (x : Host), (hosts Γ).Reachable x → ∀ q ∈ x.appended, ¬ q.session < x.session := by
  intro h
  obtain ⟨x, hx, hd⟩ := Sample.late_run
  simp only [Sample.dates, Prod.mk.injEq] at hd
  obtain ⟨hs, -, ha⟩ := hd
  have hmem : 0 ∈ x.appended.map Dated.session := by
    rw [ha]
    exact List.mem_cons_self
  obtain ⟨q, hq, hq0⟩ := List.mem_map.mp hmem
  refine h _ x hx q hq ?_
  omega

/-- What a session appends are, in order, messages that were on their way when it started or were broadcast during it; over a
transport without delay they were broadcast during it. -/
theorem session_appends {Γ : Crypto} {x : Host} (h : (hosts Γ).Reachable x) :
    ((∃ e, x.process = .failed e) ∨ x.process.logged.Perm (x.appended.map Dated.msg)) ∧
      (∃ own, x.appended.Sublist (x.backlog ++ own) ∧ (∀ q ∈ x.backlog, q.session < x.session) ∧
        ∀ q ∈ own, q.session = x.session) ∧
      ((promptHosts Γ).Reachable x → ∀ q ∈ x.appended, q.session = x.session) := by
  obtain ⟨c, p, polls, own, hc⟩ := Host.exists_course h
  have hsub : x.appended.Sublist (x.backlog ++ own) := by
    rw [hc.inOrder]
    exact hc.appended.trans (List.sublist_append_left _ _)
  refine ⟨hc.logged, ⟨own, hsub, hc.earlier, hc.during⟩, ?_⟩
  intro hp q hq
  have hm := hsub.subset hq
  rw [(Host.unburdened hp).backlog, List.nil_append] at hm
  exact hc.during q hm

/-- Two sessions over a transport without delay. -/
theorem session_appends_sample : ∃ x, (promptHosts Sample.crypto).Reachable x ∧ x.session = 1 ∧ x.appended ≠ [] ∧
    ∀ q ∈ x.appended, q.session = x.session := by
  obtain ⟨x, hx, hd⟩ := Sample.inTime_run
  simp only [Sample.dates, Prod.mk.injEq] at hd
  obtain ⟨hs, -, ha⟩ := hd
  obtain ⟨-, -, hprompt⟩ := session_appends (Transition.Machine.Reachable.of_restrict hx)
  refine ⟨x, hx, hs, ?_, hprompt hx⟩
  intro he
  rw [he] at ha
  simp at ha

end VertexVeil
