import VertexVeil.Sessions
import VertexVeil.Lemmas.Network

/-!
# Helpers for `Theorems/Sessions.lean`

`Course` is what the current session of a host went through: the polls its process followed, what was broadcast during it and
what it appended of what it heard. Every reachable host has one (`exists_course`). Over a transport without delay a session
starts with nothing on its way (`unburdened`).
-/

namespace VertexVeil

open Broadcast Codec

namespace Host

variable {Γ : Crypto} {x x' : Host}

/-- Everything a step can do. -/
theorem exec_cases {a : HostStep} (h : x.exec Γ a = some x') :
    (∃ s q rest, x.process = .draining s ∧ x.queue = q :: rest ∧ x' = x.deliver s q rest) ∨
      (a = .act ∧ ∃ msgs p, (protocol Γ).act x.process = some (msgs, p) ∧ x' = { x with process := p }.broadcast msgs) ∨
      (∃ msg, a = .others msg ∧ x' = x.broadcast [msg]) ∨
      ∃ c out p, x.process = .returned out ∧ SessionConfig.process c = some p ∧ x' = x.next p := by
  cases a with
  | deliver =>
    simp only [exec] at h
    split at h
    · rename_i s q rest hp hq
      exact Or.inl ⟨s, q, rest, hp, hq, (Option.some.inj h).symm⟩
    · simp at h
  | act =>
    obtain ⟨⟨msgs, p⟩, hp, rfl⟩ := Option.map_eq_some_iff.mp h
    exact Or.inr (Or.inl ⟨rfl, msgs, p, hp, rfl⟩)
  | others msg => exact Or.inr (Or.inr (Or.inl ⟨msg, rfl, (Option.some.inj h).symm⟩))
  | next c =>
    simp only [exec] at h
    split at h
    · rename_i out hout
      obtain ⟨p, hp, rfl⟩ := Option.map_eq_some_iff.mp h
      exact Or.inr (Or.inr (Or.inr ⟨c, out, p, hout, hp, rfl⟩))
    · simp at h

/-- What the current session of a host went through, from its process on: it followed polls, and of the messages it was
delivered, in the order of the transport, it appended some. -/
structure Course (Γ : Crypto) (x : Host) (c : SessionConfig) (p : Process) (polls : List (Option Dated))
    (own : List Dated) : Prop where
  boot : c.process = some p
  follows : ∃ msgs, (protocol Γ).follow p (polls.map (Option.map Dated.msg)) = some (msgs, x.process)
  inOrder : x.backlog ++ own = polls.reduceOption ++ x.queue
  earlier : ∀ q ∈ x.backlog, q.session < x.session
  during : ∀ q ∈ own, q.session = x.session
  appended : x.appended.Sublist polls.reduceOption
  logged : (∃ e, x.process = .failed e) ∨ x.process.logged.Perm (x.appended.map Dated.msg)

end Host

/-- The process of a session is about to run, and nothing is logged. -/
theorem SessionConfig.process_ready {c : SessionConfig} {p : Process} (h : c.process = some p) :
    ∃ rt : Runtime Unit, Runtime.new c.topology () c.agents c.scenario c.maxRounds = .ok rt ∧
      p = .ready ((rt.withRunSalt c.salt).withLog c.runId).state := by
  unfold SessionConfig.process at h
  split at h
  · rename_i rt hrt
    exact ⟨rt, hrt, (Option.some.inj h).symm⟩
  · simp at h

/-- The records of a process that goes on. -/
theorem Process.GoesOn.logged {s : RuntimeState} {msgs : List CoordinationMessage} {p : Process} (h : p.GoesOn s msgs) :
    (∃ e, p = .failed e) ∨ p.logged = s.log.messages := by
  cases p with
  | ready _ => exact absurd h not_false
  | draining y => exact Or.inr h.2
  | returned out => exact Or.inr h.1
  | failed e => exact Or.inl ⟨e, rfl⟩

/-- The records of a process in its session. -/
theorem Process.logged_of_state {s : RuntimeState} {p : Process} (h : p.state = some s) : p.logged = s.log.messages := by
  cases p with
  | ready _ =>
    obtain rfl := Option.some.inj h
    rfl
  | draining _ =>
    obtain rfl := Option.some.inj h
    rfl
  | returned _ => simp [Process.state] at h
  | failed _ => simp [Process.state] at h

namespace Host.Course

variable {Γ : Crypto} {x x' : Host} {c : SessionConfig} {p : Process} {polls : List (Option Dated)} {own : List Dated}

/-- A session that starts. -/
theorem start (h : c.process = some p) (hx : x.process = p) (hq : x.backlog = x.queue) (ha : x.appended = [])
    (he : ∀ q ∈ x.queue, q.session < x.session) : Course Γ x c p [] [] := by
  obtain ⟨rt, -, hp⟩ := SessionConfig.process_ready h
  refine ⟨h, ⟨[], by rw [hx]; rfl⟩, by rw [hq, List.append_nil]; rfl, fun q hm => he q (hq ▸ hm), fun q hm => absurd hm List.not_mem_nil,
    by rw [ha]; exact List.Sublist.refl _, Or.inr ?_⟩
  rw [ha, hx, hp]
  exact List.Perm.refl _

/-- What is on its way was there when the session started or was broadcast during it. -/
theorem session_le (h : Course Γ x c p polls own) {q : Dated} (hq : q ∈ x.queue) : q.session ≤ x.session := by
  have hm : q ∈ x.backlog ++ own := by
    rw [h.inOrder]
    exact List.mem_append_right _ hq
  rcases List.mem_append.mp hm with hm | hm
  · exact Nat.le_of_lt (h.earlier q hm)
  · exact Nat.le_of_eq (h.during q hm)

theorem deliver (h : Course Γ x c p polls own) {s : Session} {q : Dated} {rest : List Dated}
    (hs : x.process = .draining s) (hq : x.queue = q :: rest) :
    Course Γ (x.deliver s q rest) c p (polls ++ [some q]) own := by
  have hred : (polls ++ [some q]).reduceOption = polls.reduceOption ++ [q] := by
    rw [List.reduceOption_append, List.reduceOption_singleton]
    rfl
  refine ⟨h.boot, ?_, ?_, h.earlier, h.during, ?_, ?_⟩
  · obtain ⟨msgs, hf⟩ := h.follows
    rw [hs] at hf
    refine ⟨msgs ++ [], ?_⟩
    rw [List.map_append, Protocol.follow_append hf]
    rfl
  · rw [hred, List.append_assoc, List.singleton_append]
    exact h.inOrder.trans (by rw [hq]; rfl)
  · rw [hred]
    simp only [Host.deliver]
    split
    · exact h.appended.trans (List.sublist_append_left _ _)
    · exact h.appended.append (List.Sublist.refl _)
  · refine Or.inr ?_
    have hl : s.state.log.messages.Perm (x.appended.map Dated.msg) := by
      rcases h.logged with ⟨e, he⟩ | hl
      · rw [hs] at he
        simp at he
      · rwa [hs] at hl
    simp only [Host.deliver]
    split
    · rename_i he
      exact (List.Perm.of_eq he).trans hl
    · rename_i he
      rcases s.stage.messages_handle s.round s.state q.msg with hm | hm
      · exact absurd hm he
      · rw [List.map_append]
        exact (hm.trans (hl.cons _)).trans (List.perm_append_singleton _ _).symm

theorem broadcast (h : Course Γ x c p polls own) (msgs : List CoordinationMessage) :
    Course Γ (x.broadcast msgs) c p polls (own ++ msgs.map (Dated.mk x.session)) := by
  refine ⟨h.boot, h.follows, ?_, h.earlier, ?_, h.appended, h.logged⟩
  · rw [← List.append_assoc]
    change x.backlog ++ own ++ _ = polls.reduceOption ++ (x.queue ++ _)
    rw [h.inOrder, List.append_assoc]
  · intro q hq
    rcases List.mem_append.mp hq with hq | hq
    · exact h.during q hq
    · obtain ⟨msg, -, rfl⟩ := List.mem_map.mp hq
      rfl

theorem act (h : Course Γ x c p polls own) {msgs : List CoordinationMessage} {p' : Process}
    (hact : (protocol Γ).act x.process = some (msgs, p')) : Course Γ { x with process := p' } c p (polls ++ [none]) own := by
  have hred : (polls ++ [none]).reduceOption = polls.reduceOption := by
    rw [List.reduceOption_append, List.reduceOption_singleton, Option.toList_none, List.append_nil]
  obtain ⟨s, hs, -, hgo⟩ := act_cases hact
  refine ⟨h.boot, ?_, by rw [hred]; exact h.inOrder, h.earlier, h.during, by rw [hred]; exact h.appended, ?_⟩
  · obtain ⟨sent, hf⟩ := h.follows
    refine ⟨sent ++ (msgs ++ []), ?_⟩
    rw [List.map_append, Protocol.follow_append hf]
    simp only [List.map_cons, List.map_nil, Option.map_none, Protocol.follow, hact, Option.bind_some, Option.map_some]
  · rcases hgo.logged with he | he
    · exact Or.inl he
    · rcases h.logged with ⟨e, hfail⟩ | hl
      · rw [hfail] at hs
        simp [Process.state] at hs
      · rw [Process.logged_of_state hs] at hl
        exact Or.inr (he ▸ hl)

/-- A step within the session. -/
theorem step (h : Course Γ x c p polls own) {a : HostStep} (ha : ∀ c', a ≠ .next c') (hs : x.exec Γ a = some x') :
    ∃ polls' own', Course Γ x' c p polls' own' := by
  cases a with
  | deliver =>
    simp only [exec] at hs
    split at hs
    · rename_i s q rest hp hq
      obtain rfl := Option.some.inj hs
      exact ⟨_, own, h.deliver hp hq⟩
    · simp at hs
  | act =>
    obtain ⟨⟨msgs, p'⟩, hact, rfl⟩ := Option.map_eq_some_iff.mp hs
    exact ⟨_, _, (h.act hact).broadcast msgs⟩
  | others msg =>
    obtain rfl := Option.some.inj hs
    exact ⟨polls, _, h.broadcast [msg]⟩
  | next c' => exact absurd rfl (ha c')

/-- The next session. -/
theorem next (h : Course Γ x c p polls own) {c' : SessionConfig} {p' : Process} (hp' : c'.process = some p') :
    Course Γ (x.next p') c' p' [] [] := by
  refine .start hp' rfl rfl rfl fun q hq => ?_
  have hle : q.session ≤ x.session := h.session_le hq
  change q.session < x.session + 1
  omega

/-- What the session returns is what its runtime returns over the polls. -/
theorem returned (h : Course Γ x c p polls own) {out : RuntimeOutcome} (hout : x.process = .returned out) :
    ∃ (rest : List (Option CoordinationMessage)) (rt : Runtime Polls) (t : Polls),
      Runtime.new c.topology ({ polls := rest, sent := [] } : Polls) c.agents c.scenario c.maxRounds = .ok rt ∧
        Runtime.runWithTransport Γ c.runId (rt.withRunSalt c.salt) = .ok (out, t) ∧
        rest.reduceOption = polls.reduceOption.map Dated.msg := by
  obtain ⟨rt, hnew, rfl⟩ := SessionConfig.process_ready h.boot
  obtain ⟨msgs, hfollow⟩ := h.follows
  rw [hout] at hfollow
  obtain ⟨rest, hpolls⟩ := follow_ready hfollow
  rw [hpolls] at hfollow
  obtain ⟨t, hrun, -⟩ := run_of_follow c.runId hfollow
  refine ⟨rest, { state := rt.state, transport := { polls := rest, sent := [] } }, t, Runtime.new_transport hnew _, hrun, ?_⟩
  rw [← List.reduceOption_map, hpolls, List.reduceOption_cons_of_none]

end Host.Course

namespace Host

/-- Every reachable host has gone through a course since its session started. -/
theorem exists_course {Γ : Crypto} {x : Host} (h : (hosts Γ).Reachable x) :
    ∃ c p polls own, Course Γ x c p polls own := by
  refine h.invariant (P := fun x => ∃ c p polls own, Course Γ x c p polls own) ?_ ?_
  · rintro _ ⟨c, p, hp, rfl⟩
    exact ⟨c, p, [], [], .start hp rfl rfl rfl (fun q hq => absurd hq List.not_mem_nil)⟩
  · intro x a x' _ hx hs
    obtain ⟨c, p, polls, own, hc⟩ := hx
    rcases exec_cases hs with ⟨s, q, rest, hp, hq, rfl⟩ | ⟨-, msgs, p', hact, rfl⟩ | ⟨msg, -, rfl⟩ | ⟨c', out, p', -, hp', rfl⟩
    · exact ⟨c, p, _, own, hc.deliver hp hq⟩
    · exact ⟨c, p, _, _, (hc.act hact).broadcast msgs⟩
    · exact ⟨c, p, _, _, hc.broadcast [msg]⟩
    · refine ⟨c', p', [], [], .start hp' rfl rfl rfl ?_⟩
      intro q hq
      have hle : q.session ≤ x.session := hc.session_le hq
      change q.session < x.session + 1
      omega

/-- Nothing is on its way outside a drain loop, unless the session has failed, and nothing was when the session started. -/
structure Unburdened (x : Host) : Prop where
  idle : x.process.isDraining = true ∨ (∃ e, x.process = .failed e) ∨ x.queue = []
  backlog : x.backlog = []

/-- Over a transport without delay a host is unburdened. -/
theorem unburdened {Γ : Crypto} {x : Host} (h : (promptHosts Γ).Reachable x) : Unburdened x := by
  refine h.invariant ?_ ?_
  · rintro _ ⟨c, p, -, rfl⟩
    exact ⟨Or.inr (Or.inr rfl), rfl⟩
  · intro x a x' _ hx hs
    obtain ⟨hg, hs⟩ := Transition.Machine.exec_restrict.mp hs
    rcases exec_cases hs with ⟨s, q, rest, -, -, rfl⟩ | ⟨rfl, msgs, p', hact, rfl⟩ | ⟨msg, rfl, rfl⟩ | ⟨c', out, p', hout, -, rfl⟩
    · exact ⟨Or.inl rfl, hx.backlog⟩
    · obtain ⟨s, hst, -, hgo⟩ := act_cases hact
      -- the drain loop that ends has taken everything
      have hq : x.queue = [] := by
        rcases hx.idle with hd | ⟨e, he⟩ | hq
        · simp only [prompt, hd, Bool.not_true, Bool.false_or, List.isEmpty_iff] at hg
          exact hg
        · rw [he] at hst
          simp [Process.state] at hst
        · exact hq
      refine ⟨?_, hx.backlog⟩
      cases p' with
      | ready _ => exact absurd hgo not_false
      | draining y => exact Or.inl rfl
      | returned out =>
        refine Or.inr (Or.inr ?_)
        change x.queue ++ _ = []
        rw [hq, hgo.2]
        rfl
      | failed e => exact Or.inr (Or.inl ⟨e, rfl⟩)
    · exact ⟨Or.inl hg, hx.backlog⟩
    · have hq : x.queue = [] := by
        rcases hx.idle with hd | ⟨e, he⟩ | hq
        · rw [hout] at hd
          simp [Process.isDraining] at hd
        · rw [hout] at he
          simp at he
        · exact hq
      exact ⟨Or.inr (Or.inr hq), hq⟩

end Host

end VertexVeil
