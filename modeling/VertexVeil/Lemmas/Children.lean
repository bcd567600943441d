import VertexVeil.Lemmas.Orchestrator

/-!
# Helpers about the orchestrator's children: what every step keeps

The invariant is in parts: which children were started (`Started`), what was killed and started again (`Injected`), what became of
the lines (`Events`) and where the loop ends (`Ended`).
-/

namespace VertexVeil

open Codec Jobs Orchestrate

namespace OrchestratorAux

variable {args : OrchestrateArgs} {specs : List NodeSpec} {s s' : Orchestration}

/-! ## The children that were started -/

/-- The commands of the nodes, in order. -/
def firsts (args : OrchestrateArgs) (specs : List NodeSpec) : List ChildCommand :=
  specs.zipIdx.map fun x => spawnOne args x.1 specs x.2 false

theorem getElem?_firsts (args : OrchestrateArgs) (specs : List NodeSpec) (idx : Nat) :
    (firsts args specs)[idx]? = specs[idx]?.map fun spec => spawnOne args spec specs idx false := by
  rw [firsts, List.getElem?_map, List.getElem?_zipIdx, Nat.zero_add]
  cases specs[idx]? <;> rfl

theorem length_firsts (args : OrchestrateArgs) (specs : List NodeSpec) : (firsts args specs).length = specs.length := by
  rw [firsts, List.length_map, List.length_zipIdx]

/-- Nodes are told apart by their aliases. -/
theorem place_of_alias (hn : (specs.map (·.nodeAlias)).Nodup) {i j : Nat} {a b : NodeSpec} (ha : specs[i]? = some a)
    (hb : specs[j]? = some b) (h : a.nodeAlias = b.nodeAlias) : i = j := by
  have hlt : i < (specs.map (·.nodeAlias)).length := by
    rw [List.length_map]
    exact (List.getElem?_eq_some_iff.mp ha).1
  refine (List.getElem?_inj hlt hn).mp ?_
  rw [List.getElem?_map, List.getElem?_map, ha, hb, Option.map_some, Option.map_some, h]

/-- The first `k` nodes have been started, then those that were started again. -/
structure Started (args : OrchestrateArgs) (specs : List NodeSpec) (s : Orchestration) (k : Nat) (again : List ChildCommand) :
    Prop where
  le : k ≤ specs.length
  commands : s.table.jobs.map (·.data.command) = (firsts args specs).take k ++ again
  names : ∀ p ∈ s.table.jobs, p.name = p.data.command.nodeAlias
  starting : ∀ idx, s.point = .starting idx → idx = k ∧ again = []
  unfinished : k < specs.length → s.point = .starting k ∨ ∃ a, s.point = .failed (.spawn a)

namespace Started

variable {k : Nat} {again : List ChildCommand}

theorem length (h : Started args specs s k again) : s.table.jobs.length = k + again.length := by
  have := congrArg List.length h.commands
  rwa [List.length_map, List.length_append, List.length_take, length_firsts, Nat.min_eq_left h.le] at this

/-- A job that was started first is one of the nodes, by its place. -/
theorem first (h : Started args specs s k again) {pid : Nat} {p : Job Text Child} (hp : s.table.jobs[pid]? = some p) (hlt : pid < k) :
    ∃ spec, specs[pid]? = some spec ∧ p.data.command = spawnOne args spec specs pid false ∧ p.name = spec.nodeAlias := by
  have hc := congrArg (·[pid]?) h.commands
  have hshort : pid < ((firsts args specs).take k).length := by
    rw [List.length_take, length_firsts, Nat.min_eq_left h.le]
    exact hlt
  simp only [List.getElem?_map, hp, Option.map_some, List.getElem?_append_left hshort, List.getElem?_take_of_lt hlt,
    getElem?_firsts] at hc
  obtain ⟨spec, hspec, hcommand⟩ := Option.map_eq_some_iff.mp hc.symm
  exact ⟨spec, hspec, hcommand.symm, (h.names p (List.mem_of_getElem? hp)).trans (by rw [← hcommand]; rfl)⟩

/-- While none was started again, the jobs have different names. -/
theorem name_injective (hn : (specs.map (·.nodeAlias)).Nodup) (h : Started args specs s k []) {pid pid' : Nat} {p p' : Job Text Child}
    (hp : s.table.jobs[pid]? = some p) (hp' : s.table.jobs[pid']? = some p') (hname : p.name = p'.name) : pid = pid' := by
  have hlt := (List.getElem?_eq_some_iff.mp hp).1
  have hlt' := (List.getElem?_eq_some_iff.mp hp').1
  rw [h.length, List.length_nil, Nat.add_zero] at hlt hlt'
  obtain ⟨spec, hspec, -, hs⟩ := h.first hp hlt
  obtain ⟨spec', hspec', -, hs'⟩ := h.first hp' hlt'
  exact place_of_alias hn hspec hspec' (hs.symm.trans (hname.trans hs'))

end Started

/-! ## The child that was killed -/

/-- What becomes of a child that was killed at a time: nothing, or it is to be started again, or it was. -/
inductive Rejoining (args : OrchestrateArgs) (specs : List NodeSpec) (s : Orchestration) (time : Nat) : List ChildCommand → Prop where
  | idle : s.rejoinSpawnAt = none → Rejoining args specs s time []
  | pending {ms} : args.rejoinAfterMs = some ms → s.rejoinSpawnAt = some (time + ms.toNat) → Rejoining args specs s time []
  | done {ms idx spec p} : args.rejoinAfterMs = some ms → s.rejoinSpawnAt = none → specs[idx]? = some spec →
      spec.nodeAlias = failTargetAlias args specs → s.table.jobs[specs.length]? = some p → time + ms.toNat ≤ p.data.spawnedAt →
      Rejoining args specs s time [spawnOne args spec specs idx true]

/-- The target was killed at a time, after it had said that the round was over. -/
structure Killed (args : OrchestrateArgs) (specs : List NodeSpec) (s : Orchestration) (pid time : Nat) : Prop where
  once : s.killedOnce = true
  kills : s.kills = [(pid, time)]
  first : pid < specs.length
  job : ∃ p, s.table.jobs[pid]? = some p ∧ p.name = failTargetAlias args specs ∧ p.signalled = true
  said : ∃ round, args.failAtRound = some round ∧
    { pid, event := .roundCommitted (failTargetAlias args specs) round } ∈ s.observed

/-- No child was killed, or the target was. -/
inductive Injected (args : OrchestrateArgs) (specs : List NodeSpec) (s : Orchestration) : List ChildCommand → Prop where
  | quiet : s.killedOnce = false → s.kills = [] → s.rejoinSpawnAt = none → Injected args specs s []
  | killed {pid time again} : Killed args specs s pid time → Rejoining args specs s time again → Injected args specs s again

/-! ## The lines -/

/-- The round of an event of a child. -/
def roundFrom (pid : Nat) (e : Sent) : Option UInt64 :=
  match e.event with
  | .roundCommitted _ round => if e.pid = pid then some round else none
  | .childExited _ _ => none

/-- Every event is a round that a child has printed to be over; and of each child the events that were sent are those lines its
thread has read, in order. -/
structure Events (s : Orchestration) : Prop where
  source : ∀ e ∈ s.observed ++ s.channel, ∃ p round, s.table.jobs[e.pid]? = some p ∧ e.event = .roundCommitted p.name round
  read : ∀ (pid : Nat) p, s.table.jobs[pid]? = some p → p.data.read ≤ p.data.printed.length
  fifo : ∀ (pid : Nat) p, s.table.jobs[pid]? = some p →
    (s.observed ++ s.channel).filterMap (roundFrom pid) = (p.data.printed.take p.data.read).filterMap parseRoundCommitted

/-! ## The end -/

/-- When the target has said that the round is over a child was killed, unless the one that said it is not at large. -/
def Due (args : OrchestrateArgs) (specs : List NodeSpec) (s : Orchestration) : Prop :=
  ∀ e ∈ s.observed, ∀ round, e.event = .roundCommitted (failTargetAlias args specs) round → args.failAtRound = some round →
    s.killedOnce = true ∨ ∃ p, s.table.jobs[e.pid]? = some p ∧ p.atLarge = false

/-- What holds at the points of the loop, and where it ends. -/
structure Ended (args : OrchestrateArgs) (specs : List NodeSpec) (s : Orchestration) : Prop where
  checking : ∀ todo toRemove, s.point = .checking todo toRemove → ∀ a ∈ toRemove, ∀ (pid : Nat) p,
    s.table.roster[a]? = some pid → s.table.jobs[pid]? = some p → p.running = false
  ends : (s.point = .returned ∨ ∃ why, s.point = .failed (.timeout why)) → ∀ p ∈ s.table.jobs, p.atLarge = false
  signalled : ∀ (pid : Nat) p, s.table.jobs[pid]? = some p → p.signalled = true →
    (∃ time, (pid, time) ∈ s.kills) ∨ ∃ why, s.point = .failed (.timeout why)
  panicked : s.point ≠ .panicked
  due : Due args specs s

/-- The invariant of the orchestrator. -/
structure Sound (args : OrchestrateArgs) (specs : List NodeSpec) (s : Orchestration) (k : Nat) (again : List ChildCommand) : Prop where
  watched : s.table.Watched
  started : Started args specs s k again
  injected : Injected args specs s again
  events : Events s
  ended : Ended args specs s

/-! ## Which names are free -/

/-- Whether the orchestrator is in its loop. -/
def inLoop : OrchPoint → Bool
  | .looping | .receiving _ | .checking _ _ => true
  | _ => false

variable {k : Nat} {again : List ChildCommand}

namespace Started

/-- The next node has no child yet. -/
theorem fresh (hn : (specs.map (·.nodeAlias)).Nodup) (h : Started args specs s k again) {idx : Nat} {spec : NodeSpec}
    (hp : s.point = .starting idx) (hspec : specs[idx]? = some spec) {pid : Nat} {p : Job Text Child}
    (hjob : s.table.jobs[pid]? = some p) : p.name ≠ spec.nodeAlias := by
  obtain ⟨rfl, rfl⟩ := h.starting idx hp
  intro hname
  have hlt := (List.getElem?_eq_some_iff.mp hjob).1
  rw [h.length, List.length_nil, Nat.add_zero] at hlt
  obtain ⟨spec', hspec', -, hname'⟩ := h.first hjob hlt
  exact absurd (place_of_alias hn hspec' hspec (hname'.symm.trans hname)) (Nat.ne_of_lt hlt)

/-- In the loop every node has been started. -/
theorem complete (h : Started args specs s k again) (hloop : inLoop s.point = true) : k = specs.length := by
  by_contra hne
  rcases h.unfinished (Nat.lt_of_le_of_ne h.le hne) with hp | ⟨a, hp⟩ <;> rw [hp] at hloop <;> cases hloop

end Started

/-- When a child is to be started again, the target was killed and none has been. -/
theorem Injected.pending (h : Injected args specs s again) {time : Nat} (ht : s.rejoinSpawnAt = some time) :
    again = [] ∧ ∃ pid since ms, Killed args specs s pid since ∧ args.rejoinAfterMs = some ms ∧ time = since + ms.toNat := by
  cases h with
  | quiet _ _ hnone => exact absurd (hnone.symm.trans ht) (by simp)
  | killed hk hr =>
    cases hr with
    | idle hnone => exact absurd (hnone.symm.trans ht) (by simp)
    | pending hms hr => exact ⟨rfl, _, _, _, hk, hms, Option.some.inj (ht.symm.trans hr)⟩
    | done _ hnone _ _ _ _ => exact absurd (hnone.symm.trans ht) (by simp)

/-- While no child was killed, none was started again. -/
theorem Injected.nil (h : Injected args specs s again) (honce : s.killedOnce = false) :
    again = [] ∧ s.kills = [] ∧ s.rejoinSpawnAt = none := by
  cases h with
  | quiet _ hkills hnone => exact ⟨rfl, hkills, hnone⟩
  | killed hk _ => exact absurd (honce.symm.trans hk.once) (by decide)

/-- The child that is to be started again is not at large. -/
theorem Sound.rejoin_free (hn : (specs.map (·.nodeAlias)).Nodup) (hs : Sound args specs s k again) {time : Nat}
    (ht : s.rejoinSpawnAt = some time) {pid : Nat} {p : Job Text Child} (hp : s.table.jobs[pid]? = some p)
    (hname : p.name = failTargetAlias args specs) : p.atLarge = false := by
  obtain ⟨rfl, pid', since, ms, hk, -, -⟩ := hs.injected.pending ht
  obtain ⟨p', hp', hname', hsig⟩ := hk.job
  obtain rfl := hs.started.name_injective hn hp hp' (hname.trans hname'.symm)
  obtain rfl := Option.some.inj (hp.symm.trans hp')
  rw [Job.atLarge, hsig]
  exact Bool.and_false _

/-- No thread says that a child has ended. -/
theorem Events.not_exited (h : Events s) {e : Sent} {rest : List Sent} (hc : s.channel = e :: rest) (nodeAlias : Text) (code : Int) :
    e.event ≠ .childExited nodeAlias code := by
  obtain ⟨p, round, -, he⟩ := h.source e (List.mem_append_right _ (hc ▸ List.mem_cons_self))
  rw [he]
  exact nofun

/-! ## What a step keeps -/

theorem Stepped.watched (h : Stepped args specs s s') (hn : (specs.map (·.nodeAlias)).Nodup) (hs : Sound args specs s k again) :
    s'.table.Watched := by
  cases h with
  | print line _ _ => exact hs.watched.update _ _
  | finish pid => exact hs.watched.finish pid
  | read _ _ _ => exact hs.watched.update _ _
  | launch hp hspec => exact hs.watched.start fun pid p hjob hname => absurd hname (hs.started.fresh hn hp hspec hjob)
  | expire _ _ => exact hs.watched.signalAll
  | rejoin _ ht _ hidx hspec =>
    refine hs.watched.start fun pid p hjob hname => hs.rejoin_free hn ht hjob (hname.trans ?_)
    obtain ⟨hlt, htarget, -⟩ := List.findIdx?_eq_some_iff_getElem.mp hidx
    obtain rfl := Option.some.inj ((List.getElem?_eq_getElem hlt).symm.trans hspec)
    exact of_decide_eq_true htarget
  | kill _ _ _ _ _ _ => exact hs.watched.signal _
  | exited _ hc he => exact absurd he (hs.events.not_exited hc _ _)
  | sweep hp =>
    refine hs.watched.strike fun a ha pid p hr hjob => ?_
    rw [Job.atLarge, hs.ended.checking _ _ hp a ha pid p hr hjob]
    rfl
  | _ => exact hs.watched

/-! ## Which children there are, step by step -/

/-- The child that is started. -/
theorem getElem?_launch (s : Orchestration) (command : ChildCommand) (point : OrchPoint) :
    (s.launch command point).table.jobs[s.table.jobs.length]? = some
      { name := command.nodeAlias, data := { command, spawnedAt := s.now, printed := [], read := 0 }, running := true,
        signalled := false } := (Table.getElem?_start _ _ _ _).trans (if_pos rfl)

/-- A child's name and command. -/
def label (p : Job Text Child) : Text × ChildCommand := (p.name, p.data.command)

namespace Started

/-- No child was started, and the nodes are not at another one. -/
theorem keep (h : Started args specs s k again) (hlabels : s'.table.jobs.map label = s.table.jobs.map label)
    (hstart : ∀ idx, s'.point = .starting idx → s.point = .starting idx)
    (hunfinished : k < specs.length → s'.point = s.point ∨ ∃ a, s'.point = .failed (.spawn a)) : Started args specs s' k again where
  le := h.le
  commands := by
    have := congrArg (List.map Prod.snd) hlabels
    rw [List.map_map, List.map_map] at this
    exact this.trans h.commands
  names p hp := by
    have hm : label p ∈ s.table.jobs.map label := hlabels ▸ List.mem_map_of_mem hp
    obtain ⟨q, hq, he⟩ := List.mem_map.mp hm
    obtain ⟨hname, hcommand⟩ := Prod.mk.inj he
    rw [← hname, ← hcommand]
    exact h.names q hq
  starting idx hp := h.starting idx (hstart idx hp)
  unfinished hlt := by
    rcases hunfinished hlt with hp | hp
    · exact hp ▸ h.unfinished hlt
    · exact .inr hp

/-- No child was started, and the nodes all were. -/
theorem after (h : Started args specs s k again) (hk : k = specs.length)
    (hlabels : s'.table.jobs.map label = s.table.jobs.map label) (hstart : ∀ idx, s'.point ≠ .starting idx) :
    Started args specs s' k again :=
  h.keep hlabels (fun idx hp => absurd hp (hstart idx)) fun hlt => absurd hk (Nat.ne_of_lt hlt)

/-- A step of the loop that starts no child. -/
theorem loop (h : Started args specs s k again) (hloop : inLoop s.point = true)
    (hlabels : s'.table.jobs.map label = s.table.jobs.map label) (hstart : ∀ idx, s'.point ≠ .starting idx) :
    Started args specs s' k again := h.after (h.complete hloop) hlabels hstart

/-- The next node was started. -/
theorem launch (h : Started args specs s k again) {spec : NodeSpec} (hp : s.point = .starting k) (hspec : specs[k]? = some spec) :
    Started args specs (s.launch (spawnOne args spec specs k false) (.starting (k + 1))) (k + 1) [] where
  le := (List.getElem?_eq_some_iff.mp hspec).1
  commands := by
    obtain ⟨-, rfl⟩ := h.starting k hp
    have hnext : (firsts args specs).take (k + 1) = (firsts args specs).take k ++ [spawnOne args spec specs k false] := by
      rw [List.take_add_one, getElem?_firsts, hspec]
      rfl
    rw [hnext, List.append_nil]
    simp only [Orchestration.launch, Table.start, List.map_append, List.map_cons, List.map_nil, h.commands, List.append_nil]
  names p hm := by
    rcases List.mem_append.mp hm with hm | hm
    · exact h.names p hm
    · exact List.mem_singleton.mp hm ▸ rfl
  starting idx hp' := ⟨(OrchPoint.starting.inj hp').symm, rfl⟩
  unfinished _ := .inl rfl

/-- A node was started again. -/
theorem rejoin (h : Started args specs s k []) (hk : k = specs.length) (spec : NodeSpec) (idx : Nat) (since : Nat) :
    Started args specs (({ s with rejoinSpawnAt := none } : Orchestration).launch (spawnOne args spec specs idx true)
      (.receiving since)) k [spawnOne args spec specs idx true] where
  le := h.le
  commands := by
    simp only [Orchestration.launch, Table.start, List.map_append, List.map_cons, List.map_nil, h.commands, List.append_nil]
  names p hm := by
    rcases List.mem_append.mp hm with hm | hm
    · exact h.names p hm
    · exact List.mem_singleton.mp hm ▸ rfl
  starting _ hp := nomatch hp
  unfinished hlt := absurd hk (Nat.ne_of_lt hlt)

end Started

theorem Rejoining.mono {time : Nat} (h : Rejoining args specs s time again) (hrejoin : s'.rejoinSpawnAt = s.rejoinSpawnAt)
    (he : Evolved s.table s'.table) : Rejoining args specs s' time again := by
  cases h with
  | idle hnone => exact .idle (hrejoin.trans hnone)
  | pending hms hr => exact .pending hms (hrejoin.trans hr)
  | done hms hnone hspec hname hp hat =>
    obtain ⟨p', hp', hl⟩ := he _ _ hp
    exact .done hms (hrejoin.trans hnone) hspec hname hp' (hl.spawnedAt ▸ hat)

theorem Killed.mono {pid time : Nat} (h : Killed args specs s pid time) (honce : s'.killedOnce = s.killedOnce)
    (hkills : s'.kills = s.kills) (he : Evolved s.table s'.table) (hobserved : s.observed ⊆ s'.observed) :
    Killed args specs s' pid time := by
  obtain ⟨p, hp, hname, hsig⟩ := h.job
  obtain ⟨p', hp', hl⟩ := he _ _ hp
  obtain ⟨round, hat, hm⟩ := h.said
  exact ⟨honce.trans h.once, hkills.trans h.kills, h.first, ⟨p', hp', hl.name.trans hname, hl.signalled hsig⟩, round, hat, hobserved hm⟩

/-- Nothing was killed and nothing started again. -/
theorem Injected.mono (h : Injected args specs s again) (honce : s'.killedOnce = s.killedOnce) (hkills : s'.kills = s.kills)
    (hrejoin : s'.rejoinSpawnAt = s.rejoinSpawnAt) (he : Evolved s.table s'.table) (hobserved : s.observed ⊆ s'.observed) :
    Injected args specs s' again := by
  cases h with
  | quiet h1 h2 h3 => exact .quiet (honce.trans h1) (hkills.trans h2) (hrejoin.trans h3)
  | killed hk hr => exact .killed (hk.mono honce hkills he hobserved) (hr.mono hrejoin he)

/-- The child that is killed is the one that said that the round was over. -/
theorem Sound.sender (hn : (specs.map (·.nodeAlias)).Nodup) (hs : Sound args specs s k []) {e : Sent} {rest : List Sent}
    {name : Text} {round : UInt64} {pid : Nat} (hc : s.channel = e :: rest) (he : e.event = .roundCommitted name round)
    (hr : s.table.roster[name]? = some pid) : e = { pid, event := .roundCommitted name round } := by
  obtain ⟨p, round', hp, he'⟩ := hs.events.source e (List.mem_append_right _ (hc ▸ List.mem_cons_self))
  obtain ⟨p', hp', hname⟩ := hs.watched.named name pid hr
  have hsame : name = p.name := (OrchEvent.roundCommitted.inj (he.symm.trans he')).1
  rw [← hs.started.name_injective hn hp hp' (hsame.symm.trans hname.symm), ← he]

/-- The node that is to be started again is there. -/
theorem Sound.target_found (hs : Sound args specs s k again) {time : Nat} (ht : s.rejoinSpawnAt = some time) (hp : s.point = .looping) :
    specs.findIdx? (·.nodeAlias = failTargetAlias args specs) ≠ none := by
  obtain ⟨rfl, pid, since, ms, hk, -, -⟩ := hs.injected.pending ht
  obtain ⟨p, hp', hname, -⟩ := hk.job
  have hall : k = specs.length := hs.started.complete (hp ▸ rfl)
  obtain ⟨spec, hspec, -, hname'⟩ := hs.started.first hp' (hall ▸ hk.first)
  intro hnone
  have := List.findIdx?_eq_none_iff.mp hnone spec (List.mem_of_getElem? hspec)
  rw [← hname', hname, decide_eq_false_iff_not] at this
  exact this rfl

/-- The target is killed. -/
theorem Sound.kill (hn : (specs.map (·.nodeAlias)).Nodup) (hs : Sound args specs s k again) {since : Nat} {e : Sent} {rest : List Sent}
    {round : UInt64} {pid : Nat} (hp : s.point = .receiving since) (hc : s.channel = e :: rest)
    (he : e.event = .roundCommitted (failTargetAlias args specs) round) (hat : args.failAtRound = some round)
    (honce : s.killedOnce = false) (hr : s.table.roster[failTargetAlias args specs]? = some pid) {s' : Orchestration}
    (htable : s'.table = s.table.signal pid) (honce' : s'.killedOnce = true) (hkills : s'.kills = s.kills ++ [(pid, s.now)])
    (hobserved : s'.observed = s.observed ++ [e]) (hrejoin : s'.rejoinSpawnAt = match args.rejoinAfterMs with
      | some ms => some (s.now + ms.toNat)
      | none => s.rejoinSpawnAt) : Injected args specs s' again := by
  obtain ⟨rfl, hnone, hidle⟩ := hs.injected.nil honce
  obtain rfl := hs.sender hn hc he hr
  obtain ⟨p, hjob, hname⟩ := hs.watched.named _ _ hr
  have hall : k = specs.length := hs.started.complete (hp ▸ rfl)
  have hlt := (List.getElem?_eq_some_iff.mp hjob).1
  rw [hs.started.length, List.length_nil, Nat.add_zero, hall] at hlt
  have hjob' : s'.table.jobs[pid]? = some { p with signalled := true } := by
    rw [htable, Table.signal, Table.getElem?_modify, if_pos rfl, hjob]
    rfl
  have hkilled : Killed args specs s' pid s.now := by
    refine ⟨honce', ?_, hlt, ⟨_, hjob', hname, rfl⟩, round, hat, ?_⟩
    · rw [hkills, hnone, List.nil_append]
    · exact hobserved ▸ List.mem_append_right _ (List.mem_singleton_self _)
  refine .killed hkilled ?_
  cases hms : args.rejoinAfterMs with
  | none => exact .idle (by rw [hrejoin, hms]; exact hidle)
  | some ms => exact .pending hms (by rw [hrejoin, hms])

/-- The target is started again. -/
theorem Sound.rejoin (hs : Sound args specs s k again) {time idx : Nat} {spec : NodeSpec} (hp : s.point = .looping)
    (ht : s.rejoinSpawnAt = some time) (hle : time ≤ s.now)
    (hidx : specs.findIdx? (·.nodeAlias = failTargetAlias args specs) = some idx) (hspec : specs[idx]? = some spec) :
    Injected args specs (({ s with rejoinSpawnAt := none } : Orchestration).launch (spawnOne args spec specs idx true)
      (.receiving s.now)) [spawnOne args spec specs idx true] := by
  obtain ⟨rfl, pid, since, ms, hk, hms, rfl⟩ := hs.injected.pending ht
  have hall : k = specs.length := hs.started.complete (hp ▸ rfl)
  obtain ⟨hlt, htarget, -⟩ := List.findIdx?_eq_some_iff_getElem.mp hidx
  obtain rfl := Option.some.inj ((List.getElem?_eq_getElem hlt).symm.trans hspec)
  have hnew := getElem?_launch { s with rejoinSpawnAt := none } (spawnOne args specs[idx] specs idx true) (.receiving s.now)
  rw [show s.table.jobs.length = specs.length from hs.started.length.trans hall] at hnew
  exact .killed (hk.mono rfl rfl (evolved_start _ _ _) fun _ => id) (.done hms rfl hspec (of_decide_eq_true htarget) hnew hle)

theorem Stepped.started (h : Stepped args specs s s') (hn : (specs.map (·.nodeAlias)).Nodup) (hs : Sound args specs s k again) :
    ∃ k' again', Started args specs s' k' again' ∧ Injected args specs s' again' := by
  have he := h.evolved
  have hsame : s'.killedOnce = s.killedOnce → s'.kills = s.kills → s'.rejoinSpawnAt = s.rejoinSpawnAt → s.observed ⊆ s'.observed →
      Injected args specs s' again := fun h1 h2 h3 h4 => hs.injected.mono h1 h2 h3 he h4
  have hkeep : s'.table.jobs.map label = s.table.jobs.map label → s'.point = s.point → Started args specs s' k again :=
    fun hlabels hp => hs.started.keep hlabels (fun _ h => hp ▸ h) fun _ => .inl hp
  cases h with
  | print _ _ _ => exact ⟨k, again, hkeep (Table.map_update (fun _ => rfl) _ _) rfl, hsame rfl rfl rfl fun _ => id⟩
  | finish _ => exact ⟨k, again, hkeep (Table.map_finish (fun _ => rfl) _ _) rfl, hsame rfl rfl rfl fun _ => id⟩
  | read _ _ _ => exact ⟨k, again, hkeep (Table.map_update (fun _ => rfl) _ _) rfl, hsame rfl rfl rfl fun _ => id⟩
  | tick _ => exact ⟨k, again, hkeep rfl rfl, hsame rfl rfl rfl fun _ => id⟩
  | launch hp hspec =>
    obtain ⟨rfl, rfl⟩ := hs.started.starting _ hp
    exact ⟨_, [], hs.started.launch hp hspec, hsame rfl rfl rfl fun _ => id⟩
  | launchFails hp hspec => exact ⟨k, again, hs.started.keep rfl nofun fun _ => .inr ⟨_, rfl⟩, hsame rfl rfl rfl fun _ => id⟩
  | enter hp hspec =>
    obtain ⟨rfl, rfl⟩ := hs.started.starting _ hp
    have hk := Nat.le_antisymm hs.started.le (List.getElem?_eq_none_iff.mp hspec)
    exact ⟨_, [], hs.started.after hk rfl nofun, hsame rfl rfl rfl fun _ => id⟩
  | expire hp _ =>
    exact ⟨k, again, hs.started.loop (hp ▸ rfl) (Table.map_signalAll (fun _ => rfl) _) nofun, hsame rfl rfl rfl fun _ => id⟩
  | rejoin hp ht hle hidx hspec =>
    obtain ⟨rfl, -⟩ := hs.injected.pending ht
    exact ⟨k, _, hs.started.rejoin (hs.started.complete (hp ▸ rfl)) _ _ _, hs.rejoin hp ht hle hidx hspec⟩
  | rejoinFails hp ht =>
    obtain ⟨rfl, pid, since, ms, hkilled, -, -⟩ := hs.injected.pending ht
    exact ⟨k, [], hs.started.loop (hp ▸ rfl) rfl nofun, .killed (hkilled.mono rfl rfl he fun _ => id) (.idle rfl)⟩
  | panics hp ht hnone => exact absurd hnone (hs.target_found ht hp)
  | kill hp hc hev hat honce hr =>
    exact ⟨k, again, hs.started.loop (hp ▸ rfl) (Table.map_signal (fun _ => rfl) _ _) nofun,
      hs.kill hn hp hc hev hat honce hr rfl rfl rfl rfl rfl⟩
  | exited _ hc hev => exact absurd hev (hs.events.not_exited hc _ _)
  | observe hp _ _ _ =>
    exact ⟨k, again, hs.started.loop (hp ▸ rfl) rfl nofun, hsame rfl rfl rfl (List.subset_append_left _ _)⟩
  | sweep hp =>
    refine ⟨k, again, hs.started.loop (hp ▸ rfl) rfl (fun idx => ?_), hsame rfl rfl rfl fun _ => id⟩
    dsimp only
    split <;> exact nofun
  | await hp _ | timeout hp _ | stays hp | gone hp _ _ _ =>
    exact ⟨k, again, hs.started.loop (hp ▸ rfl) rfl nofun, hsame rfl rfl rfl fun _ => id⟩

/-! ## The lines, step by step -/

/-- What two tables say of their jobs is the same. -/
theorem job_of_map {β : Type} {g : Job Text Child → β} {t t' : Table Text Child} (h : t'.jobs.map g = t.jobs.map g) {pid : Nat}
    {p' : Job Text Child} (hp : t'.jobs[pid]? = some p') : ∃ p, t.jobs[pid]? = some p ∧ g p = g p' := by
  have hmap := congrArg (·[pid]?) h
  simp only [List.getElem?_map, hp, Option.map_some] at hmap
  obtain ⟨p, hp, he⟩ := Option.map_eq_some_iff.mp hmap.symm
  exact ⟨p, hp, he⟩

theorem Events.keep (h : Events s) (hdata : s'.table.jobs.map (fun p => (p.name, p.data)) = s.table.jobs.map fun p => (p.name, p.data))
    (hevents : s'.observed ++ s'.channel = s.observed ++ s.channel) : Events s' where
  source e he := by
    obtain ⟨p, round, hp, hevent⟩ := h.source e (hevents ▸ he)
    obtain ⟨p', hp', hsame⟩ := job_of_map hdata.symm hp
    exact ⟨p', round, hp', (Prod.mk.inj hsame).1 ▸ hevent⟩
  read pid p' hp' := by
    obtain ⟨p, hp, hsame⟩ := job_of_map hdata hp'
    exact (Prod.mk.inj hsame).2 ▸ h.read pid p hp
  fifo pid p' hp' := by
    obtain ⟨p, hp, hsame⟩ := job_of_map hdata hp'
    rw [hevents, h.fifo pid p hp, (Prod.mk.inj hsame).2]

/-- A child prints a line. -/
theorem Events.print (h : Events s) (pid : Nat) (line : Text) :
    Events { s with table := s.table.update pid (Child.print line) } where
  source e he := by
    obtain ⟨p, round, hp, hevent⟩ := h.source e he
    obtain ⟨p', hp', hl⟩ := evolved_modify (onward_print line) s.table pid _ _ hp
    exact ⟨p', round, hp', hl.name ▸ hevent⟩
  read q p' hp' := by
    rw [Table.update, Table.getElem?_modify] at hp'
    split at hp'
    · obtain ⟨p, hp, rfl⟩ := Option.map_eq_some_iff.mp hp'
      exact (h.read q p hp).trans (by simp [Child.print])
    · exact h.read q p' hp'
  fifo q p' hp' := by
    rw [Table.update, Table.getElem?_modify] at hp'
    split at hp'
    · obtain ⟨p, hp, rfl⟩ := Option.map_eq_some_iff.mp hp'
      exact (h.fifo q p hp).trans (congrArg _ (List.take_append_of_le_length (h.read q p hp)).symm)
    · exact h.fifo q p' hp'

/-- The thread of a child reads a line. -/
theorem Events.readLine (h : Events s) {pid : Nat} {p : Job Text Child} {line : Text} (hp : s.table.jobs[pid]? = some p)
    (hname : p.name = p.data.command.nodeAlias) (hline : p.data.printed[p.data.read]? = some line) :
    Events (s.readLine pid p.data line) where
  source e he := by
    rw [Orchestration.readLine, ← List.append_assoc, List.mem_append] at he
    rcases he with he | he
    · obtain ⟨q, round, hq, hevent⟩ := h.source e he
      obtain ⟨q', hq', hl⟩ := evolved_modify onward_read s.table pid _ _ hq
      exact ⟨q', round, hq', hl.name ▸ hevent⟩
    · obtain ⟨round, -, rfl⟩ := List.mem_map.mp he
      obtain ⟨p', hp', hl⟩ := evolved_modify onward_read s.table pid _ _ hp
      exact ⟨p', round, hp', by rw [hl.name, hname]⟩
  read q p' hp' := by
    rw [Orchestration.readLine, Table.update, Table.getElem?_modify] at hp'
    split at hp'
    · rename_i heq
      subst heq
      rw [hp, Option.map_some, Option.some.injEq] at hp'
      exact hp' ▸ (List.getElem?_eq_some_iff.mp hline).1
    · exact h.read q p' hp'
  fifo q p' hp' := by
    rw [Orchestration.readLine, Table.update, Table.getElem?_modify] at hp'
    rw [Orchestration.readLine, ← List.append_assoc, List.filterMap_append, List.filterMap_map]
    split at hp'
    · rename_i heq
      subst heq
      rw [hp, Option.map_some, Option.some.injEq] at hp'
      rw [h.fifo pid p hp, ← hp']
      dsimp only [Child.readNext]
      rw [List.take_add_one, hline, List.filterMap_append]
      cases hparse : parseRoundCommitted line <;> simp [roundFrom, hparse]
    · rename_i hne
      rw [h.fifo q p' hp']
      cases parseRoundCommitted line <;> simp [roundFrom, hne]

/-- A child is started. -/
theorem Events.launch (h : Events s) (command : ChildCommand) (point : OrchPoint) : Events (s.launch command point) where
  source e he := by
    obtain ⟨p, round, hp, hevent⟩ := h.source e he
    obtain ⟨p', hp', hl⟩ := evolved_start s.table command.nodeAlias _ _ _ hp
    exact ⟨p', round, hp', hl.name ▸ hevent⟩
  read q p' hp' := by
    rw [Orchestration.launch, Table.getElem?_start] at hp'
    split at hp'
    · rw [← Option.some.inj hp']
      exact Nat.zero_le _
    · exact h.read q p' hp'
  fifo q p' hp' := by
    rw [Orchestration.launch, Table.getElem?_start] at hp'
    split at hp'
    · rename_i hq
      rw [← Option.some.inj hp']
      refine List.filterMap_eq_nil_iff.mpr fun e he => ?_
      obtain ⟨p, round, hp, hevent⟩ := h.source e he
      have hlt := (List.getElem?_eq_some_iff.mp hp).1
      rw [roundFrom, hevent]
      exact if_neg (by omega)
    · exact h.fifo q p' hp'

theorem Stepped.events (h : Stepped args specs s s') (hs : Sound args specs s k again) : Events s' := by
  cases h with
  | print line _ _ => exact hs.events.print _ _
  | finish _ => exact hs.events.keep (Table.map_finish (fun _ => rfl) _ _) rfl
  | read _ hp hline => exact hs.events.readLine hp (hs.started.names _ (List.mem_of_getElem? hp)) hline
  | launch _ _ => exact hs.events.launch _ _
  | rejoin _ _ _ _ _ =>
    have hevents : Events { s with rejoinSpawnAt := none } := hs.events.keep rfl rfl
    exact hevents.launch _ _
  | expire _ _ => exact hs.events.keep (Table.map_signalAll (fun _ => rfl) _) rfl
  | kill _ hc _ _ _ _ =>
    exact hs.events.keep (Table.map_signal (fun _ => rfl) _ _) (by rw [hc, List.append_assoc, List.singleton_append])
  | exited _ hc hev => exact absurd hev (hs.events.not_exited hc _ _)
  | observe _ hc _ _ => exact hs.events.keep rfl (by rw [hc, List.append_assoc, List.singleton_append])
  | _ => exact hs.events.keep rfl rfl

/-! ## The end, step by step -/

/-- What was due stays so, when no event is received. -/
theorem Due.keep (h : Due args specs s) (he : Evolved s.table s'.table) (honce : s.killedOnce = true → s'.killedOnce = true)
    (hobserved : s'.observed = s.observed) : Due args specs s' := by
  intro e hm round hevent hat
  rcases h e (hobserved ▸ hm) round hevent hat with hk | ⟨p, hp, hl⟩
  · exact .inl (honce hk)
  · obtain ⟨p', hp', hlater⟩ := he _ _ hp
    exact .inr ⟨p', hp', hlater.atLarge hl⟩

/-- What a child or its thread does, and the time, is not an end. -/
theorem Ended.keep (h : Ended args specs s) (hsame : Same s.table s'.table) (he : Evolved s.table s'.table)
    (hroster : s'.table.roster = s.table.roster)
    (hsig : s'.table.jobs.map (·.signalled) = s.table.jobs.map (·.signalled)) (hpoint : s'.point = s.point)
    (honce : s'.killedOnce = s.killedOnce) (hkills : s'.kills = s.kills) (hobserved : s'.observed = s.observed) :
    Ended args specs s' where
  checking todo toRemove hp a ha pid p' hr hp' := by
    obtain ⟨p, hp'', hl⟩ := hsame pid p' hp'
    exact hl.running (h.checking todo toRemove (hpoint ▸ hp) a ha pid p (hroster ▸ hr) hp'')
  ends hend p' hp' := by
    obtain ⟨pid, hget⟩ := List.mem_iff_getElem?.mp hp'
    obtain ⟨p, hp, hl⟩ := hsame pid p' hget
    exact hl.atLarge (h.ends (hpoint ▸ hend) p (List.mem_of_getElem? hp))
  signalled pid p' hp' hs' := by
    obtain ⟨p, hp, hsame'⟩ := job_of_map hsig hp'
    exact hkills ▸ hpoint ▸ h.signalled pid p hp (hsame'.trans hs')
  panicked := hpoint ▸ h.panicked
  due := h.due.keep he (fun hk => honce.trans hk) hobserved

/-- Where the orchestrator neither ends nor looks at its children. -/
def onItsWay : OrchPoint → Bool
  | .starting _ | .looping | .receiving _ | .failed (.spawn _) => true
  | _ => false

/-- While the orchestrator runs, whoever was sent the signal was killed. -/
theorem Ended.killed (h : Ended args specs s) (hrun : s.point.runs = true) {pid : Nat} {p : Job Text Child}
    (hp : s.table.jobs[pid]? = some p) (hsig : p.signalled = true) : ∃ time, (pid, time) ∈ s.kills := by
  rcases h.signalled pid p hp hsig with hk | ⟨why, hw⟩
  · exact hk
  · rw [hw] at hrun
    cases hrun

/-- On its way the orchestrator is not at an end. -/
theorem Ended.of_onItsWay (hway : onItsWay s.point = true)
    (hsig : ∀ (pid : Nat) p, s.table.jobs[pid]? = some p → p.signalled = true → ∃ time, (pid, time) ∈ s.kills)
    (hdue : Due args specs s) : Ended args specs s where
  checking _ _ hp := by rw [hp] at hway; cases hway
  ends hend := by rcases hend with hp | ⟨_, hp⟩ <;> rw [hp] at hway <;> cases hway
  signalled pid p hp hs := .inl (hsig pid p hp hs)
  panicked hp := by rw [hp] at hway; cases hway
  due := hdue

/-- A step on the way that does nothing to a child. -/
theorem Ended.pass (h : Ended args specs s) (hrun : s.point.runs = true) (hway : onItsWay s'.point = true)
    (htable : s'.table = s.table) (honce : s'.killedOnce = s.killedOnce) (hkills : s'.kills = s.kills)
    (hobserved : s'.observed = s.observed) : Ended args specs s' :=
  .of_onItsWay hway (fun _ _ hp hs => hkills ▸ h.killed hrun (htable ▸ hp) hs)
    (h.due.keep (htable ▸ .refl _) (fun hk => honce.trans hk) hobserved)

/-- A step while the orchestrator looks at its children. -/
theorem Ended.look (h : Ended args specs s) (hrun : s.point.runs = true) {todo toRemove : List Text}
    (hremove : ∀ a ∈ toRemove, ∀ (pid : Nat) p, s.table.roster[a]? = some pid → s.table.jobs[pid]? = some p → p.running = false) :
    Ended args specs { s with point := .checking todo toRemove } where
  checking todo' toRemove' hp := by
    obtain ⟨-, rfl⟩ := OrchPoint.checking.inj hp
    exact hremove
  ends hend := by rcases hend with hp | ⟨_, hp⟩ <;> cases hp
  signalled pid p hp hs := .inl (h.killed hrun hp hs)
  panicked := nofun
  due := h.due.keep (.refl _) id rfl

/-- A child is started. -/
theorem Ended.launch (h : Ended args specs s) (hrun : s.point.runs = true) (command : ChildCommand) {point : OrchPoint}
    (hway : onItsWay point = true) : Ended args specs (s.launch command point) := by
  refine .of_onItsWay hway (fun pid p hp hs => ?_) (h.due.keep (evolved_start _ _ _) id rfl)
  rw [Orchestration.launch, Table.getElem?_start] at hp
  split at hp
  · rw [← Option.some.inj hp] at hs
    cases hs
  · exact h.killed hrun hp hs

/-- An event is received that kills no child. -/
theorem Sound.ended_observe (hs : Sound args specs s k again) {since : Nat} {e : Sent} {rest : List Sent} {name : Text} {round : UInt64}
    (hp : s.point = .receiving since) (hc : s.channel = e :: rest) (hevent : e.event = .roundCommitted name round)
    (hno : name = failTargetAlias args specs → args.failAtRound = some round → s.killedOnce = false →
      s.table.roster[failTargetAlias args specs]? = none) :
    Ended args specs { s with channel := rest, observed := s.observed ++ [e], point := .looping } := by
  refine .of_onItsWay rfl (fun pid p hjob hsig => hs.ended.killed (hp ▸ rfl) hjob hsig) fun e' hm round' hevent' hat => ?_
  rcases List.mem_append.mp hm with hm | hm
  · exact hs.ended.due e' hm round' hevent' hat
  · obtain rfl := List.mem_singleton.mp hm
    obtain ⟨rfl, rfl⟩ := OrchEvent.roundCommitted.inj (hevent.symm.trans hevent')
    obtain ⟨p, round', hjob, hp'⟩ := hs.events.source e' (List.mem_append_right _ (hc ▸ List.mem_cons_self))
    obtain ⟨hname, -⟩ := OrchEvent.roundCommitted.inj (hevent.symm.trans hp')
    cases honce : s.killedOnce with
    | true => exact .inl rfl
    | false =>
      refine .inr ⟨p, hjob, ?_⟩
      by_contra hlarge
      have hr := hs.watched.atLarge _ _ hjob (by simpa using hlarge)
      rw [← hname, hno rfl hat honce] at hr
      cases hr

/-- The target is killed. -/
theorem Ended.kill (h : Ended args specs s) (hrun : s.point.runs = true) {pid : Nat} (htable : s'.table = s.table.signal pid)
    (honce : s'.killedOnce = true) (hkills : s'.kills = s.kills ++ [(pid, s.now)]) (hpoint : s'.point = .looping) :
    Ended args specs s' := by
  refine .of_onItsWay (hpoint ▸ rfl) (fun q p hp hs => ?_) fun _ _ _ _ _ => .inl honce
  rw [htable, Table.signal, Table.getElem?_modify] at hp
  split at hp
  · rename_i heq
    exact ⟨s.now, hkills ▸ List.mem_append_right _ (heq ▸ List.mem_singleton_self _)⟩
  · obtain ⟨time, hm⟩ := h.killed hrun hp hs
    exact ⟨time, hkills ▸ List.mem_append_left _ hm⟩

/-- The deadline is over. -/
theorem Sound.ended_expire (hs : Sound args specs s k again) (why : String) :
    Ended args specs { s with table := s.table.signalAll, point := .failed (.timeout why) } where
  checking := nofun
  ends _ p hm := by
    obtain ⟨pid, hp⟩ := List.mem_iff_getElem?.mp hm
    exact hs.watched.none_atLarge_signalAll hp
  signalled _ _ _ _ := .inr ⟨why, rfl⟩
  panicked := nofun
  due := hs.ended.due.keep (evolved_signalAll _) id rfl

/-- The children that have ended are no longer watched. -/
theorem Sound.ended_sweep (hs : Sound args specs s k again) {toRemove : List Text} (hp : s.point = .checking [] toRemove)
    (hwatched : (s.table.strike toRemove).Watched) : Ended args specs
      { s with
        table := s.table.strike toRemove
        point := if (s.table.strike toRemove).roster.isEmpty then .returned else .looping } := by
  split
  · rename_i hempty
    refine ⟨nofun, fun _ p hm => ?_, fun pid p hjob hsig => .inl (hs.ended.killed (hp ▸ rfl) hjob hsig), nofun, hs.ended.due⟩
    obtain ⟨pid, hjob⟩ := List.mem_iff_getElem?.mp hm
    exact hwatched.none_atLarge hempty hjob
  · exact .of_onItsWay rfl (fun pid p hjob hsig => hs.ended.killed (hp ▸ rfl) hjob hsig) hs.ended.due

theorem Stepped.ended (h : Stepped args specs s s') (hn : (specs.map (·.nodeAlias)).Nodup) (hs : Sound args specs s k again) :
    Ended args specs s' := by
  have hwatched := h.watched hn hs
  cases h with
  | print line _ _ =>
    exact hs.ended.keep (same_modify (onward_print line) _ _) (evolved_modify (onward_print line) _ _) rfl
      (Table.map_update (fun _ => rfl) _ _) rfl rfl rfl rfl
  | finish _ =>
    exact hs.ended.keep (same_modify onward_finish _ _) (evolved_modify onward_finish _ _) rfl
      (Table.map_finish (fun _ => rfl) _ _) rfl rfl rfl rfl
  | read _ _ _ =>
    exact hs.ended.keep (same_modify onward_read _ _) (evolved_modify onward_read _ _) rfl
      (Table.map_update (fun _ => rfl) _ _) rfl rfl rfl rfl
  | tick _ => exact hs.ended.keep (.refl _) (.refl _) rfl rfl rfl rfl rfl rfl
  | launch hp _ => exact hs.ended.launch (hp ▸ rfl) _ rfl
  | rejoin hp _ _ _ _ =>
    have hended : Ended args specs { s with rejoinSpawnAt := none } := hs.ended.keep (.refl _) (.refl _) rfl rfl rfl rfl rfl rfl
    exact hended.launch (hp ▸ rfl) _ rfl
  | launchFails hp _ | enter hp _ | await hp _ | rejoinFails hp _ => exact hs.ended.pass (hp ▸ rfl) rfl rfl rfl rfl rfl
  | expire _ _ => exact hs.ended_expire _
  | panics hp ht hnone => exact absurd hnone (hs.target_found ht hp)
  | kill hp _ _ _ _ _ => exact hs.ended.kill (hp ▸ rfl) rfl rfl rfl rfl
  | exited _ hc hev => exact absurd hev (hs.events.not_exited hc _ _)
  | observe hp hc hev hno => exact hs.ended_observe hp hc hev hno
  | timeout hp _ => exact hs.ended.look (hp ▸ rfl) nofun
  | stays hp => exact hs.ended.look (hp ▸ rfl) (hs.ended.checking _ _ hp)
  | gone hp hr hjob hrun =>
    refine hs.ended.look (hp ▸ rfl) fun a ha pid p hr' hjob' => ?_
    rcases List.mem_append.mp ha with ha | ha
    · exact hs.ended.checking _ _ hp a ha pid p hr' hjob'
    · obtain rfl := List.mem_singleton.mp ha
      obtain rfl := Option.some.inj (hr.symm.trans hr')
      exact Option.some.inj (hjob.symm.trans hjob') ▸ hrun
  | sweep hp => exact hs.ended_sweep hp hwatched

/-! ## Every run -/

/-- A step keeps the invariant. -/
theorem Stepped.sound (h : Stepped args specs s s') (hn : (specs.map (·.nodeAlias)).Nodup) (hs : Sound args specs s k again) :
    ∃ k' again', Sound args specs s' k' again' := by
  obtain ⟨k', again', hstarted, hinjected⟩ := h.started hn hs
  exact ⟨k', again', h.watched hn hs, hstarted, hinjected, h.events hs, h.ended hn hs⟩

/-- The invariant holds before the first child is started. -/
theorem sound_initial (args : OrchestrateArgs) (specs : List NodeSpec) (now : Nat) : Sound args specs (.initial now) 0 [] where
  watched := .empty
  started := {
    le := Nat.zero_le _
    commands := rfl
    names := fun _ h => absurd h List.not_mem_nil
    starting := fun _ h => ⟨(OrchPoint.starting.inj h).symm, rfl⟩
    unfinished := fun _ => .inl rfl }
  injected := .quiet rfl rfl rfl
  events := ⟨fun _ h => absurd h List.not_mem_nil, nofun, nofun⟩
  ended := .of_onItsWay rfl nofun fun _ h => absurd h List.not_mem_nil

/-- The invariant holds in every state. -/
theorem reachable_sound (hn : (specs.map (·.nodeAlias)).Nodup) (h : (orchestrations args specs).Reachable s) :
    ∃ k again, Sound args specs s k again := by
  refine h.invariant (P := fun s => ∃ k again, Sound args specs s k again) (fun s h0 => ?_) fun s a s' _ hs hstep => ?_
  · obtain ⟨now, rfl⟩ := h0
    exact ⟨0, [], sound_initial args specs now⟩
  · obtain ⟨k, again, hs⟩ := hs
    exact (stepped hstep).sound hn hs

end OrchestratorAux

end VertexVeil
