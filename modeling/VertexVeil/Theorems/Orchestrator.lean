import VertexVeil.DiskFixtures
import VertexVeil.Lemmas.Children
import VertexVeil.Lemmas.Observer
import VertexVeil.Theorems.Storage

/-!
# The orchestrator and the failure it injects

`orchestrated_children`: in every state the children are the nodes', in order, and the target started again at most once; no two that
are at large are for one node, and at the end none is. `injected_failure`: what the orchestrator takes from a child's lines are the
rounds of the child's session, one after the other, and a child is killed only after its session has come so far.
-/

namespace VertexVeil

open Codec Jobs Orchestrate OrchestratorAux ConsoleAux

namespace OrchestratorAux

variable {args : OrchestrateArgs} {specs : List NodeSpec} {s : Orchestration} {k : Nat} {again : List ChildCommand}

/-! ### The aliases of the nodes -/

theorem aliasOf_injective {i j : Nat} (h : aliasOf i = aliasOf j) : i = j := by
  have hdigits := congrArg (Nat.ofDigitChars 10 · 0) (List.cons.inj h).2
  simp only [Nat.ofDigitChars_ten_toDigits] at hdigits
  omega

theorem plain_aliasOf (i : Nat) : PlainAlias (aliasOf i) where
  bracket hm := by
    rcases List.mem_cons.mp hm with hc | hm
    · exact absurd hc (by decide)
    · exact absurd (Nat.isDigit_of_mem_toDigits (by omega) (by omega) hm) (by decide)
  first := by simp [aliasOf]

/-- The nodes of a list have the aliases of their places. -/
theorem aliases_specsFrom {basePort : UInt16} {keys : Nat → Text × Text} {idx : Nat} {nodes : List NodeConfig}
    (h : specsFrom basePort keys idx nodes = .ok specs) :
    specs.map (·.nodeAlias) = (List.range' idx nodes.length).map aliasOf := by
  induction nodes generalizing idx specs with
  | nil => exact (Except.ok.inj h) ▸ rfl
  | cons nc rest ih =>
    rw [specsFrom] at h
    split at h
    · cases h
    · split at h
      · cases h
      · rename_i specs' hrest
        rw [← Except.ok.inj h, List.map_cons, ih hrest, List.length_cons, List.range'_succ, List.map_cons]

theorem aliases_nodeSpecs {basePort : UInt16} {keys : Nat → Text × Text} {topology : TopologyConfig}
    (h : nodeSpecs basePort keys topology = .ok specs) :
    specs.map (·.nodeAlias) = (List.range' 0 topology.nodes.length).map aliasOf := by
  rw [nodeSpecs] at h
  split at h
  · cases h
  · rw [aliases_specsFrom h, List.length_insertionSort]

theorem nodup_nodeSpecs {basePort : UInt16} {keys : Nat → Text × Text} {topology : TopologyConfig}
    (h : nodeSpecs basePort keys topology = .ok specs) : (specs.map (·.nodeAlias)).Nodup := by
  rw [aliases_nodeSpecs h]
  exact (List.nodup_range' (h := by omega)).map fun _ _ => aliasOf_injective

/-- Every child is one of the nodes. -/
theorem node_of_job (hs : Sound args specs s k again) {p : Job Text Child} (hp : p ∈ s.table.jobs) :
    ∃ spec ∈ specs, p.data.command.nodeAlias = spec.nodeAlias := by
  have hm : p.data.command ∈ (firsts args specs).take k ++ again := hs.started.commands ▸ List.mem_map_of_mem hp
  rcases List.mem_append.mp hm with hm | hm
  · obtain ⟨x, hx, hcommand⟩ := List.mem_map.mp (List.mem_of_mem_take hm)
    exact ⟨x.1, List.fst_mem_of_mem_zipIdx hx, hcommand ▸ rfl⟩
  · cases hs.injected with
    | quiet _ _ _ => cases hm
    | killed _ hr =>
      cases hr with
      | idle _ | pending _ _ => cases hm
      | done _ _ hspec _ _ _ => exact ⟨_, List.mem_of_getElem? hspec, List.mem_singleton.mp hm ▸ rfl⟩

/-- A child is started again after all the nodes. -/
theorem complete_of_again (hs : Sound args specs s k again) (hne : again ≠ []) : k = specs.length := by
  cases hs.injected with
  | quiet _ _ _ => exact absurd rfl hne
  | killed _ hr =>
    cases hr with
    | idle _ | pending _ _ => exact absurd rfl hne
    | done _ _ _ _ hp _ =>
      have hlt := (List.getElem?_eq_some_iff.mp hp).1
      rw [hs.started.length, List.length_singleton] at hlt
      exact Nat.le_antisymm hs.started.le (Nat.le_of_lt_succ hlt)

/-- Whoever was sent the signal before the deadline is the target, and has said that the round is over. -/
theorem said_of_signalled (hs : Sound args specs s k again) {pid : Nat} {p : Job Text Child} (hp : s.table.jobs[pid]? = some p)
    (hsig : p.signalled = true) : (∃ why, s.point = .failed (.timeout why)) ∨
      ∃ time round, s.kills = [(pid, time)] ∧ p.name = failTargetAlias args specs ∧ args.failAtRound = some round ∧
        { pid, event := .roundCommitted (failTargetAlias args specs) round } ∈ s.observed := by
  rcases hs.ended.signalled pid p hp hsig with ⟨time, hm⟩ | hw
  · cases hs.injected with
    | quiet _ hkills _ =>
      rw [hkills] at hm
      cases hm
    | killed hk _ =>
      rw [hk.kills, List.mem_singleton] at hm
      obtain ⟨rfl, rfl⟩ := Prod.mk.inj hm
      obtain ⟨p', hp', hname, -⟩ := hk.job
      obtain rfl := Option.some.inj (hp.symm.trans hp')
      obtain ⟨round, hat, hsaid⟩ := hk.said
      exact .inr ⟨time, round, hk.kills, hname, hat, hsaid⟩
  · exact .inl hw

/-! ### What a session says -/

/-- A transcript says of each round once that it is over, in order. -/
theorem roundOver_transcript (log : CoordinationLog) (finalized : Bool) (first rounds : Nat) :
    (log.transcript finalized first rounds).filterMap Milestone.roundOver = (List.range' first rounds).map UInt64.ofNat := by
  have hnone (round : RoundId) : (log.milestonesIn round).filterMap Milestone.roundOver = [] := by
    simp only [CoordinationLog.milestonesIn, List.filterMap_append, List.filterMap_map, List.append_eq_nil_iff,
      List.filterMap_eq_nil_iff]
    exact ⟨⟨⟨fun _ _ => rfl, fun _ _ => rfl⟩, fun _ _ => rfl⟩, fun _ _ => rfl⟩
  rw [CoordinationLog.transcript, List.filterMap_flatMap, List.map_eq_flatMap]
  refine List.flatMap_congr fun k _ => ?_
  rw [List.filterMap_append, hnone]
  rfl

theorem unbracketed_transcript {log : CoordinationLog} (h : ∀ q ∈ log.proposals, '[' ∉ q.matchedCapability.asStr)
    (finalized : Bool) (first rounds : Nat) : ∀ m ∈ log.transcript finalized first rounds, Unbracketed m := by
  intro m hm
  obtain ⟨k, -, hm⟩ := List.mem_flatMap.mp hm
  rcases List.mem_append.mp hm with hm | hm
  · simp only [CoordinationLog.milestonesIn, List.mem_append] at hm
    rcases hm with ((hm | hm) | hm) | hm <;> obtain ⟨r, hr, rfl⟩ := List.mem_map.mp hm
    · trivial
    · exact h r (List.mem_of_mem_filter hr)
    · trivial
    · trivial
  · exact List.mem_singleton.mp hm ▸ trivial

/-- What has been read of a child's lines is a part of what its session says. -/
theorem rounds_of_lines {told : List Milestone} {p : Job Text Child} (hplain : PlainAlias p.data.command.nodeAlias)
    (htold : ∀ m ∈ told, Unbracketed m) (hlines : p.data.printed <+: p.data.command.output told) :
    (p.data.printed.take p.data.read).filterMap parseRoundCommitted <+: told.filterMap Milestone.roundOver := by
  rw [← parse_output hplain p.data.command.bind p.data.command.peers.length p.data.command.rejoin htold]
  exact ((List.take_prefix _ _).trans hlines).filterMap _

/-- A part of the rounds in order is the rounds up to one. -/
theorem prefix_rounds {rounds : Nat} {l : List UInt64} (h : l <+: (List.range' 0 rounds).map UInt64.ofNat) :
    ∃ m ≤ rounds, l = (List.range m).map UInt64.ofNat := by
  refine ⟨l.length, ?_, ?_⟩
  · simpa using h.length_le
  · have htake := List.prefix_iff_eq_take.mp h
    have hle : l.length ≤ rounds := by simpa using h.length_le
    rw [← List.map_take, ← List.range_eq_range', List.take_range, Nat.min_eq_left hle] at htake
    exact htake

/-! ### Five children -/

open Sample

def orchestrateArgs : OrchestrateArgs where
  topology := topologyPath
  privateIntents := workingDir.join privateFile
  scenario := none
  artifacts := outPath
  basePort := 9001
  failAtRound := some 0
  rejoinAfterMs := some 1500
  failTarget := some "n1".toList
  maxRounds := 1
  runId := "run"
  pollTimeoutMs := 500

def keysOf (idx : Nat) : Text × Text := ('P' :: Nat.toDigits 10 idx, 'S' :: Nat.toDigits 10 idx)

def sampleSpecs : List NodeSpec := (nodeSpecs orchestrateArgs.basePort keysOf topology.config).toOption.getD []

theorem nodeSpecs_sample : nodeSpecs orchestrateArgs.basePort keysOf topology.config = .ok sampleSpecs := by
  have hok : (nodeSpecs orchestrateArgs.basePort keysOf topology.config).isOk = true := by decide +kernel
  obtain ⟨specs, hspecs⟩ := StorageAux.exists_of_isOk hok
  rw [sampleSpecs, hspecs]
  rfl

/-- What the requester's own process is told, and its lines. -/
def sampleTold : List Milestone := (Observed.runWithTransport crypto "run" ((requesterRuntime []).withRunSalt salt)).milestones

def sampleLines : List Text := Node.output "n1".toList "127.0.0.1:9001".toList 3 false sampleTold

/-- The nodes are started, the first one runs its session, is killed, and is started again. -/
def killAndRejoin : List OrchStep :=
  List.replicate 5 (.spawn true) ++ sampleLines.map (.print 0 ·) ++ List.replicate sampleLines.length (.read 0) ++
    [.iterate true, .receive, .tick 1500, .iterate true]

/-- What the first child has printed, what its session says and whether it was killed. -/
def seenFirst (s : Orchestration) : Option (List Text × List Text × Bool) :=
  s.table.jobs[0]?.map fun p => (p.data.printed, p.data.command.output sampleTold, p.signalled)

/-- The names of the children that were started. -/
def names (s : Orchestration) : List Text := s.table.jobs.map (·.name)

theorem killAndRejoin_run : ((orchestrations orchestrateArgs sampleSpecs).run (.initial 0) killAndRejoin).any (fun s =>
    seenFirst s = some (sampleLines, sampleLines, true) && s.kills = [(0, 0)] &&
      names s = ["n1".toList, "n2".toList, "n3".toList, "n4".toList, "n1".toList]) = true := by decide +kernel

/-- The state in which the first child was killed and started again. -/
theorem exists_rejoined : ∃ s p, (orchestrations orchestrateArgs sampleSpecs).Reachable s ∧ s.table.jobs[0]? = some p ∧
    p.data.printed = p.data.command.output sampleTold ∧ p.signalled = true ∧ s.kills = [(0, 0)] ∧
    names s = ["n1".toList, "n2".toList, "n3".toList, "n4".toList, "n1".toList] := by
  obtain ⟨s, hrun, hseen⟩ := (Option.any_eq_true _ _).mp killAndRejoin_run
  simp only [Bool.and_eq_true, decide_eq_true_eq] at hseen
  obtain ⟨⟨hfirst, hkills⟩, hnames⟩ := hseen
  obtain ⟨p, hp, he⟩ := Option.map_eq_some_iff.mp hfirst
  simp only [Prod.mk.injEq] at he
  obtain ⟨hprinted, houtput, hsig⟩ := he
  exact ⟨s, p, .run (.start ⟨0, rfl⟩) hrun, hp, hprinted.trans houtput.symm, hsig, hkills, hnames⟩

/-- The session of the requester's own process. -/
theorem requesterRuntime_run : ∃ out t',
    Runtime.runWithTransport crypto "run" ((requesterRuntime []).withRunSalt salt) = .ok (out, t') ∧
    out.log.proposals.map (·.matchedCapability.asStr) = [gpu.asStr] ∧ out.finalRound = 0 := by
  have hmap : (Runtime.runWithTransport crypto "run" ((requesterRuntime []).withRunSalt salt)).toOption.map
      (fun r => (r.1.log.proposals.map (·.matchedCapability.asStr), r.1.finalRound)) = some ([gpu.asStr], 0) := by decide +kernel
  cases hrun : Runtime.runWithTransport crypto "run" ((requesterRuntime []).withRunSalt salt) with
  | error e =>
    rw [hrun] at hmap
    cases hmap
  | ok r =>
    rw [hrun] at hmap
    obtain ⟨hcaps, hfinal⟩ := Prod.mk.inj (Option.some.inj hmap)
    exact ⟨r.1, r.2, rfl, hcaps, hfinal⟩

end OrchestratorAux

/-- **The children of the orchestrator.** However the children, the reading threads, the clock and the loop take turns: the first
children are those of the nodes, in order, and after them comes at most one, the target started again, when it was killed, that was
asked for and its time has come. No two children that are at large are for one node. At most one child is killed, the target, once
it has said that the round is over, and then it is unless it has ended. The node to be started again is always found. When the
orchestrator returns or its deadline is over, no child is at large. -/
theorem orchestrated_children {args : OrchestrateArgs} {keys : Nat → Text × Text} {topology : TopologyConfig} {specs : List NodeSpec}
    (hspecs : nodeSpecs args.basePort keys topology = .ok specs) {s : Orchestration} (h : (orchestrations args specs).Reachable s) :
    (∃ k again, s.table.jobs.map (·.data.command) = (firsts args specs).take k ++ again ∧
      (again ≠ [] → k = specs.length) ∧ Injected args specs s again) ∧
    (∀ (pid pid' : Nat) p p', s.table.jobs[pid]? = some p → s.table.jobs[pid']? = some p' → p.atLarge = true → p'.atLarge = true →
      p.name = p'.name → pid = pid') ∧
    Due args specs s ∧ s.point ≠ .panicked ∧
    ((s.point = .returned ∨ ∃ why, s.point = .failed (.timeout why)) → ∀ p ∈ s.table.jobs, p.atLarge = false) := by
  obtain ⟨k, again, hs⟩ := reachable_sound (nodup_nodeSpecs hspecs) h
  exact ⟨⟨k, again, hs.started.commands, complete_of_again hs, hs.injected⟩, fun _ _ _ _ hp hp' => hs.watched.unique hp hp',
    hs.ended.due, hs.ended.panicked, hs.ended.ends⟩

/-- The state in which the first node was killed, and started again. -/
theorem orchestrated_children_sample : ∃ s, (orchestrations orchestrateArgs sampleSpecs).Reachable s ∧
    names s = ["n1".toList, "n2".toList, "n3".toList, "n4".toList, "n1".toList] ∧ s.kills = [(0, 0)] ∧ s.point ≠ .panicked ∧
    ∀ (pid pid' : Nat) p p', s.table.jobs[pid]? = some p → s.table.jobs[pid']? = some p' → p.atLarge = true → p'.atLarge = true →
      p.name = p'.name → pid = pid' := by
  obtain ⟨s, -, hreach, -, -, -, hkills, hnames⟩ := exists_rejoined
  obtain ⟨-, hunique, -, hpoint, -⟩ := orchestrated_children nodeSpecs_sample hreach
  exact ⟨s, hreach, hnames, hkills, hpoint, hunique⟩

/-- **The injected failure.** When the lines of a child are those of a session of its node, as far as it has come, and no capability
in them could be taken for a tag of a line, what the orchestrator takes from them are the rounds of the session from the first one on,
each once and in order. And a child that was killed before the deadline is the target, at the round that was asked for, and its
session has that round behind it. -/
theorem injected_failure {args : OrchestrateArgs} {keys : Nat → Text × Text} {topology : TopologyConfig} {specs : List NodeSpec}
    (hspecs : nodeSpecs args.basePort keys topology = .ok specs) {s : Orchestration} (h : (orchestrations args specs).Reachable s)
    {pid : Nat} {p : Job Text Child} (hp : s.table.jobs[pid]? = some p) {τ : Type} [CoordinationTransport τ] {Γ : Crypto} {t t' : τ}
    {agents : Agents} {scenario : Scenario} {rt : Runtime τ} (hnew : Runtime.new topology t agents scenario args.maxRounds = .ok rt)
    {salt : Bytes 32} {out : RuntimeOutcome} (hrun : Runtime.runWithTransport Γ args.runId (rt.withRunSalt salt) = .ok (out, t'))
    (hplain : ∀ q ∈ out.log.proposals, '[' ∉ q.matchedCapability.asStr)
    (hlines : p.data.printed <+: p.data.command.output (Observed.runWithTransport Γ args.runId (rt.withRunSalt salt)).milestones) :
    (∃ m ≤ out.finalRound.toNat + 1, (s.observed ++ s.channel).filterMap (roundFrom pid) = (List.range m).map UInt64.ofNat) ∧
    (p.signalled = true → (∃ why, s.point = .failed (.timeout why)) ∨
      ∃ time round, s.kills = [(pid, time)] ∧ p.name = failTargetAlias args specs ∧ args.failAtRound = some round ∧
        round.toNat ≤ out.finalRound.toNat) := by
  obtain ⟨k, again, hs⟩ := reachable_sound (nodup_nodeSpecs hspecs) h
  obtain ⟨rounds, -, -, -, hfinal, -, htold⟩ :=
    Observed.transcript_of_run hnew ((Observed.runWithTransport_result args.runId (rt.withRunSalt salt)).trans hrun)
  -- the alias is plain, and nothing that is told has a bracket in it
  obtain ⟨spec, hspec, halias⟩ := node_of_job hs (List.mem_of_getElem? hp)
  have hmem : spec.nodeAlias ∈ specs.map (·.nodeAlias) := List.mem_map_of_mem hspec
  rw [aliases_nodeSpecs hspecs] at hmem
  obtain ⟨i, -, hi⟩ := List.mem_map.mp hmem
  have hunbracketed : ∀ m ∈ (Observed.runWithTransport Γ args.runId (rt.withRunSalt salt)).milestones, Unbracketed m := by
    rw [htold]
    intro m hm
    rcases List.mem_append.mp hm with hm | hm
    · exact unbracketed_transcript hplain _ _ _ m hm
    · split at hm
      · cases hm
      · exact List.mem_singleton.mp hm ▸ show '[' ∉ "max_rounds_exceeded".toList by decide
  have hover : (Observed.runWithTransport Γ args.runId (rt.withRunSalt salt)).milestones.filterMap Milestone.roundOver =
      (List.range' 0 rounds).map UInt64.ofNat := by
    rw [htold, List.filterMap_append, roundOver_transcript]
    split <;> exact List.append_nil _
  have hread := rounds_of_lines (halias ▸ hi ▸ plain_aliasOf i) hunbracketed hlines
  rw [hover, ← hs.events.fifo pid p hp] at hread
  obtain ⟨m, hm, hevents⟩ := prefix_rounds hread
  refine ⟨⟨m, by omega, hevents⟩, fun hsig => (said_of_signalled hs hp hsig).imp_right ?_⟩
  rintro ⟨time, round, hkills, hname, hat, hsaid⟩
  refine ⟨time, round, hkills, hname, hat, ?_⟩
  have hround : round ∈ (s.observed ++ s.channel).filterMap (roundFrom pid) :=
    List.mem_filterMap.mpr ⟨_, List.mem_append_left _ hsaid, if_pos rfl⟩
  rw [hevents] at hround
  obtain ⟨i, hi, rfl⟩ := List.mem_map.mp hround
  have hlt := List.mem_range.mp hi
  have hle : (UInt64.ofNat i).toNat ≤ i := by
    rw [UInt64.toNat_ofNat']
    exact Nat.mod_le _ _
  omega

/-- The first node was killed after its session, which had one round. -/
theorem injected_failure_sample : ∃ s p, (orchestrations orchestrateArgs sampleSpecs).Reachable s ∧ s.table.jobs[0]? = some p ∧
    p.signalled = true ∧
    (∃ m ≤ 1, (s.observed ++ s.channel).filterMap (roundFrom 0) = (List.range m).map UInt64.ofNat) ∧
    ((∃ why, s.point = .failed (.timeout why)) ∨ ∃ time, ∃ round : UInt64, s.kills = [(0, time)] ∧
      p.name = failTargetAlias orchestrateArgs sampleSpecs ∧ orchestrateArgs.failAtRound = some round ∧ round.toNat ≤ 0) := by
  obtain ⟨s, p, hreach, hp, hprinted, hsig, -⟩ := exists_rejoined
  obtain ⟨out, t', hrun, hcaps, hfinal⟩ := requesterRuntime_run
  have hplain : ∀ q ∈ out.log.proposals, '[' ∉ q.matchedCapability.asStr := by
    intro q hq
    have hm : q.matchedCapability.asStr ∈ out.log.proposals.map (·.matchedCapability.asStr) := List.mem_map_of_mem hq
    rw [hcaps, List.mem_singleton] at hm
    rw [hm]
    decide
  obtain ⟨hevents, hkill⟩ := injected_failure nodeSpecs_sample hreach hp (Sample.new_requesterRuntime []) hrun hplain
    (hprinted ▸ List.prefix_rfl)
  rw [hfinal] at hevents hkill
  exact ⟨s, p, hreach, hp, hsig, hevents, hkill hsig⟩

end VertexVeil
