import VertexVeil.Lemmas.Console
import VertexVeil.Orchestrator

/-!
# Helpers about the orchestrator: what a step can do

`Stepped` has a case for each thing that can happen, `Later` is what a child keeps for ever.
-/

namespace VertexVeil

open Codec Jobs Orchestrate

namespace OrchestratorAux

variable {args : OrchestrateArgs} {specs : List NodeSpec} {s s' : Orchestration}

/-! ## Children as they go on -/

/-- A child some time later. -/
structure Later (p p' : Job Text Child) : Prop where
  name : p'.name = p.name
  command : p'.data.command = p.data.command
  spawnedAt : p'.data.spawnedAt = p.data.spawnedAt
  printed : p.data.printed <+: p'.data.printed
  running : p.running = false → p'.running = false
  signalled : p.signalled = true → p'.signalled = true

theorem Later.refl (p : Job Text Child) : Later p p := ⟨rfl, rfl, rfl, List.prefix_rfl, id, id⟩

/-- A child that is not at large never is again. -/
theorem Later.atLarge {p p' : Job Text Child} (h : Later p p') (hp : p.atLarge = false) : p'.atLarge = false := by
  simp only [Job.atLarge, Bool.and_eq_false_iff, Bool.not_eq_false'] at hp ⊢
  exact hp.imp h.running h.signalled

/-- A change of a child that goes on in time. -/
def Onward (f : Job Text Child → Job Text Child) : Prop := ∀ p, Later p (f p)

theorem onward_print (line : Text) : Onward fun p => { p with data := p.data.print line } :=
  fun _ => ⟨rfl, rfl, rfl, List.prefix_append _ _, id, id⟩

theorem onward_read : Onward fun p => { p with data := p.data.readNext } :=
  fun _ => ⟨rfl, rfl, rfl, List.prefix_rfl, id, id⟩

theorem onward_finish : Onward fun p => { p with running := false } :=
  fun _ => ⟨rfl, rfl, rfl, List.prefix_rfl, fun _ => rfl, id⟩

theorem onward_signal : Onward fun p => { p with signalled := true } :=
  fun _ => ⟨rfl, rfl, rfl, List.prefix_rfl, id, fun _ => rfl⟩

/-! ## What a step can do -/

/-- The steps, by what they do. -/
inductive Stepped (args : OrchestrateArgs) (specs : List NodeSpec) (s : Orchestration) : Orchestration → Prop where
  | print {pid p} (line : Text) : s.table.jobs[pid]? = some p → p.running = true → Stepped args specs s
      { s with table := s.table.update pid (Child.print line) }
  | finish (pid : Nat) : Stepped args specs s { s with table := s.table.finish pid }
  | read {pid p line} : s.point.runs = true → s.table.jobs[pid]? = some p → p.data.printed[p.data.read]? = some line →
      Stepped args specs s (s.readLine pid p.data line)
  | tick (ms : Nat) : Stepped args specs s { s with now := s.now + ms }
  | launch {idx spec} : s.point = .starting idx → specs[idx]? = some spec →
      Stepped args specs s (s.launch (spawnOne args spec specs idx false) (.starting (idx + 1)))
  | launchFails {idx spec} : s.point = .starting idx → specs[idx]? = some spec →
      Stepped args specs s { s with point := .failed (.spawn spec.nodeAlias) }
  | enter {idx} : s.point = .starting idx → specs[idx]? = none →
      Stepped args specs s { s with deadline := s.now + 180000, point := .looping }
  | expire : s.point = .looping → s.deadline < s.now →
      Stepped args specs s { s with table := s.table.signalAll, point := .failed (.timeout "orchestrator deadline exceeded") }
  | await : s.point = .looping → s.now ≤ s.deadline → Stepped args specs s { s with point := .receiving s.now }
  | rejoin {time idx spec} : s.point = .looping → s.rejoinSpawnAt = some time → time ≤ s.now →
      specs.findIdx? (·.nodeAlias = failTargetAlias args specs) = some idx → specs[idx]? = some spec → Stepped args specs s
        (({ s with rejoinSpawnAt := none } : Orchestration).launch (spawnOne args spec specs idx true) (.receiving s.now))
  | rejoinFails {time spec} : s.point = .looping → s.rejoinSpawnAt = some time →
      Stepped args specs s { s with rejoinSpawnAt := none, point := .failed (.spawn spec) }
  | panics {time} : s.point = .looping → s.rejoinSpawnAt = some time →
      specs.findIdx? (·.nodeAlias = failTargetAlias args specs) = none →
      Stepped args specs s { s with rejoinSpawnAt := none, point := .panicked }
  | observe {since e rest nodeAlias round} : s.point = .receiving since → s.channel = e :: rest →
      e.event = .roundCommitted nodeAlias round →
      (nodeAlias = failTargetAlias args specs → args.failAtRound = some round → s.killedOnce = false →
        s.table.roster[failTargetAlias args specs]? = none) →
      Stepped args specs s { s with channel := rest, observed := s.observed ++ [e], point := .looping }
  | kill {since e rest round pid} : s.point = .receiving since → s.channel = e :: rest →
      e.event = .roundCommitted (failTargetAlias args specs) round → args.failAtRound = some round → s.killedOnce = false →
      s.table.roster[failTargetAlias args specs]? = some pid → Stepped args specs s
        { s with
          channel := rest, observed := s.observed ++ [e], table := s.table.signal pid, killedOnce := true
          kills := s.kills ++ [(pid, s.now)]
          rejoinSpawnAt := match args.rejoinAfterMs with
            | some ms => some (s.now + ms.toNat)
            | none => s.rejoinSpawnAt
          point := .looping }
  | exited {since e rest nodeAlias code point} : s.point = .receiving since → s.channel = e :: rest →
      e.event = .childExited nodeAlias code → Stepped args specs s
        { s with channel := rest, observed := s.observed ++ [e], table := s.table.strike [nodeAlias], point }
  | timeout {since} : s.point = .receiving since → s.channel = [] →
      Stepped args specs s { s with point := .checking s.table.roster.keys [] }
  | stays {a todo toRemove} : s.point = .checking (a :: todo) toRemove →
      Stepped args specs s { s with point := .checking todo toRemove }
  | gone {a todo toRemove pid p} : s.point = .checking (a :: todo) toRemove → s.table.roster[a]? = some pid →
      s.table.jobs[pid]? = some p → p.running = false →
      Stepped args specs s { s with point := .checking todo (toRemove ++ [a]) }
  | sweep {toRemove} : s.point = .checking [] toRemove → Stepped args specs s
      { s with
        table := s.table.strike toRemove
        point := if (s.table.strike toRemove).roster.isEmpty then .returned else .looping }

theorem stepped_iterate {ok : Bool} (h : s.point = .looping) : Stepped args specs s (s.iterate args specs ok) := by
  unfold Orchestration.iterate
  split
  · rename_i hnow
    exact .expire h hnow
  · rename_i hnow
    split
    · exact .await h (Nat.le_of_not_lt hnow)
    · rename_i time htime
      split
      · rename_i hdue
        dsimp only
        split
        · rename_i hidx
          exact .panics h htime hidx
        · rename_i idx hidx
          split
          · rename_i hspec
            have := (List.findIdx?_eq_some_iff_getElem.mp hidx).1
            rw [List.getElem?_eq_none_iff] at hspec
            omega
          · rename_i spec hspec
            split
            · exact .rejoin h htime hdue hidx hspec
            · exact .rejoinFails h htime
      · exact .await h (Nat.le_of_not_lt hnow)

theorem stepped_receive {since : Nat} {e : Sent} {rest : List Sent} (h : s.point = .receiving since) (hc : s.channel = e :: rest) :
    Stepped args specs s (({ s with channel := rest, observed := s.observed ++ [e] } : Orchestration).handle args specs e) := by
  unfold Orchestration.handle
  split
  · rename_i nodeAlias round he
    unfold Orchestration.inject
    split
    · rename_i targetRound hat honce
      split
      · rename_i heq
        obtain ⟨rfl, rfl⟩ := heq
        split
        · rename_i hr
          exact .observe h hc he fun _ _ _ => hr
        · rename_i pid hr
          exact .kill h hc he hat honce hr
      · rename_i hne
        refine .observe h hc he fun ha hr => ?_
        rw [hat, Option.some.injEq] at hr
        exact absurd ⟨ha, hr.symm⟩ hne
    · rename_i hno
      exact .observe h hc he fun _ hr honce => absurd honce (hno _ hr)
  · rename_i nodeAlias code he
    exact .exited h hc he

/-- A step is one of these. -/
theorem stepped {a : OrchStep} (h : Orchestration.exec args specs s a = some s') : Stepped args specs s s' := by
  cases a with
  | print pid line =>
    simp only [Orchestration.exec] at h
    split at h
    · rename_i p hp
      split at h
      · rename_i hr
        exact Option.some.inj h ▸ .print line hp hr
      · cases h
    · cases h
  | finish pid => exact Option.some.inj h ▸ .finish pid
  | read pid =>
    simp only [Orchestration.exec] at h
    split at h
    · rename_i p hruns hp
      obtain ⟨line, hline, rfl⟩ := Option.map_eq_some_iff.mp h
      exact .read hruns hp hline
    · cases h
  | tick ms => exact Option.some.inj h ▸ .tick ms
  | spawn ok =>
    simp only [Orchestration.exec] at h
    split at h
    · rename_i idx hp
      split at h
      · rename_i spec hspec
        split at h
        · exact Option.some.inj h ▸ .launch hp hspec
        · exact Option.some.inj h ▸ .launchFails hp hspec
      · rename_i hspec
        exact Option.some.inj h ▸ .enter hp hspec
    · cases h
  | iterate ok =>
    simp only [Orchestration.exec] at h
    split at h
    · rename_i hp
      exact Option.some.inj h ▸ stepped_iterate hp
    · cases h
  | receive =>
    simp only [Orchestration.exec] at h
    split at h
    · rename_i since e rest hp hc
      exact Option.some.inj h ▸ stepped_receive hp hc
    · cases h
  | timeout =>
    simp only [Orchestration.exec] at h
    split at h
    · rename_i since hp hc
      split at h
      · exact Option.some.inj h ▸ .timeout hp hc
      · cases h
    · cases h
  | tryWait =>
    simp only [Orchestration.exec] at h
    split at h
    · rename_i a todo toRemove hp
      split at h
      · rename_i p hfound
        obtain ⟨pid, hr, hp'⟩ := Option.bind_eq_some_iff.mp hfound
        cases hrun : p.running with
        | true =>
          rw [hrun, if_pos rfl] at h
          exact Option.some.inj h ▸ .stays hp
        | false =>
          rw [hrun, if_neg (by decide)] at h
          exact Option.some.inj h ▸ .gone hp hr hp' hrun
      · exact Option.some.inj h ▸ .stays hp
    · rename_i toRemove hp
      exact Option.some.inj h ▸ .sweep hp
    · cases h

/-! ## Tables as they go on -/

/-- A table some time later: its jobs went on, and others may have been started. -/
def Evolved (t t' : Table Text Child) : Prop :=
  ∀ (pid : Nat) p, t.jobs[pid]? = some p → ∃ p', t'.jobs[pid]? = some p' ∧ Later p p'

/-- No job was started. -/
def Same (t t' : Table Text Child) : Prop :=
  ∀ (pid : Nat) p', t'.jobs[pid]? = some p' → ∃ p, t.jobs[pid]? = some p ∧ Later p p'

theorem Evolved.refl (t : Table Text Child) : Evolved t t := fun _ p hp => ⟨p, hp, .refl p⟩

theorem Same.refl (t : Table Text Child) : Same t t := fun _ p hp => ⟨p, hp, .refl p⟩

theorem evolved_modify {f : Job Text Child → Job Text Child} (hf : Onward f) (t : Table Text Child) (pid : Nat) :
    Evolved t (t.modify pid f) := by
  intro q p hp
  rw [Table.getElem?_modify, hp]
  split
  · exact ⟨f p, rfl, hf p⟩
  · exact ⟨p, rfl, .refl p⟩

theorem same_modify {f : Job Text Child → Job Text Child} (hf : Onward f) (t : Table Text Child) (pid : Nat) :
    Same t (t.modify pid f) := by
  intro q p hp
  rw [Table.getElem?_modify] at hp
  split at hp
  · obtain ⟨p', hp', rfl⟩ := Option.map_eq_some_iff.mp hp
    exact ⟨p', hp', hf p'⟩
  · exact ⟨p, hp, .refl p⟩

theorem evolved_signalAll (t : Table Text Child) : Evolved t t.signalAll := by
  intro q p hp
  rw [Table.signalAll, Table.getElem?_signals, hp]
  split
  · exact ⟨_, rfl, onward_signal p⟩
  · exact ⟨p, rfl, .refl p⟩

theorem evolved_start (t : Table Text Child) (name : Text) (data : Child) : Evolved t (t.start name data) := by
  intro q p hp
  have hlt := (List.getElem?_eq_some_iff.mp hp).1
  rw [Table.getElem?_start, if_neg (Nat.ne_of_lt hlt)]
  exact ⟨p, hp, .refl p⟩

/-- Jobs go on. -/
theorem Stepped.evolved (h : Stepped args specs s s') : Evolved s.table s'.table := by
  cases h with
  | print line _ _ => exact evolved_modify (onward_print line) _ _
  | finish pid => exact evolved_modify onward_finish _ _
  | read _ _ _ => exact evolved_modify onward_read _ _
  | launch _ _ => exact evolved_start _ _ _
  | expire _ _ => exact evolved_signalAll _
  | rejoin _ _ _ _ _ => exact evolved_start _ _ _
  | kill _ _ _ _ _ _ => exact evolved_modify onward_signal _ _
  | _ => exact .refl _

end OrchestratorAux

end VertexVeil
