import Mathlib.Data.List.Basic
import Std.Data.TreeMap.Lemmas

/-!
# Jobs and the roster of a supervisor

A table has every job that was started; a job is known by its place in it. The roster has, for a name, the job that was
started last under it, until the supervisor strikes the name off. A job is at large while it runs and has not been sent the
signal that kills. `Watched` is the invariant of a supervisor that starts no second job under a name while one is at large
and strikes off only what has ended: every job at large is on the roster.
-/

namespace Jobs

/-- A job: its name, what is known of it, whether it runs and whether it was sent the signal. -/
structure Job (ν δ : Type) where
  name : ν
  data : δ
  running : Bool
  signalled : Bool

/-- A job that runs and was not sent the signal. -/
def Job.atLarge {ν δ : Type} (p : Job ν δ) : Bool := p.running && !p.signalled

/-- The jobs that were started, and those that are watched, by name. -/
structure Table (ν δ : Type) [Ord ν] where
  jobs : List (Job ν δ)
  roster : Std.TreeMap ν Nat

namespace Table

variable {ν δ : Type} [Ord ν] {t : Table ν δ}

/-- No job yet. -/
def empty : Table ν δ := { jobs := [], roster := ∅ }

/-- Start a job, and watch it. -/
def start (t : Table ν δ) (name : ν) (data : δ) : Table ν δ where
  jobs := t.jobs ++ [{ name, data, running := true, signalled := false }]
  roster := t.roster.insert name t.jobs.length

/-- Change one job. -/
def modify (t : Table ν δ) (pid : Nat) (f : Job ν δ → Job ν δ) : Table ν δ :=
  { t with jobs := t.jobs.modify pid f }

/-- Change what is known of a job. -/
def update (t : Table ν δ) (pid : Nat) (f : δ → δ) : Table ν δ := t.modify pid fun p => { p with data := f p.data }

/-- A job ends. -/
def finish (t : Table ν δ) (pid : Nat) : Table ν δ := t.modify pid fun p => { p with running := false }

/-- Send the signal to a job. -/
def signal (t : Table ν δ) (pid : Nat) : Table ν δ := t.modify pid fun p => { p with signalled := true }

/-- Send the signal to every job on the roster. -/
def signalAll (t : Table ν δ) : Table ν δ := (t.roster.toList.map (·.2)).foldl signal t

/-- Strike names off the roster. -/
def strike (t : Table ν δ) (names : List ν) : Table ν δ :=
  { t with roster := names.foldl (fun roster name => roster.erase name) t.roster }

/-! ## The jobs of a table -/

theorem getElem?_modify (t : Table ν δ) (pid : Nat) (f : Job ν δ → Job ν δ) (q : Nat) :
    (t.modify pid f).jobs[q]? = if pid = q then t.jobs[q]?.map f else t.jobs[q]? := by
  rw [modify, List.getElem?_modify]
  split <;> simp

theorem getElem?_start (t : Table ν δ) (name : ν) (data : δ) (q : Nat) : (t.start name data).jobs[q]? =
    if q = t.jobs.length then some { name, data, running := true, signalled := false } else t.jobs[q]? := by
  rw [start, List.getElem?_append]
  split <;> rename_i h
  · rw [if_neg (Nat.ne_of_lt h)]
  · split <;> rename_i he
    · simp [he]
    · rw [List.getElem?_eq_none (Nat.le_of_not_lt h)]
      exact List.getElem?_eq_none (by simp only [List.length_singleton]; omega)

theorem map_modify {β : Type} {g : Job ν δ → β} {f : Job ν δ → Job ν δ} (h : ∀ p, g (f p) = g p) (t : Table ν δ)
    (pid : Nat) : (t.modify pid f).jobs.map g = t.jobs.map g := by
  refine List.ext_getElem? fun i => ?_
  rw [List.getElem?_map, List.getElem?_map, getElem?_modify]
  split
  · cases t.jobs[i]? <;> simp [h]
  · rfl

theorem map_update {β : Type} {g : Job ν δ → β} {f : δ → δ} (h : ∀ p : Job ν δ, g { p with data := f p.data } = g p)
    (t : Table ν δ) (pid : Nat) : (t.update pid f).jobs.map g = t.jobs.map g := map_modify h t pid

theorem map_finish {β : Type} {g : Job ν δ → β} (h : ∀ p : Job ν δ, g { p with running := false } = g p)
    (t : Table ν δ) (pid : Nat) : (t.finish pid).jobs.map g = t.jobs.map g := map_modify h t pid

theorem map_signal {β : Type} {g : Job ν δ → β} (h : ∀ p : Job ν δ, g { p with signalled := true } = g p)
    (t : Table ν δ) (pid : Nat) : (t.signal pid).jobs.map g = t.jobs.map g := map_modify h t pid

/-! ## Signalling the whole roster -/

@[simp] theorem roster_signal (t : Table ν δ) (pid : Nat) : (t.signal pid).roster = t.roster := rfl

theorem getElem?_signals (t : Table ν δ) (pids : List Nat) (q : Nat) : (pids.foldl signal t).jobs[q]? =
    if q ∈ pids then t.jobs[q]?.map fun p => { p with signalled := true } else t.jobs[q]? := by
  induction pids generalizing t with
  | nil => simp
  | cons pid pids ih =>
    rw [List.foldl_cons, ih, signal, getElem?_modify]
    by_cases hq : pid = q
    · subst hq
      by_cases hm : pid ∈ pids <;> cases t.jobs[pid]? <;> simp [hm]
    · simp [hq, Ne.symm hq]

theorem roster_signals (t : Table ν δ) (pids : List Nat) : (pids.foldl signal t).roster = t.roster := by
  induction pids generalizing t with
  | nil => rfl
  | cons pid pids ih => rw [List.foldl_cons, ih, roster_signal]

theorem map_signalAll {β : Type} {g : Job ν δ → β} (h : ∀ p : Job ν δ, g { p with signalled := true } = g p) (t : Table ν δ) :
    t.signalAll.jobs.map g = t.jobs.map g :=
  List.foldlRecOn (motive := fun u => u.jobs.map g = t.jobs.map g) _ _ rfl fun u hu pid _ => (map_signal h u pid).trans hu

@[simp] theorem roster_signalAll (t : Table ν δ) : t.signalAll.roster = t.roster := roster_signals _ _

/-! ## Striking off -/

theorem roster_strike [Std.TransOrd ν] [Std.LawfulEqOrd ν] {names : List ν} {name : ν} {pid : Nat} :
    (t.strike names).roster[name]? = some pid ↔ name ∉ names ∧ t.roster[name]? = some pid := by
  induction names generalizing t with
  | nil => simp [strike]
  | cons n names ih =>
    have hfirst : t.strike (n :: names) = (t.strike [n]).strike names := rfl
    have hone : (t.strike [n]).roster[name]? = some pid ↔ n ≠ name ∧ t.roster[name]? = some pid := by
      rw [strike, List.foldl_cons, List.foldl_nil, Std.TreeMap.getElem?_erase, ite_eq_iff,
        Std.LawfulEqOrd.compare_eq_iff_eq]
      simp
    rw [hfirst, ih, hone, List.mem_cons, not_or, ne_comm, and_left_comm, and_assoc]

/-! ## Watching -/

/-- Every name on the roster is that of its job, and every job at large is on the roster. -/
structure Watched (t : Table ν δ) : Prop where
  named : ∀ (name : ν) (pid : Nat), t.roster[name]? = some pid → ∃ p, t.jobs[pid]? = some p ∧ p.name = name
  atLarge : ∀ (pid : Nat) (p : Job ν δ), t.jobs[pid]? = some p → p.atLarge = true → t.roster[p.name]? = some pid

namespace Watched

variable [Std.TransOrd ν] [Std.LawfulEqOrd ν]

omit [Std.LawfulEqOrd ν] in
theorem empty : Watched (empty : Table ν δ) where
  named name pid h := by
    rw [Table.empty, Std.TreeMap.getElem?_emptyc] at h
    cases h
  atLarge pid p h := by
    rw [Table.empty, List.getElem?_nil] at h
    cases h

omit [Std.TransOrd ν] [Std.LawfulEqOrd ν] in
/-- Two jobs at large have two names. -/
theorem unique (h : t.Watched) {pid pid' : Nat} {p p' : Job ν δ} (hp : t.jobs[pid]? = some p)
    (hp' : t.jobs[pid']? = some p') (hl : p.atLarge = true) (hl' : p'.atLarge = true) (hname : p.name = p'.name) : pid = pid' :=
  Option.some.inj ((h.atLarge pid p hp hl).symm.trans (hname ▸ h.atLarge pid' p' hp' hl'))

/-- A job may be started under a name when none is at large. -/
theorem start (h : t.Watched) {name : ν} {data : δ}
    (hfree : ∀ (pid : Nat) p, t.jobs[pid]? = some p → p.name = name → p.atLarge = false) : (t.start name data).Watched where
  named name' pid hr := by
    rw [Table.start, Std.TreeMap.getElem?_insert] at hr
    rw [getElem?_start]
    split at hr
    · rename_i he
      obtain rfl := Option.some.inj hr
      exact ⟨_, if_pos rfl, Std.LawfulEqOrd.compare_eq_iff_eq.mp he⟩
    · obtain ⟨p, hp, hname⟩ := h.named name' pid hr
      have hlt := (List.getElem?_eq_some_iff.mp hp).1
      exact ⟨p, (if_neg (Nat.ne_of_lt hlt)).trans hp, hname⟩
  atLarge pid p hp hl := by
    rw [getElem?_start] at hp
    rw [Table.start, Std.TreeMap.getElem?_insert]
    split at hp
    · rename_i he
      obtain rfl := Option.some.inj hp
      rw [if_pos (Std.LawfulEqOrd.compare_eq_iff_eq.mpr rfl), he]
    · rw [if_neg, h.atLarge pid p hp hl]
      intro he
      have := hfree pid p hp (Std.LawfulEqOrd.compare_eq_iff_eq.mp he).symm
      rw [this] at hl
      cases hl

omit [Std.TransOrd ν] [Std.LawfulEqOrd ν] in
/-- A job may change, but for its name and not back to being at large. -/
theorem modify (h : t.Watched) {f : Job ν δ → Job ν δ} (hname : ∀ p, (f p).name = p.name)
    (hlarge : ∀ p, (f p).atLarge = true → p.atLarge = true) (pid : Nat) : (t.modify pid f).Watched where
  named name q hr := by
    obtain ⟨p, hp, hn⟩ := h.named name q hr
    rw [getElem?_modify, hp]
    split
    · exact ⟨f p, rfl, (hname p).trans hn⟩
    · exact ⟨p, rfl, hn⟩
  atLarge q p hp hl := by
    rw [getElem?_modify] at hp
    split at hp
    · obtain ⟨p', hp', rfl⟩ := Option.map_eq_some_iff.mp hp
      rw [hname]
      exact h.atLarge q p' hp' (hlarge p' hl)
    · exact h.atLarge q p hp hl

omit [Std.TransOrd ν] [Std.LawfulEqOrd ν] in
theorem update (h : t.Watched) (pid : Nat) (f : δ → δ) : (t.update pid f).Watched :=
  h.modify (f := fun p => { p with data := f p.data }) (fun _ => rfl) (fun _ hl => hl) pid

omit [Std.TransOrd ν] [Std.LawfulEqOrd ν] in
theorem signal (h : t.Watched) (pid : Nat) : (t.signal pid).Watched :=
  h.modify (f := fun p => { p with signalled := true }) (fun _ => rfl) (fun p hl => by simp [Job.atLarge] at hl) pid

omit [Std.TransOrd ν] [Std.LawfulEqOrd ν] in
theorem finish (h : t.Watched) (pid : Nat) : (t.finish pid).Watched :=
  h.modify (f := fun p => { p with running := false }) (fun _ => rfl) (fun p hl => by simp [Job.atLarge] at hl) pid

omit [Std.TransOrd ν] [Std.LawfulEqOrd ν] in
theorem signalAll (h : t.Watched) : t.signalAll.Watched := List.foldlRecOn _ _ h fun _ h pid _ => h.signal pid

/-- A name may be struck off when its job is not at large. -/
theorem strike (h : t.Watched) {names : List ν}
    (hended : ∀ name ∈ names, ∀ (pid : Nat) p, t.roster[name]? = some pid → t.jobs[pid]? = some p → p.atLarge = false) :
    (t.strike names).Watched := by
  constructor
  · intro name pid hr
    exact h.named name pid (roster_strike.mp hr).2
  · intro pid p hp hl
    have hr := h.atLarge pid p hp hl
    refine roster_strike.mpr ⟨fun hm => ?_, hr⟩
    rw [hended p.name hm pid p hr hp] at hl
    cases hl

omit [Std.LawfulEqOrd ν] in
/-- When the roster is empty, no job is at large. -/
theorem none_atLarge (h : t.Watched) (he : t.roster.isEmpty = true) {pid : Nat} {p : Job ν δ}
    (hp : t.jobs[pid]? = some p) : p.atLarge = false := by
  by_contra hl
  have hr := h.atLarge pid p hp (by simpa using hl)
  exact Std.TreeMap.isEmpty_iff_forall_not_mem.mp he p.name (Std.TreeMap.mem_iff_isSome_getElem?.mpr (by rw [hr]; rfl))

/-- When the whole roster is sent the signal, no job is at large. -/
theorem none_atLarge_signalAll (h : t.Watched) {pid : Nat} {p : Job ν δ} (hp : t.signalAll.jobs[pid]? = some p) :
    p.atLarge = false := by
  rw [Table.signalAll, getElem?_signals] at hp
  split at hp
  · obtain ⟨p', -, rfl⟩ := Option.map_eq_some_iff.mp hp
    simp [Job.atLarge]
  · rename_i hout
    by_contra hl
    have hr := h.atLarge pid p hp (by simpa using hl)
    exact hout (List.mem_map.mpr ⟨(p.name, pid), Std.TreeMap.mem_toList_iff_getElem?_eq_some.mpr hr, rfl⟩)

end Watched

end Table

end Jobs
