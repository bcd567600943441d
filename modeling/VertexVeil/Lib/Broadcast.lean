import VertexVeil.Lib.Transition
import Mathlib.Data.List.ReduceOption
import Mathlib.Logic.Function.Basic

/-!
# Processes over a totally ordered broadcast

What processes broadcast is put, one message after the other and in any order, on a stream; every process hears the stream from
its start and in its order, at its own pace, and between two messages it may act on its own. `history` says that a process is
what its own steps make of it, and that what it heard is the beginning of the stream; `pointwise` is the rule that proves a
property of every process from the steps of one, where what a process hears was said by one with the property.
-/

namespace Broadcast

open Transition

/-- What a process does with the next message of the stream, and what it broadcasts and becomes on its own; `none` where it
does not take the step. -/
structure Protocol (π μ : Type) where
  hear : π → μ → Option π
  act : π → Option (List μ × π)

/-- The processes of a network, what each has broadcast and how much of the stream it has heard, the messages not yet ordered
and the stream. -/
structure Net (ι π μ : Type) where
  procs : ι → Option π
  sent : ι → List μ
  heard : ι → Nat
  inFlight : List μ
  stream : List μ

/-- A step of a network. -/
inductive Action (ι : Type) where
  | order (k : Nat)
  | hear (i : ι)
  | act (i : ι)

section

variable {ι π μ : Type}

/-- A network in which nothing was broadcast. -/
def Net.boot (procs : ι → Option π) : Net ι π μ :=
  { procs, sent := fun _ => [], heard := fun _ => 0, inFlight := [], stream := [] }

/-- Put a message in flight on the stream. -/
def Net.order (n : Net ι π μ) (k : Nat) (m : μ) : Net ι π μ :=
  { n with inFlight := n.inFlight.eraseIdx k, stream := n.stream ++ [m] }

variable [DecidableEq ι]

/-- A process after it heard a message. -/
def Net.hears (n : Net ι π μ) (i : ι) (p : π) : Net ι π μ :=
  { n with procs := Function.update n.procs i (some p), heard := Function.update n.heard i (n.heard i + 1) }

/-- A process after it broadcast messages. -/
def Net.acts (n : Net ι π μ) (i : ι) (msgs : List μ) (p : π) : Net ι π μ :=
  { n with
    procs := Function.update n.procs i (some p), sent := Function.update n.sent i (n.sent i ++ msgs)
    inFlight := n.inFlight ++ msgs }

/-- A step of a network, where it is enabled. -/
def exec (P : Protocol π μ) (n : Net ι π μ) : Action ι → Option (Net ι π μ)
  | .order k => n.inFlight[k]?.map (n.order k)
  | .hear i => (n.procs i).bind fun p => n.stream[n.heard i]?.bind fun m => (P.hear p m).map (n.hears i)
  | .act i => (n.procs i).bind fun p => (P.act p).map fun x => n.acts i x.1 x.2

/-- The networks of processes that start as `Boot` says. -/
def machine (P : Protocol π μ) (Boot : ι → π → Prop) : Machine (Net ι π μ) (Action ι) where
  start n := ∃ procs, (∀ i p, procs i = some p → Boot i p) ∧ n = .boot procs
  exec := exec P

variable {P : Protocol π μ} {n n' : Net ι π μ}

/-- Everything a step can do: order a message, let a process hear the next one, or let it act. -/
theorem exec_cases {a : Action ι} (h : exec P n a = some n') :
    (∃ k m, n.inFlight[k]? = some m ∧ n' = n.order k m) ∨
      (∃ i p m p', n.procs i = some p ∧ n.stream[n.heard i]? = some m ∧ P.hear p m = some p' ∧ n' = n.hears i p') ∨
        ∃ i p msgs p', n.procs i = some p ∧ P.act p = some (msgs, p') ∧ n' = n.acts i msgs p' := by
  cases a with
  | order k =>
    obtain ⟨m, hm, rfl⟩ := Option.map_eq_some_iff.mp h
    exact Or.inl ⟨k, m, hm, rfl⟩
  | hear i =>
    obtain ⟨p, hp, h⟩ := Option.bind_eq_some_iff.mp h
    obtain ⟨m, hm, h⟩ := Option.bind_eq_some_iff.mp h
    obtain ⟨p', hp', rfl⟩ := Option.map_eq_some_iff.mp h
    exact Or.inr (Or.inl ⟨i, p, m, p', hp, hm, hp', rfl⟩)
  | act i =>
    obtain ⟨p, hp, h⟩ := Option.bind_eq_some_iff.mp h
    obtain ⟨⟨msgs, p'⟩, hp', rfl⟩ := Option.map_eq_some_iff.mp h
    exact Or.inr (Or.inr ⟨i, p, msgs, p', hp, hp', rfl⟩)

section

variable {Boot : ι → π → Prop} {i : ι} {p p' : π} {m : μ} {msgs : List μ} {k : Nat}

theorem reachable_order (h : (machine P Boot).Reachable n) (hm : n.inFlight[k]? = some m) :
    (machine P Boot).Reachable (n.order k m) :=
  h.step (a := .order k) (by simp only [machine, exec, hm, Option.map_some])

theorem reachable_hears (h : (machine P Boot).Reachable n) (hp : n.procs i = some p) (hm : n.stream[n.heard i]? = some m)
    (hs : P.hear p m = some p') : (machine P Boot).Reachable (n.hears i p') :=
  h.step (a := .hear i) (by simp only [machine, exec, hp, hm, hs, Option.bind_some, Option.map_some])

theorem reachable_acts (h : (machine P Boot).Reachable n) (hp : n.procs i = some p) (hs : P.act p = some (msgs, p')) :
    (machine P Boot).Reachable (n.acts i msgs p') :=
  h.step (a := .act i) (by simp only [machine, exec, hp, hs, Option.bind_some, Option.map_some])

end

/-! ## What was said -/

/-- Every message of the network was broadcast by one of its processes. -/
def Attributed (n : Net ι π μ) : Prop :=
  ∀ m, m ∈ n.inFlight ∨ m ∈ n.stream → ∃ j q, n.procs j = some q ∧ m ∈ n.sent j

theorem Attributed.update (h : Attributed n) {i : ι} {p : π} (p' : π) (msgs : List μ) (hp : n.procs i = some p) {m : μ}
    (hm : m ∈ n.inFlight ∨ m ∈ n.stream) :
    ∃ j q, Function.update n.procs i (some p') j = some q ∧ m ∈ Function.update n.sent i (n.sent i ++ msgs) j := by
  obtain ⟨j, q, hq, hj⟩ := h m hm
  by_cases he : j = i
  · subst he
    exact ⟨j, p', Function.update_self .., by rw [Function.update_self]; exact List.mem_append_left _ hj⟩
  · exact ⟨j, q, by rw [Function.update_of_ne he]; exact hq, by rw [Function.update_of_ne he]; exact hj⟩

theorem attributed {Boot : ι → π → Prop} (h : (machine P Boot).Reachable n) : Attributed n := by
  refine h.invariant ?_ ?_
  · rintro _ ⟨procs, -, rfl⟩ m (hm | hm)
    · exact absurd hm List.not_mem_nil
    · exact absurd hm List.not_mem_nil
  · intro n a n' _ hn hs m hm
    rcases exec_cases hs with ⟨k, m', hk, rfl⟩ | ⟨i, p, m', p', hp, -, -, rfl⟩ | ⟨i, p, msgs, p', hp, -, rfl⟩
    · refine hn m ?_
      rcases hm with hm | hm
      · exact Or.inl (List.mem_of_mem_eraseIdx hm)
      · rcases List.mem_append.mp hm with hm | hm
        · exact Or.inr hm
        · exact Or.inl (List.mem_singleton.mp hm ▸ List.mem_of_getElem? hk)
    · obtain ⟨j, q, hq, hj⟩ := hn.update p' [] hp hm
      refine ⟨j, q, hq, ?_⟩
      rwa [List.append_nil, Function.update_eq_self] at hj
    · rcases hm with hm | hm
      · rcases List.mem_append.mp hm with hm | hm
        · exact hn.update p' msgs hp (Or.inl hm)
        · refine ⟨i, p', Function.update_self .., ?_⟩
          change m ∈ Function.update n.sent i _ i
          rw [Function.update_self]
          exact List.mem_append_right _ hm
      · exact hn.update p' msgs hp (Or.inr hm)

/-- Where there is no process nothing was said. -/
theorem silent {Boot : ι → π → Prop} (h : (machine P Boot).Reachable n) {i : ι} (hi : n.procs i = none) : n.sent i = [] := by
  refine h.invariant (P := fun n => ∀ i, n.procs i = none → n.sent i = []) ?_ ?_ i hi
  · rintro _ ⟨procs, -, rfl⟩ i _
    rfl
  · intro n a n' _ hn hs i hi
    rcases exec_cases hs with ⟨k, m, -, rfl⟩ | ⟨j, q, m, q', -, -, -, rfl⟩ | ⟨j, q, msgs, q', -, -, rfl⟩
    · exact hn i hi
    · change Function.update n.procs j (some q') i = none at hi
      by_cases he : i = j
      · subst he
        rw [Function.update_self] at hi
        simp at hi
      · rw [Function.update_of_ne he] at hi
        exact hn i hi
    · change Function.update n.procs j (some q') i = none at hi
      change Function.update n.sent j (n.sent j ++ msgs) i = []
      by_cases he : i = j
      · subst he
        rw [Function.update_self] at hi
        simp at hi
      · rw [Function.update_of_ne he] at hi ⊢
        exact hn i hi

/-- The invariant rule for the processes of a network. A property of a process may speak of what every process has said; it
must survive what others say, hold of a process that starts, and be kept when a process hears what a process with the property
said and when it acts. -/
theorem pointwise {Boot : ι → π → Prop} {L : (ι → List μ) → ι → π → Prop}
    (hmono : ∀ S S' i p, (∀ j, S j <+: S' j) → S' i = S i → L S i p → L S' i p)
    (hboot : ∀ i p, Boot i p → L (fun _ => []) i p)
    (hhear : ∀ S i p m p', L S i p → (∃ j q, L S j q ∧ m ∈ S j) → P.hear p m = some p' → L S i p')
    (hact : ∀ S i p msgs p', L S i p → P.act p = some (msgs, p') → L (Function.update S i (S i ++ msgs)) i p')
    (h : (machine P Boot).Reachable n) {i : ι} {p : π} (hp : n.procs i = some p) : L n.sent i p := by
  refine h.invariant (P := fun n => ∀ i p, n.procs i = some p → L n.sent i p) ?_ ?_ i p hp
  · rintro _ ⟨procs, hprocs, rfl⟩ i p hp
    exact hboot i p (hprocs i p hp)
  · intro n a n' hr hn hs i p hp
    rcases exec_cases hs with ⟨k, m, hk, rfl⟩ | ⟨j, q, m, q', hq, hm, hq', rfl⟩ | ⟨j, q, msgs, q', hq, hq', rfl⟩
    · exact hn i p hp
    · change Function.update n.procs j (some q') i = some p at hp
      change L n.sent i p
      by_cases he : i = j
      · subst he
        rw [Function.update_self, Option.some.injEq] at hp
        obtain ⟨k, r, hk, hmk⟩ := attributed hr m (Or.inr (List.mem_of_getElem? hm))
        exact hp ▸ hhear _ _ _ _ _ (hn i q hq) ⟨k, r, hn k r hk, hmk⟩ hq'
      · rw [Function.update_of_ne he] at hp
        exact hn i p hp
    · change Function.update n.procs j (some q') i = some p at hp
      change L (Function.update n.sent j (n.sent j ++ msgs)) i p
      by_cases he : i = j
      · subst he
        rw [Function.update_self, Option.some.injEq] at hp
        exact hp ▸ hact _ _ _ _ _ (hn i q hq) hq'
      · rw [Function.update_of_ne he] at hp
        refine hmono _ _ _ _ (fun k => ?_) (Function.update_of_ne he _ _) (hn i p hp)
        by_cases hk : k = j
        · subst hk
          rw [Function.update_self]
          exact List.prefix_append _ _
        · simp only [Function.update_of_ne hk, List.prefix_refl]

/-! ## What a process heard -/

/-- A process through polls of the stream, one after the other: it hears a message, or acts when there is none. -/
def Protocol.follow (P : Protocol π μ) : π → List (Option μ) → Option (List μ × π)
  | p, [] => some ([], p)
  | p, some m :: polls => (P.hear p m).bind fun p' => P.follow p' polls
  | p, none :: polls => (P.act p).bind fun x => (P.follow x.2 polls).map fun y => (x.1 ++ y.1, y.2)

omit [DecidableEq ι] in
/-- Polls after polls. -/
theorem Protocol.follow_append {p q : π} {polls polls' : List (Option μ)} {msgs : List μ}
    (h : P.follow p polls = some (msgs, q)) :
    P.follow p (polls ++ polls') = (P.follow q polls').map fun y => (msgs ++ y.1, y.2) := by
  induction polls generalizing p msgs with
  | nil =>
    simp only [follow, Option.some.injEq, Prod.mk.injEq] at h
    obtain ⟨rfl, rfl⟩ := h
    simp
  | cons poll polls ih =>
    cases poll with
    | some m =>
      obtain ⟨p', hp', h⟩ := Option.bind_eq_some_iff.mp h
      rw [List.cons_append, follow, hp', Option.bind_some, ih h]
    | none =>
      obtain ⟨⟨msgs₁, p'⟩, hp', h⟩ := Option.bind_eq_some_iff.mp h
      obtain ⟨⟨msgs₂, q'⟩, h₂, he⟩ := Option.map_eq_some_iff.mp h
      obtain ⟨rfl, rfl⟩ := Prod.mk.inj he
      rw [List.cons_append, follow, hp', Option.bind_some, ih h₂, Option.map_map]
      simp only [Function.comp_def, List.append_assoc]

/-- What a process went through: it started, followed polls, said what it did say and became what it is, and the messages it
heard are the first of the stream. -/
structure History (P : Protocol π μ) (Boot : ι → π → Prop) (n : Net ι π μ) (i : ι) (p : π) (p₀ : π)
    (polls : List (Option μ)) : Prop where
  boot : Boot i p₀
  follows : P.follow p₀ polls = some (n.sent i, p)
  heard : polls.reduceOption = n.stream.take (n.heard i)
  bound : n.heard i ≤ n.stream.length

omit [DecidableEq ι] in
theorem History.congr {Boot : ι → π → Prop} {i : ι} {p p₀ : π} {polls : List (Option μ)} (h : History P Boot n i p p₀ polls)
    (hsent : n'.sent i = n.sent i) (hheard : n'.heard i = n.heard i) (hstream : n.stream <+: n'.stream) :
    History P Boot n' i p p₀ polls := by
  obtain ⟨rest, hrest⟩ := hstream
  refine ⟨h.boot, hsent ▸ h.follows, ?_, ?_⟩
  · rw [h.heard, hheard, ← hrest, List.take_append_of_le_length h.bound]
  · rw [hheard, ← hrest, List.length_append]
    exact Nat.le_add_right_of_le h.bound

/-- Every process of a reachable network has a history. -/
theorem history {Boot : ι → π → Prop} (h : (machine P Boot).Reachable n) {i : ι} {p : π} (hp : n.procs i = some p) :
    ∃ p₀ polls, History P Boot n i p p₀ polls := by
  refine h.invariant (P := fun n => ∀ i p, n.procs i = some p → ∃ p₀ polls, History P Boot n i p p₀ polls) ?_ ?_ i p hp
  · rintro _ ⟨procs, hprocs, rfl⟩ i p hp
    exact ⟨p, [], hprocs i p hp, rfl, rfl, Nat.le_refl _⟩
  · intro n a n' _ hn hs i p hp
    rcases exec_cases hs with ⟨k, m, hk, rfl⟩ | ⟨j, q, m, q', hq, hm, hq', rfl⟩ | ⟨j, q, msgs, q', hq, hq', rfl⟩
    · obtain ⟨p₀, polls, hh⟩ := hn i p hp
      exact ⟨p₀, polls, hh.congr rfl rfl (List.prefix_append _ _)⟩
    · change Function.update n.procs j (some q') i = some p at hp
      by_cases he : i = j
      · subst he
        rw [Function.update_self, Option.some.injEq] at hp
        subst hp
        obtain ⟨p₀, polls, hh⟩ := hn i q hq
        refine ⟨p₀, polls ++ [some m], hh.boot, ?_, ?_, ?_⟩
        · rw [Protocol.follow_append hh.follows, Protocol.follow, hq', Option.bind_some, Protocol.follow, Option.map_some,
            List.append_nil]
          rfl
        · change _ = n.stream.take (Function.update n.heard i (n.heard i + 1) i)
          rw [List.reduceOption_append, hh.heard, Function.update_self, List.take_add_one, hm]
          rfl
        · change Function.update n.heard i (n.heard i + 1) i ≤ n.stream.length
          rw [Function.update_self]
          exact (List.getElem?_eq_some_iff.mp hm).1
      · rw [Function.update_of_ne he] at hp
        obtain ⟨p₀, polls, hh⟩ := hn i p hp
        exact ⟨p₀, polls, hh.congr rfl (Function.update_of_ne he _ _) (List.prefix_refl _)⟩
    · change Function.update n.procs j (some q') i = some p at hp
      by_cases he : i = j
      · subst he
        rw [Function.update_self, Option.some.injEq] at hp
        subst hp
        obtain ⟨p₀, polls, hh⟩ := hn i q hq
        refine ⟨p₀, polls ++ [none], hh.boot, ?_, ?_, hh.bound⟩
        · rw [Protocol.follow_append hh.follows, Protocol.follow, hq', Option.bind_some, Protocol.follow, Option.map_some,
            Option.map_some, List.append_nil]
          change _ = some (Function.update n.sent i (n.sent i ++ msgs) i, _)
          rw [Function.update_self]
        · rw [List.reduceOption_append, hh.heard]
          exact List.append_nil _
      · rw [Function.update_of_ne he] at hp
        obtain ⟨p₀, polls, hh⟩ := hn i p hp
        exact ⟨p₀, polls, hh.congr (Function.update_of_ne he _ _) rfl (List.prefix_refl _)⟩

end

end Broadcast
