import VertexVeil.Fixtures
import VertexVeil.Worker

/-!
# The order of what a node receives

What the calls of `next_ordered` return is the beginning of what the worker sent, however the two threads interleave.
-/

namespace VertexVeil

open Fifo

/-! ## The transport keeps the consensus order -/

namespace VertexTransport

/-- The messages between the worker and the caller: those that were flushed, then those in the channel. -/
def backlog (t : VertexTransport) : List CoordinationMessage := t.pending ++ t.inbound.queue

end VertexTransport

namespace WorkerAux

variable {J : Serde} {t : VertexTransport}
  {recv : Channel CoordinationMessage → Received CoordinationMessage × Channel CoordinationMessage}

/-! ### The calls -/

/-- Receiving moves a message from the channel to `pending`: the backlog is the same. -/
theorem backlog_recvIntoPending (h : Channel.Takes recv) (t : VertexTransport) :
    (t.recvIntoPending recv).2.backlog = t.backlog ∧
      (t.recvIntoPending recv).2.inbound.receiver = t.inbound.receiver := by
  have hq := h.queue t.inbound
  have hr := h.receiver t.inbound
  unfold VertexTransport.recvIntoPending
  split
  · exact ⟨rfl, rfl⟩
  · split
    · rename_i msg inbound he
      rw [he] at hq hr
      refine ⟨?_, hr⟩
      rw [VertexTransport.backlog, VertexTransport.backlog, ← hq, List.append_assoc]
      rfl
    · rename_i inbound he
      rw [he] at hq hr
      exact ⟨congrArg (t.pending ++ ·) hq, hr⟩
    · rename_i inbound he
      rw [he] at hq hr
      exact ⟨congrArg (t.pending ++ ·) hq, hr⟩

theorem backlog_popFront (t : VertexTransport) : t.popFront.1.toList ++ t.popFront.2.backlog = t.backlog := by
  unfold VertexTransport.popFront VertexTransport.backlog
  cases t.pending <;> rfl

/-- What `next_ordered` returns comes off the front of the backlog. -/
theorem backlog_nextOrdered (h : Channel.Takes recv) (t : VertexTransport) :
    (t.nextOrdered recv).1.toList ++ (t.nextOrdered recv).2.backlog = t.backlog ∧
      (t.nextOrdered recv).2.inbound.receiver = t.inbound.receiver := by
  have hpop := backlog_popFront t
  unfold VertexTransport.nextOrdered
  split
  · rename_i msg t' he
    rw [he] at hpop
    exact ⟨hpop, congrArg (fun x => x.2.inbound.receiver) he.symm⟩
  · rename_i t' he
    rw [he] at hpop
    have ht' : t'.inbound.receiver = t.inbound.receiver := congrArg (fun x => x.2.inbound.receiver) he.symm
    obtain ⟨hb, hr⟩ := backlog_recvIntoPending h t'
    split
    · rename_i moved t'' hrec
      rw [hrec] at hb hr
      exact ⟨(backlog_popFront t'').trans (hb.trans hpop), hr.trans ht'⟩
    · rename_i e t'' hrec
      rw [hrec] at hb hr
      exact ⟨hb.trans hpop, hr.trans ht'⟩

/-- A broadcast does not touch what comes in. -/
theorem broadcast_inbound (J : Serde) (t : VertexTransport) (msg : CoordinationMessage) :
    (t.broadcast J msg).2.pending = t.pending ∧ (t.broadcast J msg).2.inbound = t.inbound := by
  unfold VertexTransport.broadcast
  split
  · exact ⟨rfl, rfl⟩
  · split <;> exact ⟨rfl, rfl⟩

/-! ### The invariant -/

/-- The messages the worker sent are those of the transactions it handled; they were returned, oldest first, or are in the
backlog, except that a dropped transport loses its backlog. -/
structure InOrder (J : Serde) (s : Threads) : Prop where
  handled : s.sent = s.handled.filterMap J.receive
  receiver : s.transport.inbound.receiver = true ↔ s.call ≠ .dropped
  accounted : s.call ≠ .dropped → s.sent = s.returned.reduceOption ++ s.transport.backlog
  returned : s.returned.reduceOption <+: s.sent

theorem InOrder.start (J : Serde) : InOrder J .start := by
  refine ⟨rfl, ?_, fun _ => rfl, List.prefix_refl _⟩
  simp [Threads.start, VertexTransport.start, Channel.new]

variable {s s' : Threads}

/-- A step that sends and returns nothing, keeps the backlog and does not drop the transport. -/
theorem InOrder.congr (h : InOrder J s) (hh : s'.handled = s.handled) (hs : s'.sent = s.sent) (hr : s'.returned = s.returned)
    (hb : s'.transport.backlog = s.transport.backlog)
    (hrec : s'.transport.inbound.receiver = s.transport.inbound.receiver)
    (hd : s'.call = .dropped ↔ s.call = .dropped) : InOrder J s' where
  handled := by rw [hs, hh, h.handled]
  receiver := by rw [hrec, h.receiver, ne_eq, ne_eq, hd]
  accounted hc := by rw [hs, hr, hb, h.accounted (fun h0 => hc (hd.mpr h0))]
  returned := by rw [hs, hr]; exact h.returned

/-- A call of `next_ordered` returns what is next. -/
theorem InOrder.finish (h : InOrder J s) (hrecv : Channel.Takes recv) (hc : s.call ≠ .dropped) :
    InOrder J (s.finish (s.transport.nextOrdered recv)) := by
  obtain ⟨hb, hr⟩ := backlog_nextOrdered hrecv s.transport
  have hret : (s.finish (s.transport.nextOrdered recv)).returned.reduceOption =
      s.returned.reduceOption ++ (s.transport.nextOrdered recv).1.toList := by
    rw [Threads.finish, List.reduceOption_append]
    cases (s.transport.nextOrdered recv).1 <;> rfl
  have hacc : s.sent = (s.finish (s.transport.nextOrdered recv)).returned.reduceOption ++
      (s.transport.nextOrdered recv).2.backlog := by
    rw [hret, List.append_assoc, hb]
    exact h.accounted hc
  refine ⟨h.handled, ?_, fun _ => hacc, ?_⟩
  · exact iff_of_true (hr.trans (h.receiver.mpr hc)) (by simp [Threads.finish])
  · exact hacc ▸ List.prefix_append _ _

/-- A message that is sent joins the end of the backlog. -/
theorem InOrder.transaction (h : InOrder J s) (tx : Transaction) : InOrder J (s.transaction J tx) := by
  unfold Threads.transaction
  split
  · rename_i hskip
    refine ⟨?_, h.receiver, h.accounted, h.returned⟩
    rw [List.filterMap_append, List.filterMap_cons_none hskip, List.filterMap_nil, List.append_nil]
    exact h.handled
  · rename_i msg hmsg
    split
    · rename_i inbound hsend
      obtain ⟨hrec, rfl⟩ := Channel.send_eq_some.mp hsend
      refine ⟨?_, h.receiver, fun hc => ?_, h.returned.trans (List.prefix_append _ _)⟩
      · rw [List.filterMap_append, List.filterMap_cons_some hmsg, List.filterMap_nil, ← h.handled]
      · rw [h.accounted hc]
        simp only [VertexTransport.backlog, List.append_assoc]
    · exact h.congr rfl rfl rfl rfl rfl Iff.rfl

/-- One iteration of `flush` keeps the backlog. -/
theorem InOrder.flushOne (h : InOrder J s) (hc : s.call = .flushing) : InOrder J s.flushOne := by
  obtain ⟨hb, hr⟩ := backlog_recvIntoPending Channel.takes_tryRecv s.transport
  unfold Threads.flushOne
  split
  · rename_i t he
    rw [he] at hb hr
    exact h.congr rfl rfl rfl hb hr Iff.rfl
  · rename_i x t he
    rw [he] at hb hr
    exact h.congr rfl rfl rfl hb hr (by simp [hc])

/-- Every step of either thread keeps the order. -/
theorem InOrder.exec (h : InOrder J s) {step : ThreadStep} (hs : step.exec J s = some s') : InOrder J s' := by
  cases step with
  | broadcast msg =>
    obtain ⟨-, rfl⟩ := Option.ite_some_none_eq_some.mp hs
    obtain ⟨hp, hi⟩ := broadcast_inbound J s.transport msg
    refine h.congr rfl rfl rfl ?_ (congrArg Channel.receiver hi) Iff.rfl
    rw [VertexTransport.backlog, VertexTransport.backlog, hp, hi]
  | nextOrdered =>
    obtain ⟨hc, hs⟩ := Option.ite_none_right_eq_some.mp hs
    split at hs
    · obtain rfl := Option.some.inj hs
      exact h.congr rfl rfl rfl rfl rfl (by simp [hc])
    · obtain rfl := Option.some.inj hs
      exact h.finish Channel.takes_timeout (by simp [hc])
  | wake =>
    obtain ⟨⟨hc, -⟩, rfl⟩ := Option.ite_some_none_eq_some.mp hs
    exact h.finish Channel.takes_tryRecv (by simp [hc])
  | timeout =>
    obtain ⟨hc, rfl⟩ := Option.ite_some_none_eq_some.mp hs
    exact h.finish Channel.takes_timeout (by simp [hc])
  | flush =>
    obtain ⟨hc, rfl⟩ := Option.ite_some_none_eq_some.mp hs
    exact h.congr rfl rfl rfl rfl rfl (by simp [hc])
  | flushOne =>
    obtain ⟨hc, rfl⟩ := Option.ite_some_none_eq_some.mp hs
    exact h.flushOne hc
  | drop =>
    obtain ⟨hc, rfl⟩ := Option.ite_some_none_eq_some.mp hs
    exact ⟨h.handled, by simp [Channel.dropReceiver], fun hd => absurd rfl hd, h.returned⟩
  | command delivered =>
    simp only [ThreadStep.exec] at hs
    split at hs
    · obtain rfl := Option.some.inj hs
      exact h.congr rfl rfl rfl rfl rfl Iff.rfl
    · cases hs
  | transaction tx =>
    obtain ⟨-, rfl⟩ := Option.ite_some_none_eq_some.mp hs
    exact h.transaction tx
  | stop =>
    obtain ⟨-, rfl⟩ := Option.ite_some_none_eq_some.mp hs
    exact h.congr rfl rfl rfl rfl rfl Iff.rfl
  | dropOutbound =>
    obtain ⟨-, hs⟩ := Option.ite_none_left_eq_some.mp hs
    obtain rfl := Option.some.inj hs
    exact h.congr rfl rfl rfl rfl rfl Iff.rfl
  | dropInbound =>
    obtain ⟨-, hs⟩ := Option.ite_none_left_eq_some.mp hs
    obtain rfl := Option.some.inj hs
    exact h.congr rfl rfl rfl rfl rfl Iff.rfl

end WorkerAux

open WorkerAux

/-- **The consensus order is kept.** In every state the two threads reach, the messages that calls of `next_ordered` returned are
the first of those the worker sent, in their order; the worker sent the messages of the transactions it handled, one after the
other. As long as the transport is not dropped the rest of them is pending or in the channel, so that none is lost. -/
theorem transport_in_order (J : Serde) {s : Threads} (h : (threads J).Reachable s) :
    s.returned.reduceOption <+: s.sent ∧ s.sent = s.handled.filterMap J.receive ∧
      (s.call ≠ .dropped → s.sent = s.returned.reduceOption ++ (s.transport.pending ++ s.transport.inbound.queue)) := by
  have hin : InOrder J s := by
    refine h.invariant (P := InOrder J) (fun s hs => ?_) (fun _ _ _ _ hi hs => hi.exec hs)
    rw [show s = .start from hs]
    exact .start J
  exact ⟨hin.returned, hin.handled, hin.accounted⟩

/-- A poll times out, two messages come in around a flush and the next poll takes one. -/
def flushedSteps (first second : CoordinationMessage) : List ThreadStep :=
  [.nextOrdered, .timeout, .transaction (Serde.json.transaction Sample.requester first), .flush, .flushOne, .flushOne,
    .transaction (Serde.json.transaction Sample.requester second), .nextOrdered]

theorem run_flushedSteps (first second : CoordinationMessage) : ∃ s,
    (threads Serde.json).run .start (flushedSteps first second) = some s ∧ s.returned = [none, some first] := by
  simp [flushedSteps, Transition.Machine.run, threads, ThreadStep.exec, Threads.start, Threads.finish, Threads.flushOne,
    Threads.transaction, VertexTransport.start, VertexTransport.nextOrdered, VertexTransport.popFront,
    VertexTransport.recvIntoPending, Channel.new, Channel.timeout, Channel.tryRecv, Channel.send, Serde.json_receive]

/-- The first of two receipts is returned, and it is the first that was sent. -/
theorem transport_in_order_sample : ∃ s : Threads, s.returned.reduceOption = [⟨Sample.provider₁, .receipt Sample.receipt⟩] ∧
    s.returned.reduceOption <+: s.sent := by
  obtain ⟨s, hrun, hret⟩ := run_flushedSteps ⟨Sample.provider₁, .receipt Sample.receipt⟩ ⟨Sample.provider₂, .receipt Sample.receipt⟩
  exact ⟨s, by rw [hret]; rfl, (transport_in_order Serde.json (.run (.start rfl) hrun)).1⟩

end VertexVeil
