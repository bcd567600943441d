import VertexVeil.Lemmas.Archive
import VertexVeil.Lemmas.Ledger

/-!
# Helpers for `Theorems/Deliveries.lean`: what the logged proofs embed

The runtime drives its round machine by the machine's calls, so what `Archive` says of reachable machines holds of it; and every
logged proof carries the text of the commitment the machine held for its node in its round.
-/

namespace VertexVeil

open Codec RuntimeState RoundMachine

/-- The round machine is one that its calls lead to, in its round, and the logged proofs embed what it has held. -/
structure Embedded (t : TopologyConfig) (round : RoundId) (s : RuntimeState) : Prop where
  machine : (machine t).Reachable s.roundMachine
  current : s.roundMachine.current = round
  proofs : ∀ a ∈ s.log.proofs, ∃ c, s.roundMachine.Holds a.round a.nodeId c ∧
    extractCommitmentHashHex a.publicInputsHex = some c.commitmentHex

namespace Embedded

variable {Γ : Crypto} {t : TopologyConfig} {round : RoundId} {s s' : RuntimeState}

/-- The machine goes on by a call that loses no commitment and does not leave the round; no proof is logged. -/
theorem step (h : Embedded t round s) (call : RoundCall) (he : call.exec s.roundMachine = some s'.roundMachine)
    (hcur : s'.roundMachine.current = s.roundMachine.current)
    (hh : ∀ r n c, s.roundMachine.Holds r n c → s'.roundMachine.Holds r n c) (hp : s'.log.proofs = s.log.proofs) :
    Embedded t round s' := by
  refine ⟨h.machine.step he, hcur.trans h.current, ?_⟩
  intro a ha
  rw [hp] at ha
  obtain ⟨c, hc, hx⟩ := h.proofs a ha
  exact ⟨c, hh _ _ _ hc, hx⟩

theorem rejects (h : Embedded t round s) (hr : Rejects round s s') : Embedded t round s' := by
  obtain ⟨_, _, _, -, rfl⟩ := hr
  exact ⟨h.machine, h.current, h.proofs⟩

theorem takeCommitment (h : Embedded t round s) {c : CommitmentRecord} (hc : Committable s.roundMachine c) :
    Embedded t round (s.takeCommitment c) := by
  refine h.step (.acceptCommitment c) ?_ rfl (fun r n d hd => ?_) (congrArg Prod.fst (outputs_takeCommitment s c))
  · rw [RoundCall.exec, acceptCommitment_of_committable hc]
    rfl
  · exact (holds_addCommitment hc).mpr (Or.inl hd)

theorem handleCommitment (h : Embedded t round s) (msg : CoordinationMessage) :
    Embedded t round (handleCommitment round s msg) := by
  rcases handleCommitment_cases round s msg with ⟨c, -, -, hc, ⟨-, he⟩ | ⟨-, he⟩⟩ | hr
  · rw [he]
    exact h.takeCommitment hc
  · rw [he]
    have ht := h.takeCommitment hc
    exact ⟨ht.machine, ht.current, ht.proofs⟩
  · exact h.rejects hr

theorem handleProposal (h : Embedded t round s) (msg : CoordinationMessage) :
    Embedded t round (handleProposal round s msg) := by
  rcases handleProposal_cases round s msg with ⟨p, -, -, hp, he⟩ | hr
  · rw [he]
    refine h.step (.acceptProposal p) ?_ rfl (fun r n c hc => (holds_propose p).mpr hc) rfl
    rw [RoundCall.exec, acceptProposal_of_proposable hp]
    rfl
  · exact h.rejects hr

theorem handleProof (h : Embedded t round s) (msg : CoordinationMessage) : Embedded t round (handleProof round s msg) := by
  rcases handleProof_cases round s msg with ⟨a, c, -, -, hround, hc, hx, he⟩ | hr
  · rw [he]
    refine ⟨h.machine, h.current, ?_⟩
    intro b hb
    rcases List.mem_append.mp hb with hb | hb
    · exact h.proofs b hb
    · rw [List.mem_singleton.mp hb]
      exact ⟨c, holds_iff.mpr (Or.inr ⟨h.current.trans hround.symm, hc⟩), hx⟩
  · exact h.rejects hr

theorem handleReceipt (h : Embedded t round s) (msg : CoordinationMessage) :
    Embedded t round (handleReceipt round s msg) := by
  rcases handleReceipt_cases round s msg with ⟨r, -, -, -, -, he⟩ | ⟨-, hr⟩
  · rw [he]
    exact ⟨h.machine, h.current, h.proofs⟩
  · exact h.rejects hr

/-- Every step of a round and the step to the next one keep it, whatever is delivered. -/
theorem kept : Kept Γ (Embedded t) where
  rejects _ _ _ h hr := h.rejects hr
  remember _ _ _ _ h _ := ⟨h.machine, h.current, h.proofs⟩
  commitment _ _ msg h := h.handleCommitment msg
  proposal _ _ msg h := h.handleProposal msg
  proof _ _ msg h := h.handleProof msg
  receipt _ _ msg h := h.handleReceipt msg
  advance r s m' h ha := by
    have he : RoundCall.exec s.roundMachine .advanceFallback = some m' := by
      rw [RoundCall.exec, ha]
      rfl
    obtain ⟨rfl, -⟩ := RoundMachine.advanceFallback_ok ha
    refine ⟨h.machine.step (a := .advanceFallback) he, congrArg (· + 1) h.current, ?_⟩
    intro a hm
    obtain ⟨c, hc, hx⟩ := h.proofs a hm
    exact ⟨c, (holds_advanced _).mpr hc, hx⟩

theorem start {runId : String} {agents : Agents} {scenario : Scenario} {maxRounds : UInt64} {salt : Bytes 32} :
    Embedded t 0 { RuntimeState.initial t agents scenario maxRounds with runSalt := salt, log := .new runId } :=
  ⟨.start ⟨0, rfl⟩, rfl, fun _ ha => absurd ha List.not_mem_nil⟩

end Embedded

/-- The log has the commitments the machine holds or has held. -/
theorem Ledger.holds_iff {t : TopologyConfig} {s : RuntimeState} (h : Ledger t s) {r : RoundId} {n : NodeId}
    {c : CommitmentRecord} : s.roundMachine.Holds r n c ↔ s.log.HasCommitment n r c := by
  constructor
  · rintro ⟨f, hf, rfl, hc⟩
    exact ((h.agrees f hf).commitments n c).mp hc
  · intro hc
    obtain ⟨f, hf, hr⟩ := h.commitmentRounds c hc.1
    have hr := hr.trans hc.2.2
    exact ⟨f, hf, hr, ((h.agrees f hf).commitments n c).mpr (hr ▸ hc)⟩

end VertexVeil
