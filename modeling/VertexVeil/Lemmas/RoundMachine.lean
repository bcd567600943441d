import VertexVeil.RoundMachine
import VertexVeil.Soundness

/-!
# Helpers about the round machine: what its commitments always satisfy

`RoundMachine.Inv` is what every call keeps: each commitment the machine holds is stored under its node, is of the active round,
and is sound. `Reachable.inv` is the run lemma.
-/

namespace VertexVeil

open Codec

namespace RoundMachine

/-- The rounds a machine has held, the active one last. -/
def rounds (m : RoundMachine) : List FinalizedRound :=
  m.past ++ [{ round := m.current, commitments := m.commitments, proposal := m.proposal }]

theorem mem_rounds {m : RoundMachine} {f : FinalizedRound} :
    f ∈ m.rounds ↔ f ∈ m.past ∨ f = { round := m.current, commitments := m.commitments, proposal := m.proposal } := by
  simp [rounds]

/-- A commitment the machine holds for a node. -/
structure Held (m : RoundMachine) (n : NodeId) (c : CommitmentRecord) : Prop where
  node : c.nodeId = n
  round : c.round = m.current
  sound : SoundCommitment m.topology c
  capability : lacksRequiredCapability c.publicIntent = false

/-- A held commitment's intent is its node's and of the active round. -/
theorem Held.intent {m : RoundMachine} {n : NodeId} {c : CommitmentRecord} (h : m.Held n c) :
    c.publicIntent.nodeId = n ∧ c.publicIntent.round = m.current :=
  ⟨h.sound.intentNode.trans h.node, h.sound.intentRound.trans h.round⟩

/-- What every call of the machine keeps. -/
structure Inv (t : TopologyConfig) (m : RoundMachine) : Prop where
  topology : m.topology = t
  held : ∀ n c, m.commitments[n]? = some c → m.Held n c

theorem inv_new (t : TopologyConfig) (start : RoundId) : Inv t (new t start) :=
  ⟨rfl, fun n c h => by simp [new] at h⟩

/-- A record that passes the machine's checks is sound. -/
theorem Committable.sound {m : RoundMachine} {c : CommitmentRecord} (h : Committable m c) :
    SoundCommitment m.topology c := by
  obtain ⟨n, hn, hrole⟩ := h.node
  obtain ⟨hm, hid⟩ := TopologyConfig.findNode_some hn
  exact ⟨⟨n, hm, hid, hrole.symm⟩, h.intentNode, h.intentRound.trans h.round.symm⟩

theorem getElem?_addCommitment (m : RoundMachine) (c : CommitmentRecord) (n : NodeId) :
    (m.addCommitment c).commitments[n]? = if c.nodeId = n then some c else m.commitments[n]? := by
  simp only [addCommitment, Std.TreeMap.getElem?_insert, compare_eq_iff_eq]

theorem mem_addCommitment (m : RoundMachine) (c : CommitmentRecord) (n : NodeId) :
    n ∈ (m.addCommitment c).commitments ↔ c.nodeId = n ∨ n ∈ m.commitments := by
  simp only [addCommitment, Std.TreeMap.mem_insert, compare_eq_iff_eq]

variable {t : TopologyConfig} {m : RoundMachine}

theorem Inv.acceptCommitment (h : Inv t m) (c : CommitmentRecord) : Inv t (m.acceptCommitment c).2 := by
  rcases acceptCommitment_cases m c with ⟨hc, ha⟩ | ⟨-, e, ha⟩
  · rw [ha]
    refine ⟨h.topology, ?_⟩
    intro n d hd
    rw [getElem?_addCommitment] at hd
    split at hd
    · rename_i hn
      obtain rfl := Option.some.inj hd
      exact ⟨hn, hc.round, hc.sound, hc.capability⟩
    · obtain ⟨h1, h2, h3, h4⟩ := h.held n d hd
      exact ⟨h1, h2, h3, h4⟩
  · rw [ha]
    exact h

theorem Inv.acceptProposal (h : Inv t m) (p : ProposalRecord) : Inv t (m.acceptProposal p).2 := by
  rcases acceptProposal_cases m p with ⟨-, ha⟩ | ⟨-, e, ha⟩
  · rw [ha]
    exact ⟨h.topology, fun n c hc => ⟨(h.held n c hc).1, (h.held n c hc).2, (h.held n c hc).3, (h.held n c hc).4⟩⟩
  · rw [ha]
    exact h

theorem Inv.advanceTo (h : Inv t m) (next : RoundId) : Inv t (m.advanceTo next).2 := by
  unfold RoundMachine.advanceTo
  split
  · exact h
  · exact ⟨h.topology, fun n c hc => by simp at hc⟩

/-- Every call keeps the invariant. -/
theorem Inv.exec (h : Inv t m) {call : RoundCall} {m' : RoundMachine} (he : call.exec m = some m') : Inv t m' := by
  cases call with
  | acceptCommitment record => exact Option.some.inj he ▸ h.acceptCommitment record
  | acceptProposal proposal => exact Option.some.inj he ▸ h.acceptProposal proposal
  | advanceTo next => exact Option.some.inj he ▸ h.advanceTo next
  | advanceFallback =>
    obtain ⟨r, hr, rfl⟩ := Option.map_eq_some_iff.mp he
    obtain ⟨next, -, rfl⟩ := Option.map_eq_some_iff.mp hr
    exact h.advanceTo next

/-- Every reachable machine satisfies the invariant. -/
theorem inv_of_reachable (h : (machine t).Reachable m) : Inv t m := by
  refine h.invariant (fun s hs => ?_) (fun s a s' _ hi he => hi.exec he)
  obtain ⟨start, rfl⟩ := hs
  exact inv_new t start

/-- The snapshot holds the commitments of the nodes other than the requester. -/
theorem mem_providersSnapshot {reqId : NodeId} {c : CommitmentRecord} :
    c ∈ m.providersSnapshot reqId ↔ ∃ n, n ≠ reqId ∧ m.commitments[n]? = some c := by
  simp only [providersSnapshot, List.mem_map, List.mem_filter, decide_eq_true_eq]
  constructor
  · rintro ⟨⟨n, d⟩, ⟨hm, hn⟩, rfl⟩
    exact ⟨n, hn, Std.TreeMap.mem_toList_iff_getElem?_eq_some.mp hm⟩
  · rintro ⟨n, hn, hc⟩
    exact ⟨(n, c), ⟨Std.TreeMap.mem_toList_iff_getElem?_eq_some.mpr hc, hn⟩, rfl⟩

/-- A proposal the machine would accept names the requester, the capability and a feasible provider, so `deriveCandidate`
succeeds with the same requester and capability and a provider at or below the proposed one; the two providers are the same
exactly when no feasible one has a smaller key. -/
theorem feasible_of_proposable {Γ : Crypto} (T : LoadedTopology Γ) (hinv : Inv T.config m) {n : NodeConfig}
    (hn : T.config.requester = some n) {req : CommitmentRecord} (hreq : m.commitments[n.id]? = some req) {p : ProposalRecord}
    (hprop : Proposable m p) :
    p.candidateProvider ∈ feasibleProviders m.current req (m.providersSnapshot n.id) ∧
    ∃ c, deriveCandidate m.current req (m.providersSnapshot n.id) = .ok (some c) ∧
      c.requester = p.candidateRequester ∧ c.matchedCapability = p.matchedCapability ∧
      c.provider ≤ p.candidateProvider ∧
      (c.provider = p.candidateProvider ↔
        ∀ k ∈ feasibleProviders m.current req (m.providersSnapshot n.id), p.candidateProvider ≤ k) := by
  obtain ⟨c, r, hc, hci⟩ := hprop.requester
  obtain ⟨d, r', claims, hd, hdi, hmem⟩ := hprop.provider
  have hheldc := hinv.held _ c hc
  have hheldd := hinv.held _ d hd
  obtain ⟨n₀, hn₀, -, -, huniq⟩ := T.wellFormed.requester_unique
  have hnn : n₀ = n := Option.some.inj (hn₀.symm.trans hn)
  -- the requester the proposal names is the topology's
  have hid : p.candidateRequester = n.id := by
    obtain ⟨k, hk, hkid, hkrole⟩ := hheldc.sound.node
    rw [hci] at hkrole
    have hkn : k = n := (huniq k (hinv.topology ▸ hk) hkrole).trans hnn
    exact (hheldc.node.symm.trans hkid.symm).trans (congrArg NodeConfig.id hkn)
  rw [hid] at hc
  obtain rfl : req = c := Option.some.inj (hreq.symm.trans hc)
  obtain ⟨-, hr⟩ := hheldc.intent
  obtain ⟨-, hr'⟩ := hheldd.intent
  rw [hci] at hr
  rw [hdi] at hr'
  obtain rfl : r = m.current := hr
  obtain rfl : r' = m.current := hr'
  have hcap : p.matchedCapability.asStr ≠ [] := by
    have := hheldc.capability
    rw [hci] at this
    simpa [lacksRequiredCapability] using this
  have hne : p.candidateProvider ≠ n.id := by
    intro he
    rw [he, hreq, Option.some.injEq] at hd
    rw [← hd, hci] at hdi
    simp at hdi
  have hfeas : p.candidateProvider ∈ feasibleProviders m.current req (m.providersSnapshot n.id) := by
    refine mem_feasibleProviders.mpr ⟨d, mem_providersSnapshot.mpr ⟨_, hne, hd⟩, hheldd.node, ?_⟩
    rw [hci, hdi, feasible_iff]
    exact ⟨rfl, rfl, hmem⟩
  obtain ⟨cand, hcand, h1, h2, h3, h4⟩ := deriveCandidate_of_feasible hci hcap hfeas
  exact ⟨hfeas, cand, hcand, h1.trans (hheldc.node), h2, h3, h4⟩

end RoundMachine

end VertexVeil
