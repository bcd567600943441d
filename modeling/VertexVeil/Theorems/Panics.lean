import VertexVeil.Fixtures
import VertexVeil.Lemmas.InProcess
import VertexVeil.Lemmas.Panics

/-!
# Runs that do not panic

Whatever a transport delivers, a run of a loaded topology and some of its loaded agents returns an outcome or an error.
-/

namespace VertexVeil

open Codec

/-! ## No delivered message crashes a node -/

/-- **No delivered message crashes a node.** A process with some of the loaded agents is built, and its run does not panic, over
any transport: whatever it delivers in each phase, and whichever broadcasts it refuses. -/
theorem run_no_panic {Γ : Crypto} (T : LoadedTopology Γ) (L : LoadedAgents Γ T.config) (agents : Agents)
    (hsub : ∀ (id : NodeId) a, agents[id]? = some a → L.agents[id]? = some a) (hne : ∃ id, id ∈ agents) {τ : Type}
    [CoordinationTransport τ] (transport : τ) (scenario : Scenario) (maxRounds : UInt64) (salt : Bytes 32) (runId : String) :
    ∃ rt, Runtime.new T.config transport agents scenario maxRounds = .ok rt ∧
      NoPanic ((rt.withRunSalt salt).run Γ runId) := by
  have ha : AgentsOf Γ T.config agents := fun id a h => L.agentsOf id a (hsub id a h)
  have hnodes : ∀ id ∈ agents, ∃ n ∈ T.config.nodes, n.id = id := by
    intro id hid
    obtain ⟨a, h⟩ := Option.isSome_iff_exists.mp (Std.TreeMap.mem_iff_isSome_getElem?.mp hid)
    obtain ⟨n, hn, -⟩ := ha id a h
    exact ⟨n, TopologyConfig.findNode_some hn⟩
  exact ⟨_, Runtime.new_of_nodes T hnodes hne transport scenario maxRounds,
    Runtime.noPanic_run T ha transport scenario maxRounds salt runId⟩

/-- The requester's own process, delivered what the others said. -/
theorem run_no_panic_sample : ∃ rt,
    Runtime.new Sample.topology.config (Sample.deliveries [Sample.receipt]) Sample.requesterOnly .empty 1 = .ok rt ∧
      NoPanic ((rt.withRunSalt Sample.salt).run Sample.crypto "run") := by
  refine run_no_panic Sample.topology Sample.agents Sample.requesterOnly ?_ ⟨Sample.requester, ?_⟩ _ _ _ _ _
  · intro id a h
    rw [Sample.requesterOnly, Std.TreeMap.getElem?_filter', Option.filter_eq_some_iff] at h
    exact h.1
  · obtain ⟨a, ha, -⟩ := Sample.agents.exists_agent Sample.topology.wellFormed (n := Sample.requesterConfig) (by decide)
    have hkept : Sample.requesterOnly[Sample.requester]? = some a := by
      rw [Sample.requesterOnly, Std.TreeMap.getElem?_filter', show Sample.agents.agents[Sample.requester]? = some a from ha]
      rfl
    rw [Std.TreeMap.mem_iff_isSome_getElem?, hkept]
    rfl

end VertexVeil
