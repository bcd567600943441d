import VertexVeil.Intents

/-!
# Adversarial scenarios

The events a run injects: they name public keys and rounds only.
-/

namespace VertexVeil

/-- An adversarial event. -/
inductive ScenarioEvent where
  | doubleCommit (node : NodeId) (round : RoundId)
  | replayPriorCommitment (node : NodeId) (round fromRound : RoundId)
  | dropNode (node : NodeId) (afterRound : RoundId)
  | injectInvalidProof (node : NodeId) (round : RoundId)
  deriving DecidableEq

/-- The node an event targets. -/
def ScenarioEvent.node : ScenarioEvent → NodeId
  | doubleCommit node _ => node
  | replayPriorCommitment node _ _ => node
  | dropNode node _ => node
  | injectInvalidProof node _ => node

/-- Whether an event targets a node in a round. A drop targets no particular round. -/
def ScenarioEvent.targets (node : NodeId) (round : RoundId) : ScenarioEvent → Bool
  | doubleCommit n r => n = node ∧ r = round
  | replayPriorCommitment n r _ => n = node ∧ r = round
  | injectInvalidProof n r => n = node ∧ r = round
  | dropNode _ _ => false

/-- The events of a run, in order. -/
structure Scenario where
  events : List ScenarioEvent
  deriving DecidableEq

namespace Scenario

/-- The scenario of a clean run. -/
def empty : Scenario := { events := [] }

/-- The events that target a node in a round. -/
def eventsForRound (s : Scenario) (node : NodeId) (round : RoundId) : List ScenarioEvent :=
  s.events.filter (ScenarioEvent.targets node round)

/-- Whether a node has dropped by a round. -/
def hasDropped (s : Scenario) (node : NodeId) (round : RoundId) : Bool :=
  s.events.any fun
    | .dropNode n afterRound => n = node ∧ afterRound < round
    | _ => false

/-- The `(node, round)` pairs an invalid proof is scheduled for. -/
def invalidProofs (s : Scenario) : Finset (NodeId × RoundId) :=
  (s.events.filterMap fun
    | .injectInvalidProof node round => some (node, round)
    | _ => none).toFinset

/-- A pair is scheduled exactly when an event injects it. -/
theorem mem_invalidProofs {s : Scenario} {node : NodeId} {round : RoundId} :
    (node, round) ∈ s.invalidProofs ↔ ScenarioEvent.injectInvalidProof node round ∈ s.events := by
  simp only [invalidProofs, List.mem_toFinset, List.mem_filterMap]
  constructor
  · rintro ⟨e, he, heq⟩
    cases e with
    | injectInvalidProof n r =>
      simp only [Option.some.injEq, Prod.mk.injEq] at heq
      obtain ⟨rfl, rfl⟩ := heq
      exact he
    | doubleCommit n r => simp at heq
    | replayPriorCommitment n r k => simp at heq
    | dropNode n r => simp at heq
  · intro he
    exact ⟨_, he, rfl⟩

/-- A node has dropped by a round exactly when an event drops it after an earlier one. -/
theorem hasDropped_iff {s : Scenario} {node : NodeId} {round : RoundId} :
    s.hasDropped node round = true ↔ ∃ r, ScenarioEvent.dropNode node r ∈ s.events ∧ r < round := by
  simp only [hasDropped, List.any_eq_true]
  constructor
  · rintro ⟨e, he, h⟩
    cases e with
    | dropNode n r =>
      simp only [decide_eq_true_eq] at h
      obtain ⟨rfl, hr⟩ := h
      exact ⟨r, he, hr⟩
    | injectInvalidProof n r => simp at h
    | doubleCommit n r => simp at h
    | replayPriorCommitment n r k => simp at h
  · rintro ⟨r, he, hr⟩
    exact ⟨_, he, by simpa using hr⟩

end Scenario

end VertexVeil
