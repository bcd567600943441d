import Std.Data.TreeMap.Lemmas
import VertexVeil.Lib.Transition
import VertexVeil.Matching

/-!
# The round machine

The state machine that accepts the commitments and the proposal of the active round. Each call returns its result and the
machine after it; the checks come before the change, so a refused call returns the machine it was given. Everything a
call can do is in its `_cases` lemma.
-/

namespace VertexVeil

open Codec

/-- Errors of the machine's acceptance paths. -/
inductive RoundError where
  | roundMismatch (expected actual : RoundId)
  | duplicateCommitment (round : RoundId)
  | replayDetected
  | unknownNode
  | roleMismatch
  | backwardTransition
  | proposer (e : ProposerError)
  | wrongProposer
  | unknownRequesterCommitment
  | unknownProviderCommitment
  | tamperedProposal (why : PredicateDenial)
  | alreadyFinalized
  deriving DecidableEq

/-- The commitments a round holds, by node. -/
abbrev Commitments : Type := Std.TreeMap NodeId CommitmentRecord

/-- A round the machine has left. -/
structure FinalizedRound where
  round : RoundId
  commitments : Commitments
  proposal : Option ProposalRecord

/-- The round machine. -/
structure RoundMachine where
  topology : TopologyConfig
  current : RoundId
  commitments : Commitments
  proposal : Option ProposalRecord
  historyHex : Finset Text
  past : List FinalizedRound

namespace RoundMachine

/-- A machine at its first round. -/
def new (topology : TopologyConfig) (start : RoundId) : RoundMachine :=
  { topology, current := start, commitments := ∅, proposal := none, historyHex := ∅, past := [] }

/-- The proposer of the active round. -/
def currentProposer (m : RoundMachine) : Except RoundError NodeId :=
  match proposerForRound m.current m.topology.providersStable with
  | .ok p => .ok p
  | .error e => .error (.proposer e)

/-- The accepted commitments of the nodes other than the requester, in key order. -/
def providersSnapshot (m : RoundMachine) (reqId : NodeId) : List CommitmentRecord :=
  (m.commitments.toList.filter (fun entry => entry.1 ≠ reqId)).map (·.2)

/-- Whether a requester's intent names no capability. -/
def lacksRequiredCapability : PublicIntent → Bool
  | .requester _ _ requiredCapability => requiredCapability.asStr = []
  | .provider _ _ _ => false

/-- Accept a commitment for the active round. -/
def acceptCommitment (m : RoundMachine) (record : CommitmentRecord) : Except RoundError Unit × RoundMachine :=
  if m.proposal.isSome then (.error .alreadyFinalized, m)
  else if record.round ≠ m.current then (.error (.roundMismatch m.current record.round), m)
  else match m.topology.findNode record.nodeId with
    | none => (.error .unknownNode, m)
    | some nodeCfg =>
      if record.publicIntent.role ≠ nodeCfg.role then (.error .roleMismatch, m)
      else if record.publicIntent.round ≠ m.current then (.error (.roundMismatch m.current record.publicIntent.round), m)
      else if record.publicIntent.nodeId ≠ record.nodeId then (.error .roleMismatch, m)
      else if m.commitments.contains record.nodeId then (.error (.duplicateCommitment m.current), m)
      else if record.commitmentHex ∈ m.historyHex then (.error .replayDetected, m)
      else if nodeCfg.role = .requester ∧ lacksRequiredCapability record.publicIntent then (.error .roleMismatch, m)
      else (.ok (), { m with
        historyHex := insert record.commitmentHex m.historyHex,
        commitments := m.commitments.insert record.nodeId record })

/-- Whether a provider's intent claims a capability. -/
def checkProviderClaims (intent : PublicIntent) (capability : CapabilityTag) : Except PredicateDenial Unit :=
  match intent with
  | .provider _ _ capabilityClaims =>
    if capability ∉ capabilityClaims then .error .providerLacksCapability else .ok ()
  | .requester _ _ _ => .error .wrongProviderRole

/-- Accept a proposal for the active round. -/
def acceptProposal (m : RoundMachine) (proposal : ProposalRecord) : Except RoundError Unit × RoundMachine :=
  if m.proposal.isSome then (.error .alreadyFinalized, m)
  else if proposal.round ≠ m.current then (.error (.roundMismatch m.current proposal.round), m)
  else match m.currentProposer with
    | .error e => (.error e, m)
    | .ok expectedProposer =>
      if proposal.proposer ≠ expectedProposer then (.error .wrongProposer, m)
      else match m.commitments[proposal.candidateRequester]? with
        | none => (.error .unknownRequesterCommitment, m)
        | some reqCommit =>
          match m.commitments[proposal.candidateProvider]? with
          | none => (.error .unknownProviderCommitment, m)
          | some provCommit =>
            match validateProposalAnnotation proposal.candidateRequester reqCommit.publicIntent
              proposal.candidateProvider provCommit.publicIntent proposal.matchedCapability with
            | .error d => (.error (.tamperedProposal d), m)
            | .ok () =>
              match checkProviderClaims provCommit.publicIntent proposal.matchedCapability with
              | .error d => (.error (.tamperedProposal d), m)
              | .ok () => (.ok (), { m with proposal := some proposal })

/-- Advance to a later round; the active one goes into the past. -/
def advanceTo (m : RoundMachine) (next : RoundId) : Except RoundError Unit × RoundMachine :=
  if next ≤ m.current then (.error .backwardTransition, m)
  else (.ok (), { m with
    past := m.past ++ [{ round := m.current, commitments := m.commitments, proposal := m.proposal }],
    commitments := ∅, proposal := none, current := next })

/-- Advance by one round; nothing when the round number would overflow. -/
def advanceFallback (m : RoundMachine) : Option (Except RoundError Unit × RoundMachine) :=
  m.current.next.map m.advanceTo

/-! ## What the calls check and change -/

/-- What `acceptCommitment` checks of a record. -/
structure Committable (m : RoundMachine) (c : CommitmentRecord) : Prop where
  unproposed : m.proposal = none
  round : c.round = m.current
  node : ∃ n, m.topology.findNode c.nodeId = some n ∧ c.publicIntent.role = n.role
  intentRound : c.publicIntent.round = m.current
  intentNode : c.publicIntent.nodeId = c.nodeId
  fresh : c.nodeId ∉ m.commitments
  unseen : c.commitmentHex ∉ m.historyHex
  capability : lacksRequiredCapability c.publicIntent = false

/-- The machine with a commitment added. -/
def addCommitment (m : RoundMachine) (c : CommitmentRecord) : RoundMachine :=
  { m with historyHex := insert c.commitmentHex m.historyHex, commitments := m.commitments.insert c.nodeId c }

theorem role_of_lacksRequiredCapability {i : PublicIntent} (h : lacksRequiredCapability i = true) :
    i.role = .requester := by
  cases i with
  | requester n r cap => rfl
  | provider n r claims => simp [lacksRequiredCapability] at h

/-- A record that passes the checks is added. -/
theorem acceptCommitment_of_committable {m : RoundMachine} {c : CommitmentRecord} (h : Committable m c) :
    m.acceptCommitment c = (.ok (), m.addCommitment c) := by
  obtain ⟨n, hn, hrole⟩ := h.node
  have hf : m.commitments.contains c.nodeId = false := by
    rw [← Bool.not_eq_true, Std.TreeMap.contains_iff_mem]
    exact h.fresh
  simp only [acceptCommitment, h.unproposed, Option.isSome_none, Bool.false_eq_true, if_false, h.round, ne_eq,
    not_true_eq_false, hn, hrole, h.intentRound, h.intentNode, hf, h.unseen, h.capability, and_false, addCommitment]

/-- Everything `acceptCommitment` can do: add a record that passes the checks, or refuse one that does not and change
nothing. -/
theorem acceptCommitment_cases (m : RoundMachine) (c : CommitmentRecord) :
    (Committable m c ∧ m.acceptCommitment c = (.ok (), m.addCommitment c)) ∨
      (¬ Committable m c ∧ ∃ e, m.acceptCommitment c = (.error e, m)) := by
  by_cases h : Committable m c
  · exact Or.inl ⟨h, acceptCommitment_of_committable h⟩
  · refine Or.inr ⟨h, ?_⟩
    unfold acceptCommitment
    split
    · exact ⟨_, rfl⟩
    · rename_i hp
      split
      · exact ⟨_, rfl⟩
      · rename_i hr
        split
        · exact ⟨_, rfl⟩
        · rename_i n hn
          split_ifs with h1 h2 h3 h4 h5 h6
          · exact ⟨_, rfl⟩
          · exact ⟨_, rfl⟩
          · exact ⟨_, rfl⟩
          · exact ⟨_, rfl⟩
          · exact ⟨_, rfl⟩
          · exact ⟨_, rfl⟩
          · refine absurd ⟨Option.not_isSome_iff_eq_none.mp hp, not_not.mp hr, ⟨n, hn, not_not.mp h1⟩, not_not.mp h2,
              not_not.mp h3, ?_, h5, ?_⟩ h
            · rw [← Std.TreeMap.contains_iff_mem]
              exact h4
            · rw [← Bool.not_eq_true]
              intro hl
              exact h6 ⟨(not_not.mp h1) ▸ role_of_lacksRequiredCapability hl, hl⟩

/-- A refused commitment leaves the machine as it was. -/
theorem acceptCommitment_error {m m' : RoundMachine} {c : CommitmentRecord} {e : RoundError}
    (h : m.acceptCommitment c = (.error e, m')) : m' = m := by
  rcases acceptCommitment_cases m c with ⟨-, hc⟩ | ⟨-, e', hc⟩
  · rw [hc] at h
    simp at h
  · rw [hc] at h
    exact (Prod.mk.inj h).2.symm

/-- The machine's proposer is the one of the rotation. -/
theorem currentProposer_eq_ok {m : RoundMachine} {p : NodeId} :
    m.currentProposer = .ok p ↔ deterministicProposer m.topology m.current = .ok p := by
  unfold currentProposer deterministicProposer
  split <;> simp_all

theorem checkProviderClaims_eq_ok {i : PublicIntent} {cap : CapabilityTag} :
    checkProviderClaims i cap = .ok () ↔ ∃ n r claims, i = .provider n r claims ∧ cap ∈ claims := by
  cases i with
  | requester n r c => simp [checkProviderClaims]
  | provider n r claims => by_cases h : cap ∈ claims <;> simp [checkProviderClaims, h]

/-- What `acceptProposal` checks of a proposal. -/
structure Proposable (m : RoundMachine) (p : ProposalRecord) : Prop where
  unproposed : m.proposal = none
  round : p.round = m.current
  proposer : m.currentProposer = .ok p.proposer
  requester : ∃ c r, m.commitments[p.candidateRequester]? = some c ∧
    c.publicIntent = .requester p.candidateRequester r p.matchedCapability
  provider : ∃ c r claims, m.commitments[p.candidateProvider]? = some c ∧
    c.publicIntent = .provider p.candidateProvider r claims ∧ p.matchedCapability ∈ claims

/-- A proposal that passes the checks is stored. -/
theorem acceptProposal_of_proposable {m : RoundMachine} {p : ProposalRecord} (h : Proposable m p) :
    m.acceptProposal p = (.ok (), { m with proposal := some p }) := by
  obtain ⟨c, r, hc, hci⟩ := h.requester
  obtain ⟨d, r', claims, hd, hdi, hm⟩ := h.provider
  have hv := validateProposalAnnotation_eq_ok.mpr ⟨⟨r, hci⟩, (show d.publicIntent.nodeId = p.candidateProvider by rw [hdi]; rfl)⟩
  have hp := checkProviderClaims_eq_ok.mpr ⟨_, _, _, hdi, hm⟩
  simp only [acceptProposal, h.unproposed, Option.isSome_none, Bool.false_eq_true, if_false, h.round, ne_eq,
    not_true_eq_false, h.proposer, hc, hd, hv, hp]

/-- Everything `acceptProposal` can do: store a proposal that passes the checks, or refuse one that does not and change
nothing. -/
theorem acceptProposal_cases (m : RoundMachine) (p : ProposalRecord) :
    (Proposable m p ∧ m.acceptProposal p = (.ok (), { m with proposal := some p })) ∨
      (¬ Proposable m p ∧ ∃ e, m.acceptProposal p = (.error e, m)) := by
  by_cases h : Proposable m p
  · exact Or.inl ⟨h, acceptProposal_of_proposable h⟩
  · refine Or.inr ⟨h, ?_⟩
    unfold acceptProposal
    split
    · exact ⟨_, rfl⟩
    · rename_i hp
      split
      · exact ⟨_, rfl⟩
      · rename_i hr
        split
        · exact ⟨_, rfl⟩
        · rename_i expected hprop
          split
          · exact ⟨_, rfl⟩
          · rename_i he
            split
            · exact ⟨_, rfl⟩
            · rename_i c hc
              split
              · exact ⟨_, rfl⟩
              · rename_i d hd
                split
                · exact ⟨_, rfl⟩
                · rename_i hv
                  split
                  · exact ⟨_, rfl⟩
                  · rename_i hcl
                    obtain ⟨⟨r, hci⟩, hdn⟩ := validateProposalAnnotation_eq_ok.mp hv
                    obtain ⟨n, r', claims, hdi, hm⟩ := checkProviderClaims_eq_ok.mp hcl
                    have hn : n = p.candidateProvider := by rw [← hdn, hdi]; rfl
                    exact absurd ⟨Option.not_isSome_iff_eq_none.mp hp, not_not.mp hr,
                      by rw [hprop, not_not.mp he], ⟨c, r, hc, hci⟩, ⟨d, r', claims, hd, hn ▸ hdi, hm⟩⟩ h

/-- A refused proposal leaves the machine as it was. -/
theorem acceptProposal_error {m m' : RoundMachine} {p : ProposalRecord} {e : RoundError}
    (h : m.acceptProposal p = (.error e, m')) : m' = m := by
  rcases acceptProposal_cases m p with ⟨-, hp⟩ | ⟨-, e', hp⟩
  · rw [hp] at h
    simp at h
  · rw [hp] at h
    exact (Prod.mk.inj h).2.symm

/-- An accepted proposal passed the checks and is stored. -/
theorem acceptProposal_ok {m m' : RoundMachine} {p : ProposalRecord} (h : m.acceptProposal p = (.ok (), m')) :
    Proposable m p ∧ m' = { m with proposal := some p } := by
  rcases acceptProposal_cases m p with ⟨hp, he⟩ | ⟨-, e', he⟩
  · rw [he] at h
    exact ⟨hp, (Prod.mk.inj h).2.symm⟩
  · rw [he] at h
    simp at h

/-- The machine one round on. -/
def advanced (m : RoundMachine) (next : RoundId) : RoundMachine :=
  { m with
    past := m.past ++ [{ round := m.current, commitments := m.commitments, proposal := m.proposal }],
    commitments := ∅, proposal := none, current := next }

/-- An accepted advance goes forward and leaves the round behind. -/
theorem advanceTo_ok {m m' : RoundMachine} {next : RoundId} (h : m.advanceTo next = (.ok (), m')) :
    m.current < next ∧ m' = m.advanced next := by
  unfold advanceTo at h
  split at h
  · simp at h
  · rename_i hlt
    exact ⟨UInt64.not_le.mp hlt, (Prod.mk.inj h).2.symm⟩

/-- A refused advance leaves the machine as it was. -/
theorem advanceTo_error {m m' : RoundMachine} {next : RoundId} {e : RoundError}
    (h : m.advanceTo next = (.error e, m')) : m' = m := by
  unfold advanceTo at h
  split at h
  · exact (Prod.mk.inj h).2.symm
  · simp at h

end RoundMachine

/-! ## The calls as steps -/

/-- A call of the round machine. -/
inductive RoundCall where
  | acceptCommitment (record : CommitmentRecord)
  | acceptProposal (proposal : ProposalRecord)
  | advanceTo (next : RoundId)
  | advanceFallback

/-- What a call returns, with the machine after it; nothing when it overflows the round number. -/
def RoundCall.call (m : RoundMachine) : RoundCall → Option (Except RoundError Unit × RoundMachine)
  | acceptCommitment record => some (m.acceptCommitment record)
  | acceptProposal proposal => some (m.acceptProposal proposal)
  | advanceTo next => some (m.advanceTo next)
  | advanceFallback => m.advanceFallback

/-- The machine after a call, whatever the call returned; nothing when it overflows the round number. -/
def RoundCall.exec (m : RoundMachine) : RoundCall → Option RoundMachine
  | acceptCommitment record => some (m.acceptCommitment record).2
  | acceptProposal proposal => some (m.acceptProposal proposal).2
  | advanceTo next => some (m.advanceTo next).2
  | advanceFallback => m.advanceFallback.map Prod.snd

/-- The round machine of a topology, as a transition system: it starts at any round. -/
def RoundMachine.machine (t : TopologyConfig) : Transition.Machine RoundMachine RoundCall where
  start m := ∃ start, m = RoundMachine.new t start
  exec := RoundCall.exec

end VertexVeil
