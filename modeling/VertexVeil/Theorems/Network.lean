import VertexVeil.Fixtures
import VertexVeil.Lemmas.Agreement

/-!
# Agreement between node processes

`returned_run`: what a process of a network returns, its runtime returns over a transport whose polls are the beginning of the
stream, cut where the process paused. `agreement`: two processes that finalize do so for the requester and the capability of the
topology; in one round they finalize one proposal. `agreement_fails`: in different rounds they may finalize different providers.
-/

namespace VertexVeil

open Codec Broadcast CoordinationLog

/-- What a process returns is what its runtime returns over the stream cut at its pauses; both broadcast the same. -/
theorem returned_run {Γ : Crypto} (T : LoadedTopology Γ) {scenario : NodeId → Scenario}
    {net : Net NodeId Process CoordinationMessage} (h : (network T scenario).Reachable net) {node : NodeId}
    {out : RuntimeOutcome} (hout : net.procs node = some (.returned out)) :
    ∃ (L : LoadedAgents Γ T.config) (agent : AgentState) (maxRounds : UInt64) (polls : List (Option CoordinationMessage))
      (rt : Runtime Polls) (salt : Bytes 32) (runId : String) (t : Polls), L.agents[node]? = some agent ∧
      Runtime.new T.config ({ polls, sent := [] } : Polls) ((∅ : Agents).insert node agent) (scenario node) maxRounds =
        .ok rt ∧
      Runtime.runWithTransport Γ runId (rt.withRunSalt salt) = .ok (out, t) ∧ t.sent = net.sent node ∧
      polls.reduceOption = net.stream.take (net.heard node) := by
  obtain ⟨p₀, polls, hboot, hfollow, hheard, -⟩ := history h hout
  obtain ⟨L, agent, maxRounds, rt, salt, runId, hagent, hnew, rfl⟩ := hboot
  obtain ⟨polls, rfl⟩ := follow_ready hfollow
  obtain ⟨t, hrun, hsent⟩ := run_of_follow runId hfollow
  exact ⟨L, agent, maxRounds, polls, { state := rt.state, transport := { polls, sent := [] } }, salt, runId, t, hagent,
    Runtime.new_transport hnew _, hrun, hsent, hheard⟩

/-! ## What two processes that finalize agree on -/

namespace Sample

/-- The proposal of a round by the provider whose turn it is. -/
def proposalIn (round : RoundId) (proposer chosen : NodeId) : ProposalRecord :=
  { proposer, round, candidateRequester := requester, candidateProvider := chosen, matchedCapability := gpu }

/-- The deployment's network of honest processes. -/
def net : Transition.Machine (Net NodeId Process CoordinationMessage) (Action NodeId) := network topology (fun _ => .empty)

/-- Up to the proofs of the first round, which are on the stream but not yet heard. -/
def opening : List (Action NodeId) :=
  List.flatten [
    [.act requester, .act provider₁, .act provider₂], List.replicate 3 (.order 0), List.replicate 3 (.hear requester),
    List.replicate 3 (.hear provider₁), List.replicate 3 (.hear provider₂),
    [.act requester, .act provider₁, .act provider₂, .order 0, .hear requester, .hear provider₁, .hear provider₂],
    [.act requester, .act provider₁, .act provider₂, .order 0, .order 0]]

/-- The first provider hears both proofs and returns; its receipt is on the stream. -/
def firstReturns : List (Action NodeId) :=
  [.hear provider₁, .hear provider₁, .act provider₁, .order 0, .hear provider₁, .act provider₁]

/-- The requester hears both proofs, too, and returns. -/
def together : List (Action NodeId) :=
  List.flatten [opening, firstReturns, [.hear requester, .hear requester, .act requester, .act requester]]

/-- The polls of the requester and of the second provider time out before the proofs; they go on to the next round. -/
def apart : List (Action NodeId) :=
  List.flatten [
    opening, firstReturns, [.act requester, .act provider₂, .order 0, .order 0], List.replicate 5 (.hear requester),
    List.replicate 5 (.hear provider₂), [.act requester, .act provider₂, .order 0, .hear requester, .hear provider₂],
    [.act requester, .act provider₂, .order 0, .order 0, .hear requester, .hear requester, .act requester, .act requester]]

/-- What a process has returned. -/
def returned (n : Net NodeId Process CoordinationMessage) (id : NodeId) : Option (Bool × RoundId × Option ProposalRecord) :=
  match n.procs id with
  | some (.returned out) => some (out.finalized, out.finalRound, out.log.proposalOf out.finalRound)
  | _ => none

theorem of_returned {n : Net NodeId Process CoordinationMessage} {id : NodeId} {fin : Bool} {round : RoundId}
    {q : Option ProposalRecord} (h : returned n id = some (fin, round, q)) : ∃ out, n.procs id = some (.returned out) ∧
      out.finalized = fin ∧ out.finalRound = round ∧ out.log.proposalOf out.finalRound = q := by
  unfold returned at h
  split at h
  · rename_i out hout
    simp only [Option.some.injEq, Prod.mk.injEq] at h
    exact ⟨out, hout, h⟩
  · simp at h

/-- A network that the deployment's processes lead to, and what two processes have returned in it. -/
theorem reachable_of_run (acts : List (Action NodeId)) {i j : NodeId}
    {x y : Option (Bool × RoundId × Option ProposalRecord)}
    (h : ((net.run (.boot processes) acts).map fun n => [returned n i, returned n j]) = some [x, y]) :
    ∃ n, net.Reachable n ∧ returned n i = x ∧ returned n j = y := by
  obtain ⟨n, hn, he⟩ := Option.map_eq_some_iff.mp h
  simp only [List.cons.injEq, and_true] at he
  obtain ⟨hx, hy⟩ := he
  exact ⟨n, .run (.start ⟨processes, fun _ _ hp => boots hp, rfl⟩) hn, hx, hy⟩

/-- When all proofs are heard in time, two processes return the match of the first round. -/
theorem together_run : ∃ n, net.Reachable n ∧
    returned n requester = some (true, 0, some (proposalIn 0 provider₁ provider₁)) ∧
      returned n provider₁ = some (true, 0, some (proposalIn 0 provider₁ provider₁)) :=
  reachable_of_run together (by decide +kernel)

/-- When a poll times out before the proofs, one process returns the match of the first round and another one that of the
next. -/
theorem apart_run : ∃ n, net.Reachable n ∧
    returned n requester = some (true, 1, some (proposalIn 1 provider₂ provider₂)) ∧
      returned n provider₁ = some (true, 0, some (proposalIn 0 provider₁ provider₁)) :=
  reachable_of_run apart (by decide +kernel)

end Sample

/-- Two processes of honest nodes may finalize different rounds with different providers. -/
theorem agreement_fails : ¬ ∀ (Γ : Crypto) (T : LoadedTopology Γ) (net : Net NodeId Process CoordinationMessage),
    (network T (fun _ => .empty)).Reachable net → ∀ i j out out', net.procs i = some (.returned out) →
      net.procs j = some (.returned out') → out.finalized = true → out'.finalized = true →
        out.finalRound = out'.finalRound ∧ ∃ p p', out.log.proposalOf out.finalRound = some p ∧
          out'.log.proposalOf out'.finalRound = some p' ∧ p.candidateRequester = p'.candidateRequester ∧
          p.candidateProvider = p'.candidateProvider ∧ p.matchedCapability = p'.matchedCapability := by
  intro h
  obtain ⟨net, hnet, hi, hj⟩ := Sample.apart_run
  obtain ⟨out, hi, hfin, hround, -⟩ := Sample.of_returned hi
  obtain ⟨out', hj, hfin', hround', -⟩ := Sample.of_returned hj
  obtain ⟨he, -⟩ := h _ _ net hnet _ _ out out' hi hj hfin hfin'
  rw [hround, hround'] at he
  exact absurd he (by decide)

/-- Two processes that finalize have matched the requester of the topology for the capability it requires; when they finalized
the same round, they finalized the same proposal. -/
theorem agreement {Γ : Crypto} (T : LoadedTopology Γ) {scenario : NodeId → Scenario}
    {net : Net NodeId Process CoordinationMessage} (h : (network T scenario).Reachable net) {i j : NodeId}
    {out out' : RuntimeOutcome} (hi : net.procs i = some (.returned out)) (hj : net.procs j = some (.returned out'))
    (hfin : out.finalized = true) (hfin' : out'.finalized = true) :
    ∃ p p', out.log.proposalOf out.finalRound = some p ∧ out'.log.proposalOf out'.finalRound = some p' ∧
      (∃ n, T.config.requester = some n ∧ p.candidateRequester = n.id ∧ n.requiredCapability = some p.matchedCapability) ∧
      p.candidateRequester = p'.candidateRequester ∧ p.matchedCapability = p'.matchedCapability ∧
      (out.finalRound = out'.finalRound → p = p') := by
  obtain ⟨p, hp, hl⟩ := (network_honours T h hi).sound hfin
  obtain ⟨p', hp', hl'⟩ := (network_honours T h hj).sound hfin'
  obtain ⟨n, hn, hreq, hcap⟩ := hl.matched T.wellFormed
  obtain ⟨n', hn', hreq', hcap'⟩ := hl'.matched T.wellFormed
  obtain rfl : n = n' := Option.some.inj (hn.symm.trans hn')
  refine ⟨p, p', hp, hp', ⟨n, hn, hreq, hcap⟩, hreq.trans hreq'.symm, Option.some.inj (hcap.symm.trans hcap'), fun hround => ?_⟩
  have hr : p.round = p'.round := (proposalOf_some hp).2.trans (hround.trans (proposalOf_some hp').2.symm)
  exact landed_unique h hl hl' hr

/-- Two processes of the deployment that heard the same in time. -/
theorem agreement_sample : ∃ (net : Net NodeId Process CoordinationMessage) (out out' : RuntimeOutcome) (p : ProposalRecord),
    Sample.net.Reachable net ∧ net.procs Sample.requester = some (.returned out) ∧
      net.procs Sample.provider₁ = some (.returned out') ∧ out.log.proposalOf out.finalRound = some p ∧
      out'.log.proposalOf out'.finalRound = some p ∧ ∃ n, Sample.topology.config.requester = some n ∧
        p.candidateRequester = n.id ∧ n.requiredCapability = some p.matchedCapability := by
  obtain ⟨net, hnet, hi, hj⟩ := Sample.together_run
  obtain ⟨out, hi, hfin, hround, -⟩ := Sample.of_returned hi
  obtain ⟨out', hj, hfin', hround', -⟩ := Sample.of_returned hj
  obtain ⟨p, p', h₁, h₂, hmatch, -, -, he⟩ := agreement Sample.topology hnet hi hj hfin hfin'
  obtain rfl := he (hround.trans hround'.symm)
  exact ⟨net, out, out', p, hnet, hi, hj, h₁, h₂, hmatch⟩

end VertexVeil
