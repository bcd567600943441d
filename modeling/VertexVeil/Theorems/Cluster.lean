import VertexVeil.Lemmas.Cluster
import VertexVeil.Theorems.Network
import VertexVeil.Theorems.Runtime

/-!
# The logs of a cluster

`cluster_log_verdict`: whatever is ordered, delayed or missed, the log that a node's process returns verifies, unless the process
finalized and its receipt poll timed out before the receipt came.
-/

namespace VertexVeil

open Codec Broadcast CoordinationLog RuntimeState

/-! ## What the verifier says of the log of a node's process -/

/-- A process that is about to run a session signs as the topology expects: where its node is a provider, its agent has a seed
exactly when the topology gives the node a key. -/
def Process.SeedAsKey (t : TopologyConfig) (node : NodeId) : Process → Prop
  | .ready s => ∀ n ∈ t.nodes, n.id = node → n.role = .provider →
      ((s.agents[node]?.bind (·.provider)).bind (·.signingSecretKey)).isSome = n.signingPublicKey.isSome
  | _ => True

/-- Networks in which every process signs as the topology expects. -/
def keyedNetwork {Γ : Crypto} (T : LoadedTopology Γ) (scenario : NodeId → Scenario) :
    Transition.Machine (Net NodeId Process CoordinationMessage) (Action NodeId) :=
  machine (protocol Γ) (fun node p => Boots T scenario node p ∧ p.SeedAsKey T.config node)

namespace ClusterAux

variable {Γ : Crypto} {T : LoadedTopology Γ} {scenario : NodeId → Scenario} {net : Net NodeId Process CoordinationMessage}
  {node : NodeId} {p : Process}

/-- A keyed network is a network. -/
theorem network_of_keyed (h : (keyedNetwork T scenario).Reachable net) : (network T scenario).Reachable net := by
  induction h with
  | start hs =>
    obtain ⟨procs, hprocs, rfl⟩ := hs
    exact .start ⟨procs, fun i p hp => (hprocs i p hp).1, rfl⟩
  | step _ hexec ih => exact ih.step hexec

/-- A process that boots keyed signs as the topology expects. -/
theorem signs_of_boots (hc : Γ.Ed25519Correct) {s : RuntimeState} (h : Boots T scenario node (.ready s))
    (hk : Process.SeedAsKey T.config node (.ready s)) : Signs Γ T.config s ∧ s.log.messages = [] := by
  obtain ⟨L, agent, maxRounds, rt, salt, runId, hagent, hnew, hs⟩ := h
  obtain rfl := Runtime.new_eq_ok hnew
  obtain rfl := Process.ready.inj hs
  refine ⟨fun n hn hrole hmem round cap => ?_, rfl⟩
  obtain ⟨a, ha⟩ := Option.isSome_iff_exists.mp (Std.TreeMap.mem_iff_isSome_getElem?.mp hmem)
  obtain ⟨hid, rfl⟩ := own_agent ha
  subst hid
  have hsame : ((∅ : Agents).insert n.id a)[n.id]? = L.agents[n.id]? := (show _ = some a from ha).trans hagent.symm
  refine (SignatureAux.receiptSignatureOk_iff_seed T.wellFormed L hc hn hrole hsame round cap).mpr ?_
  rw [← hsame]
  exact hk n hn rfl hrole

/-- Every process of a keyed network is credible. -/
theorem keyed_credible (hc : Γ.Ed25519Correct) (h : (keyedNetwork T scenario).Reachable net) (hp : net.procs node = some p) :
    Credible Γ T.config net.sent node p := by
  refine pointwise (L := Credible Γ T.config) (fun _ _ _ _ hle hown hh => hh.mono hle hown) ?_
    (fun _ _ _ _ _ hh hj hs => ?_) (fun _ _ _ _ _ hh hs => hh.act T.wellFormed hs) h hp
  · rintro node p ⟨hboot, hk⟩
    obtain ⟨s, rfl, hlog, -⟩ := hboot.ready
    refine ⟨honours_of_boots hboot, .nil, (signs_of_boots hc hboot hk).1, fun m hm => ?_, fun a ha => ?_⟩
    · rw [hlog] at hm
      exact absurd hm List.not_mem_nil
    · have := mem_messages_proof.mpr ha
      rw [hlog] at this
      exact absurd this List.not_mem_nil
  · obtain ⟨j, q, hq, hm⟩ := hj
    exact hh.hear T.wellFormed hq hm hs

/-- The final round of a log whose receipts certify its proposal. -/
theorem finalReasons_certified {t : TopologyConfig} (ht : t.WellFormed Γ) {s : RuntimeState} {fr : RoundId} (hl : Ledger t s)
    {q : ProposalRecord} (hlast : s.log.proposalOf fr = some q) (hboth : BothProofs fr q s)
    (hrec : ∀ r ∈ s.log.receipts, r.round = fr ∧ r.provider = q.candidateProvider ∧
      receiptSignatureOk Γ t r.signatureHex q.candidateProvider fr q.matchedCapability.asStr = true) :
    (s.log.receipts = [] → finalReasons Γ t (Runtime.closeLog s.log true fr) = .error ["final_round_missing_receipt"]) ∧
      (s.log.receipts ≠ [] → finalReasons Γ t (Runtime.closeLog s.log true fr) = .ok []) := by
  obtain ⟨reason, he⟩ := closeLog_eq s.log true fr
  rw [he]
  obtain ⟨hmem, hround⟩ := proposalOf_some hlast
  obtain ⟨hsound, hprov⟩ := proposal_mono (l := s.log)
    (m := { s.log with finalRound := fr, finalized := true, abortReason := reason }) (fun _ _ _ hc => hc)
    (hl.proposals q hmem)
  have hpred := (VerifierAux.predicateReasons_eq_nil { s.log with
    finalRound := fr, finalized := true, abortReason := reason } hl.sound hl.nodup hsound hround).mpr (hround ▸ hprov)
  have hprop : proposalOf { s.log with finalRound := fr, finalized := true, abortReason := reason } fr = some q := hlast
  refine ⟨fun hnil => ?_, fun hne => ?_⟩
  · have hfind : receiptOf { s.log with finalRound := fr, finalized := true, abortReason := reason } q.candidateProvider fr =
        none := by simp [receiptOf, hnil]
    simp only [finalReasons, if_true, hprop, hfind, hpred, List.nil_append]
  · obtain ⟨r, rs, hrs⟩ := List.exists_cons_of_ne_nil hne
    obtain ⟨hr, hp, hok⟩ := hrec r (hrs ▸ List.mem_cons_self)
    have hfind : receiptOf { s.log with finalRound := fr, finalized := true, abortReason := reason } q.candidateProvider fr =
        some r := by simp [receiptOf, hrs, hr, hp]
    have hne : r.signatureHex ≠ [] :=
      VerifierAux.receiptSigned_ne_nil ((VerifierAux.receiptSignatureOk_iff ht).mp hok)
    have hreq : hasProof { s.log with finalRound := fr, finalized := true, abortReason := reason } q.candidateRequester fr =
        true := hboth.1
    have hseller : hasProof { s.log with finalRound := fr, finalized := true, abortReason := reason } q.candidateProvider fr =
        true := hboth.2
    simp [finalReasons, hprop, hfind, hpred, signatureReasons, hne, hok, finalProofReasons, hreq, hseller, reasonIf]

/-- The receipts that a process logs certify the proposals of their rounds that landed. -/
theorem receipt_certifies (hc : Γ.Ed25519Correct) (h : (keyedNetwork T scenario).Reachable net) {log : CoordinationLog}
    (hheld : Held net.sent log) {r : CompletionReceiptRecord} (hr : r ∈ log.receipts) {q : ProposalRecord}
    (hq : Landed T.config net.sent q) (hround : q.round = r.round) : r.provider = q.candidateProvider ∧
      receiptSignatureOk Γ T.config r.signatureHex q.candidateProvider r.round q.matchedCapability.asStr = true := by
  have hsaid := hheld.published _ (mem_messages_receipt.mpr hr)
  cases hp : net.procs r.provider with
  | none =>
    rw [silent (network_of_keyed h) hp] at hsaid
    exact absurd hsaid List.not_mem_nil
  | some p =>
    obtain ⟨q', hq', hround', hprov, hok⟩ := (keyed_credible hc h hp).testimony.receipts _ hsaid r rfl
    obtain rfl := landed_unique (network_of_keyed h) hq hq' (hround.trans hround'.symm)
    exact ⟨hprov.symm, hprov ▸ hok⟩

end ClusterAux

open ClusterAux

/-- **The logs of a cluster.** Every node runs its own process with its own agent, and messages are ordered, delayed and missed
in any way. When signatures made with a seed verify under the seed's key and the providers' seeds go with the topology's keys,
the verifier has one objection at most to the log that a process returns: that a finalized log holds no receipt, because the
receipt poll of the process timed out. The log of an aborted session is always valid. -/
theorem cluster_log_verdict {Γ : Crypto} (hc : Γ.Ed25519Correct) (T : LoadedTopology Γ) {scenario : NodeId → Scenario}
    {net : Net NodeId Process CoordinationMessage} (h : (keyedNetwork T scenario).Reachable net) {node : NodeId}
    {out : RuntimeOutcome} (hout : net.procs node = some (.returned out)) :
    (verifyLog Γ T.config out.log).reasons =
        (if out.finalized = true ∧ out.log.receipts = [] then ["final_round_missing_receipt"] else []) ∧
      ((verifyLog Γ T.config out.log).valid = true ↔ (out.finalized = true → out.log.receipts ≠ [])) := by
  have hcred := keyed_credible hc h hout
  have hheld : Held net.sent out.log := hcred.vouches
  obtain ⟨L, agent, maxRounds, polls, rt, salt, runId, t, hagent, hnew, hwith, -, -⟩ := returned_run T (network_of_keyed h) hout
  have hrun : (rt.withRunSalt salt).run Γ runId = .ok out := by
    simp only [Runtime.run, hwith, bind, Except.bind, pure, Except.pure]
  obtain ⟨rt', hrounds, hlog⟩ := Runtime.run_eq_ok hrun
  obtain rfl := Runtime.new_eq_ok hnew
  obtain ⟨hl, hreceipts, hspan⟩ := BeforeRound.ends (delivers_any Polls) T.wellFormed trivial .start rfl hrounds
  obtain ⟨hproofs, hrec⟩ : (∀ a ∈ rt'.state.log.proofs, SoundProof rt'.state.log a) ∧
      out.log.receipts = rt'.state.log.receipts := by
    obtain ⟨reason, he⟩ := closeLog_eq rt'.state.log out.finalized out.finalRound
    rw [hlog, he] at hheld ⊢
    refine ⟨fun a ha => soundProof_mono ?_ (hheld.proofs a ha), rfl⟩
    exact fun _ _ _ hc => hc
  obtain ⟨hsec, hrej⟩ := sections_closeLog out.finalized T.wellFormed hl hproofs hspan
  cases hfin : out.finalized with
  | false =>
    have hfinal : finalReasons Γ T.config (Runtime.closeLog rt'.state.log false out.finalRound) = .ok [] := by
      obtain ⟨reason, he⟩ := closeLog_eq rt'.state.log false out.finalRound
      have hnone : rt'.state.log.receipts = [] := List.eq_nil_iff_forall_not_mem.mpr fun r hr =>
        Bool.noConfusion (hfin.symm.trans (hreceipts r hr).1)
      rw [he]
      simp [finalReasons, hnone, reasonIf]
    rw [hfin] at hlog hsec hrej
    rw [hlog]
    obtain ⟨hreasons, hvalid⟩ := verifyLog_reasons hsec hrej hfinal
    exact ⟨by rw [hreasons]; simp, iff_of_true (hvalid.mpr rfl) (fun hf => by simp at hf)⟩
  | true =>
    obtain ⟨q, hq, hlanded⟩ := hcred.honours.sound hfin
    have hend : ∃ q', rt'.state.log.proposalOf out.finalRound = some q' ∧ BothProofs out.finalRound q' rt'.state := by
      rcases Runtime.runRounds_spec (delivers_any Polls) (P := fun _ => True) (fun _ _ _ _ _ _ => trivial) trivial trivial
        hrounds with ⟨-, s, -, -, he⟩ | ⟨hf, -⟩
      · exact he.final
      · exact Bool.noConfusion (hfin.symm.trans hf)
    obtain ⟨q', hlast, hboth⟩ := hend
    obtain rfl : q' = q := by
      obtain ⟨reason, he⟩ := closeLog_eq rt'.state.log out.finalized out.finalRound
      rw [hlog, he] at hq
      exact Option.some.inj (hlast.symm.trans hq)
    have hround := (proposalOf_some hlast).2
    have hcert : ∀ r ∈ rt'.state.log.receipts, r.round = out.finalRound ∧ r.provider = q'.candidateProvider ∧
        receiptSignatureOk Γ T.config r.signatureHex q'.candidateProvider out.finalRound q'.matchedCapability.asStr = true := by
      intro r hr
      have hrr := (hreceipts r hr).2
      obtain ⟨hprov, hok⟩ := receipt_certifies hc h hheld (hrec.symm ▸ hr) hlanded (hround.trans hrr.symm)
      exact ⟨hrr, hprov, hrr ▸ hok⟩
    obtain ⟨hmissing, hpresent⟩ := finalReasons_certified (Γ := Γ) T.wellFormed hl hlast hboth hcert
    rw [hfin] at hlog hsec hrej
    rw [hrec, hlog]
    by_cases hnil : rt'.state.log.receipts = []
    · simp [verifyLog, hmissing hnil, hsec, hnil]
    · obtain ⟨hreasons, hvalid⟩ := verifyLog_reasons hsec hrej (hpresent hnil)
      refine ⟨by rw [hreasons]; simp [hnil], iff_of_true (hvalid.mpr rfl) (fun _ => hnil)⟩

namespace Sample

/-- The deployment's processes sign as the topology expects. -/
theorem seedAsKey {id : NodeId} {p : Process} (h : processes id = some p) : p.SeedAsKey topology.config id := by
  unfold processes at h
  split at h
  · simp at h
  · obtain ⟨agent, hagent, rfl⟩ := Option.map_eq_some_iff.mp h
    have hkeys : SeedsAsKeys agents := by
      unfold SeedsAsKeys
      decide
    rintro n hn rfl hrole
    have hown : ((∅ : Agents).insert n.id agent)[n.id]? = some agent := Std.TreeMap.getElem?_insert_self
    have hkey := hkeys n hn hrole
    rw [hagent] at hkey
    exact (congrArg (fun a => Option.isSome ((a.bind AgentState.provider).bind PrivateProviderIntent.signingSecretKey))
      hown).trans hkey

/-- What a process has returned: whether it finalized, and how many receipts it logged. -/
def receipts (n : Net NodeId Process CoordinationMessage) (id : NodeId) : Option (Bool × Nat) :=
  match n.procs id with
  | some (.returned out) => some (out.finalized, out.log.receipts.length)
  | _ => none

theorem of_receipts {n : Net NodeId Process CoordinationMessage} {id : NodeId} {fin : Bool} {k : Nat}
    (h : receipts n id = some (fin, k)) : ∃ out, n.procs id = some (.returned out) ∧ out.finalized = fin ∧
      out.log.receipts.length = k := by
  unfold receipts at h
  split at h
  · rename_i out hout
    simp only [Option.some.injEq, Prod.mk.injEq] at h
    exact ⟨out, hout, h⟩
  · simp at h

/-- The deployment as a keyed network: the requester's receipt poll times out. -/
theorem keyed_run : ∃ n, (keyedNetwork topology (fun _ => .empty)).Reachable n ∧ receipts n requester = some (true, 0) ∧
    receipts n provider₁ = some (true, 1) := by
  have hrun : (((keyedNetwork topology (fun _ => .empty)).run (.boot processes) together).map fun n =>
      [receipts n requester, receipts n provider₁]) = some [some (true, 0), some (true, 1)] := by decide +kernel
  obtain ⟨n, hn, he⟩ := Option.map_eq_some_iff.mp hrun
  simp only [List.cons.injEq, and_true] at he
  exact ⟨n, .run (.start ⟨processes, fun _ _ hp => ⟨boots hp, seedAsKey hp⟩, rfl⟩) hn, he⟩

end Sample

/-- Two processes of the deployment that finalized: only the log of the one that heard the receipt is valid. -/
theorem cluster_log_verdict_sample : ∃ (net : Net NodeId Process CoordinationMessage) (out out' : RuntimeOutcome),
    net.procs Sample.requester = some (.returned out) ∧ net.procs Sample.provider₁ = some (.returned out') ∧
      (verifyLog Sample.crypto Sample.topology.config out.log).reasons = ["final_round_missing_receipt"] ∧
        (verifyLog Sample.crypto Sample.topology.config out'.log).valid = true := by
  obtain ⟨net, hnet, hi, hj⟩ := Sample.keyed_run
  obtain ⟨out, hi, hfin, hnone⟩ := Sample.of_receipts hi
  obtain ⟨out', hj, -, hone⟩ := Sample.of_receipts hj
  refine ⟨net, out, out', hi, hj, ?_, ?_⟩
  · rw [(cluster_log_verdict Sample.crypto_ed25519Correct Sample.topology hnet hi).1,
      if_pos ⟨hfin, List.length_eq_zero_iff.mp hnone⟩]
  · refine (cluster_log_verdict Sample.crypto_ed25519Correct Sample.topology hnet hj).2.mpr fun _ hnil => ?_
    rw [hnil] at hone
    simp at hone

end VertexVeil
