import VertexVeil.Fixtures
import VertexVeil.Lemmas.InProcess

/-!
# The proofs the runtime takes and the proofs the verifier passes

The runtime looks at the digest inside the public inputs of a proof; the verifier looks at all of them and at the proof.
-/

namespace VertexVeil

open Codec RuntimeState

/-! ## Which appended proofs pass the verifier's checks -/

/-- The public inputs of an artifact spell its round, its node and the role of an intent at their places, around some digest,
and nothing more; its proof opens with a known marker. -/
structure LaidOut (a : ProofArtifactRecord) (i : PublicIntent) : Prop where
  inputs : ∃ digest, hexDecode a.publicInputsHex = some (layout a.round a.nodeId digest (roleByte i))
  marker : ∃ m rest, hexDecode a.proofHex = some (m :: rest) ∧ (m = 1 ∨ m = 2)

/-- A proof that is taken is sound for a log with the runtime's commitments exactly when it is laid out. -/
theorem soundProof_iff_laidOut {t : TopologyConfig} {round : RoundId} {s : RuntimeState} (h : Ledger.At t round s)
    {msg : CoordinationMessage} {a : ProofArtifactRecord} {c : CommitmentRecord} (ht : TakesProof round s msg a c)
    {log : CoordinationLog} (hlog : log.commitments = s.log.commitments) : SoundProof log a ↔ LaidOut a c.publicIntent := by
  have hc : log.HasCommitment a.nodeId a.round c := by
    have := (h.1.held_iff _ _).mp ht.commitment
    rw [h.2, ← ht.round] at this
    exact ⟨hlog.symm ▸ this.1, this.2⟩
  have hk : (log.commitments.map (·.key)).Nodup := hlog.symm ▸ h.1.nodup
  constructor
  · rintro ⟨⟨d, digest, hd, -, hp⟩, hm⟩
    obtain rfl : c = d := Option.some.inj
      (((VerifierAux.commitmentOf_iff hk).mpr hc).symm.trans ((VerifierAux.commitmentOf_iff hk).mpr hd))
    exact ⟨⟨digest, parsePublicInputs_eq_some.mp hp⟩, hm⟩
  · rintro ⟨⟨digest, hd⟩, hm⟩
    have hx := (extractCommitmentHashHex_layout hd).symm.trans ht.digest
    exact ⟨⟨c, digest, hc, Option.some.inj hx, parsePublicInputs_eq_some.mpr hd⟩, hm⟩

namespace Sample

/-- The state a broadcasting step leads to, if it succeeds. -/
def stateAfter (x : Emit RuntimeState) (s : RuntimeState) : RuntimeState :=
  match x.2 with
  | .ok s' => s'
  | .error _ => s

theorem eq_stateAfter {x : Emit RuntimeState} (s : RuntimeState) (h : x.2.isOk = true) : x = (x.1, .ok (stateAfter x s)) := by
  obtain ⟨msgs, r⟩ := x
  cases r with
  | error e => simp [Except.isOk, Except.toBool] at h
  | ok s' => rfl

/-- The requester's own process before its session. -/
def started : RuntimeState := .starting topology.config requesterOnly .empty 1 salt "run"

/-- The requester's own process when the commitments of the first round are in. -/
def committed : RuntimeState :=
  (stateAfter (started.broadcastCommitments crypto 0) started).drainCommitments 0 ((deliveries []).schedule 0 .commitments)

/-- The requester's own process when the proposal of the first round is in. -/
def proposed : RuntimeState := committed.drainProposal 0 ((deliveries []).schedule 0 .proposal)

/-- The process drains the proofs of the first round next. -/
theorem drains_proposed : Drains crypto anyDelivery 0 started .proofs proposed := by
  have hc : committed.roundMachine.currentProposer = .ok provider₁ := by decide +kernel
  have hl : committed.agents.contains provider₁ = false := by decide +kernel
  have hb : committed.broadcastProposal 0 = ([], .ok (true, committed)) := by
    simp [RuntimeState.broadcastProposal, hc, hl]
  refine .proofs (p := proposal provider₁) (.intro (eq_stateAfter started (by decide +kernel)) trivial) ?_ (.intro hb trivial)
    (by decide +kernel)
  exact ⟨requesterConfig, by decide +kernel, Std.TreeMap.contains_iff_mem.mp (by decide +kernel)⟩

end Sample

/-- The first provider's proof without the role byte: 72 bytes of public inputs. -/
def truncatedProof : ProofArtifactRecord :=
  { buildProofArtifact Sample.crypto Sample.provider₁Commitment Sample.provider₁ 0 with
    publicInputsHex := hexEncode ((publicInputs Sample.provider₁Commitment Sample.provider₁ 0).take 72) }

/-- A proof of 72 bytes of public inputs is appended; the verifier cannot parse them. -/
theorem appended_proof_malformed : ¬ ∀ (Γ : Crypto) (T : LoadedTopology Γ) (τ : Type) (transport : τ) (agents : Agents)
    (scenario : Scenario) (maxRounds : UInt64) (salt : Bytes 32) (runId : String) (rt : Runtime τ),
    Runtime.new T.config transport agents scenario maxRounds = .ok rt → ∀ s s',
      Enters Γ anyDelivery ((rt.withRunSalt salt).withLog runId).state s →
      Drains Γ anyDelivery s.roundMachine.current s .proofs s' → ∀ batch : List CoordinationMessage,
        ∀ a ∈ (s'.drainProofs s.roundMachine.current batch).log.proofs.drop s'.log.proofs.length,
          proofReasonsOf (s'.drainProofs s.roundMachine.current batch).log a = [] := by
  intro h
  have := h Sample.crypto Sample.topology _ _ _ _ _ Sample.salt "run" _ (Sample.new_requesterRuntime []) Sample.started
    Sample.proposed .start Sample.drains_proposed [{ origin := Sample.provider₁, payload := .proof truncatedProof }]
    truncatedProof (by decide +kernel)
  exact absurd this (by decide)

/-- **Appended proofs.** In every state in which a run of a runtime drains its proofs, whatever was delivered before, and for
every batch: all proofs the drain appends pass the verifier's checks against the log exactly when the proofs it takes are laid
out for the intents of their nodes. -/
theorem appended_proofs_pass_iff {Γ : Crypto} (T : LoadedTopology Γ) {τ : Type} (transport : τ) (agents : Agents)
    (scenario : Scenario) (maxRounds : UInt64) (salt : Bytes 32) (runId : String) {rt : Runtime τ}
    (hnew : Runtime.new T.config transport agents scenario maxRounds = .ok rt) {s s' : RuntimeState}
    (hs : Enters Γ anyDelivery ((rt.withRunSalt salt).withLog runId).state s)
    (hd : Drains Γ anyDelivery s.roundMachine.current s .proofs s') (batch : List CoordinationMessage) :
    (∀ a ∈ (s'.drainProofs s.roundMachine.current batch).log.proofs.drop s'.log.proofs.length,
        proofReasonsOf (s'.drainProofs s.roundMachine.current batch).log a = []) ↔
      ∀ msg ∈ batch, ∀ a c, TakesProof s.roundMachine.current s' msg a c → LaidOut a c.publicIntent := by
  obtain rfl := Runtime.new_eq_ok hnew
  have hl : Ledger.At T.config s.roundMachine.current s' := by
    have hk := Ledger.At.kept T.wellFormed
    exact hk.drains (hk.enters ⟨.initial runId 0 rfl rfl rfl, rfl⟩ hs) hd
  obtain ⟨added, hp, hmem, hc⟩ := drainProofs_append s.roundMachine.current batch s'
  have hk : ((s'.drainProofs s.roundMachine.current batch).log.commitments.map (·.key)).Nodup := by
    rw [hc]
    exact hl.1.nodup
  rw [hp, List.drop_left]
  constructor
  · intro h msg hm a c ht
    exact (soundProof_iff_laidOut hl ht hc).mp ((VerifierAux.proofReasonsOf_eq_nil hk).mp
      (h a ((hmem a).mpr ⟨msg, hm, c, ht⟩)))
  · intro h a ha
    obtain ⟨msg, hm, c, ht⟩ := (hmem a).mp ha
    exact (VerifierAux.proofReasonsOf_eq_nil hk).mpr ((soundProof_iff_laidOut hl ht hc).mpr (h msg hm a c ht))

/-- The proofs of an honest round pass, so the requester's is laid out. -/
theorem appended_proofs_pass_sample :
    LaidOut (buildProofArtifact Sample.crypto Sample.requesterCommitment Sample.requester 0)
      Sample.requesterCommitment.publicIntent := by
  have h := (appended_proofs_pass_iff Sample.topology (Sample.deliveries []) Sample.requesterOnly .empty 1 Sample.salt "run"
    (Sample.new_requesterRuntime []) (s := Sample.started) .start Sample.drains_proposed
    ((Sample.deliveries []).schedule 0 .proofs)).mp (by decide +kernel)
  exact h _ List.mem_cons_self _ _ ⟨rfl, rfl, rfl, by decide +kernel, by decide +kernel⟩

end VertexVeil
