import VertexVeil.Lemmas.Agreement
import VertexVeil.Theorems.Proofs
import VertexVeil.Theorems.Signatures

/-!
# Helpers for `Theorems/Cluster.lean`: the word of every process of a network

A process publishes proofs that are laid out for its own node (`OwnProof`) and receipts that certify a proposal that landed
(`OwnReceipt`). What it logs is what its node published, and a proof that it logs stands (`Held`). `Credible` is the invariant of a
process; it adds to `Honours` what a node says of its proofs and receipts.
-/

namespace VertexVeil

open Codec Broadcast CoordinationLog RuntimeState

/-! ## The messages of a log -/

section

variable {log log' : CoordinationLog}

theorem mem_messages_commitment {c : CommitmentRecord} :
    { origin := c.nodeId, payload := .commitment c } ∈ log.messages ↔ c ∈ log.commitments := by
  simp [messages]

theorem mem_messages_proof {a : ProofArtifactRecord} :
    { origin := a.nodeId, payload := .proof a } ∈ log.messages ↔ a ∈ log.proofs := by
  simp [messages]

theorem mem_messages_receipt {r : CompletionReceiptRecord} :
    { origin := r.provider, payload := .receipt r } ∈ log.messages ↔ r ∈ log.receipts := by
  simp [messages]

/-- A log with more records has what the other one has of a node in a round. -/
theorem hasCommitment_of_messages (h : ∀ m ∈ log.messages, m ∈ log'.messages) (n : NodeId) (r : RoundId) (c : CommitmentRecord)
    (hc : log.HasCommitment n r c) : log'.HasCommitment n r c :=
  ⟨mem_messages_commitment.mp (h _ (mem_messages_commitment.mpr hc.1)), hc.2⟩

end

/-! ## The end of a finalized round -/

/-- The log of a round that is finalized has its proposal and both proofs. -/
theorem RoundEnds.final {Γ : Crypto} {R : Delivery} {round : RoundId} {s s' : RuntimeState}
    (h : RoundEnds Γ R round s .finalized s') : ∃ p, s'.log.proposalOf round = some p ∧ BothProofs round p s' := by
  cases h with
  | @finalized s₁ s₂ s₃ _ p h₁ _ h₂ hp h₃ hboth h₄ =>
    obtain ⟨-, batch, -, rfl⟩ := h₄.drained
    have hproposals : (s₃.drainReceipts round batch).log.proposals = s₂.log.proposals :=
      (foldl_keeps (f := fun s => s.log.proposals) (proposals_handleReceipt round) _ _).trans h₃.proposals
    have hproofs : (s₃.drainReceipts round batch).log.proofs = s₃.log.proofs := by
      refine foldl_keeps (f := fun s => s.log.proofs) (fun s msg => ?_) _ _
      rcases handleReceipt_cases round s msg with ⟨r, -, -, -, -, he⟩ | ⟨-, hr⟩
      · rw [he]
        rfl
      · exact congrArg Prod.fst (outputs_of_rejects hr)
    refine ⟨p, ?_, ?_⟩
    · rw [proposalOf, hproposals]
      exact hp
    · unfold BothProofs hasProof at hboth ⊢
      rwa [hproofs]

/-! ## What a node publishes -/

/-- A proof that is laid out for a node of the topology in its role. -/
def OwnProof (t : TopologyConfig) (a : ProofArtifactRecord) : Prop :=
  ∃ n ∈ t.nodes, n.id = a.nodeId ∧ ∀ i : PublicIntent, i.role = n.role → LaidOut a i

/-- A receipt of the provider of a proposal that landed, with a signature that certifies it. -/
def OwnReceipt (Γ : Crypto) (t : TopologyConfig) (said : NodeId → List CoordinationMessage) (r : CompletionReceiptRecord) : Prop :=
  ∃ q, Landed t said q ∧ q.round = r.round ∧ q.candidateProvider = r.provider ∧
    receiptSignatureOk Γ t r.signatureHex r.provider r.round q.matchedCapability.asStr = true

/-- The proofs and receipts among messages are a node's own. -/
structure Testimony (Γ : Crypto) (t : TopologyConfig) (said : NodeId → List CoordinationMessage)
    (msgs : List CoordinationMessage) : Prop where
  proofs : ∀ msg ∈ msgs, ∀ a, msg.payload = .proof a → OwnProof t a
  receipts : ∀ msg ∈ msgs, ∀ r, msg.payload = .receipt r → OwnReceipt Γ t said r

section

variable {Γ : Crypto} {t : TopologyConfig} {said said' : NodeId → List CoordinationMessage} {msgs msgs' : List CoordinationMessage}

theorem OwnReceipt.mono {r : CompletionReceiptRecord} (hle : ∀ j, said j <+: said' j) (h : OwnReceipt Γ t said r) :
    OwnReceipt Γ t said' r := by
  obtain ⟨q, hl, h⟩ := h
  exact ⟨q, hl.mono hle, h⟩

theorem Testimony.mono (hle : ∀ j, said j <+: said' j) (h : Testimony Γ t said msgs) : Testimony Γ t said' msgs :=
  ⟨h.proofs, fun msg hm r hr => (h.receipts msg hm r hr).mono hle⟩

theorem Testimony.append (h : Testimony Γ t said msgs) (h' : Testimony Γ t said msgs') : Testimony Γ t said (msgs ++ msgs') := by
  refine ⟨fun msg hm => ?_, fun msg hm => ?_⟩
  · rcases List.mem_append.mp hm with hm | hm
    · exact h.proofs msg hm
    · exact h'.proofs msg hm
  · rcases List.mem_append.mp hm with hm | hm
    · exact h.receipts msg hm
    · exact h'.receipts msg hm

/-- The role byte of an intent says its role and nothing else. -/
theorem roleByte_congr {i j : PublicIntent} (h : i.role = j.role) : roleByte i = roleByte j := by
  cases i with
  | requester =>
    cases j with
    | requester => rfl
    | provider => simp [PublicIntent.role] at h
  | provider =>
    cases j with
    | requester => simp [PublicIntent.role] at h
    | provider => rfl

theorem LaidOut.congr {a : ProofArtifactRecord} {i j : PublicIntent} (h : i.role = j.role) (hl : LaidOut a i) : LaidOut a j := by
  obtain ⟨⟨d, hd⟩, hm⟩ := hl
  exact ⟨⟨d, roleByte_congr h ▸ hd⟩, hm⟩

/-- A process signs its receipts as the topology expects. -/
def Signs (Γ : Crypto) (t : TopologyConfig) (s : RuntimeState) : Prop :=
  ∀ n ∈ t.nodes, n.role = .provider → n.id ∈ s.agents → ∀ round cap,
    receiptSignatureOk Γ t (s.receiptSignatureHex Γ n.id round cap) n.id round cap = true

theorem Signs.congr {s s' : RuntimeState} (he : s'.agents = s.agents) (h : Signs Γ t s) : Signs Γ t s' := by
  intro n hn hrole hmem round cap
  have hsame : s'.receiptSignatureHex Γ n.id round cap = s.receiptSignatureHex Γ n.id round cap := by
    simp only [receiptSignatureHex, he]
  rw [hsame]
  exact h n hn hrole (he ▸ hmem) round cap

/-! ### The proofs -/

/-- An artifact that was built for a node is laid out for it, tampered with or not. -/
theorem laidOut_artifact (s : RuntimeState) (round : RoundId) (n : NodeId) (c : CommitmentRecord) :
    LaidOut (s.artifact Γ round n c) c.publicIntent := by
  obtain ⟨d, hd⟩ := publicInputs_eq_layout c n round
  have hbuilt : hexDecode (buildProofArtifact Γ c n round).publicInputsHex = some (layout round n d (roleByte c.publicIntent)) := by
    rw [buildProofArtifact, hexDecode_hexEncode, hd]
  have hmarker : ∃ m rest, hexDecode (buildProofArtifact Γ c n round).proofHex = some (m :: rest) ∧ (m = 1 ∨ m = 2) :=
    ⟨1, _, hexDecode_hexEncode _, Or.inl rfl⟩
  unfold RuntimeState.artifact
  dsimp only
  split
  · exact ⟨⟨flipped d, by rw [tamperPublicInputs_layout hbuilt]; exact hexDecode_hexEncode _⟩, hmarker⟩
  · exact ⟨⟨d, hbuilt⟩, hmarker⟩

theorem artifact_nodeId (s : RuntimeState) (round : RoundId) (n : NodeId) (c : CommitmentRecord) :
    (s.artifact Γ round n c).nodeId = n := by
  unfold RuntimeState.artifact
  dsimp only
  split <;> rfl

/-- The proof phase publishes a node's own proofs: of the commitments it holds, which are of nodes in their roles. -/
theorem ownProof_broadcastProof {s : RuntimeState} {round : RoundId} (hl : Ledger t s) {n : NodeId} {msg : CoordinationMessage}
    (hmsg : msg ∈ (s.broadcastProof Γ round n).1) {a : ProofArtifactRecord} (ha : msg.payload = .proof a) : OwnProof t a := by
  unfold broadcastProof at hmsg
  split at hmsg
  · exact absurd hmsg List.not_mem_nil
  · split at hmsg
    · exact absurd hmsg List.not_mem_nil
    · rename_i c hc
      rw [List.mem_singleton.mp hmsg, MessagePayload.proof.injEq] at ha
      obtain rfl : s.artifact Γ round n c = a := ha
      obtain ⟨hmem, hnode, -⟩ := (hl.held_iff n c).mp hc
      obtain ⟨m, hm, hid, hrole⟩ := (hl.sound c hmem).node
      refine ⟨m, hm, by rw [artifact_nodeId, hid, hnode], fun i hi => ?_⟩
      exact (laidOut_artifact s round n c).congr (hrole.symm.trans hi.symm)

theorem ownProof_broadcastProofs {s : RuntimeState} {round : RoundId} (hl : Ledger t s) {p : ProposalRecord}
    {msg : CoordinationMessage} (hmsg : msg ∈ (s.broadcastProofs Γ round p).1) {a : ProofArtifactRecord}
    (ha : msg.payload = .proof a) : OwnProof t a := by
  unfold broadcastProofs Emit.andThen at hmsg
  split at hmsg
  · rcases List.mem_append.mp hmsg with hmsg | hmsg
    · exact ownProof_broadcastProof hl hmsg ha
    · exact ownProof_broadcastProof hl hmsg ha
  · exact ownProof_broadcastProof hl hmsg ha

/-! ### The receipt -/

/-- The receipt phase publishes the receipt of the matched provider, which is a provider of the topology. -/
theorem ownReceipt_broadcastReceipt (ht : t.WellFormed Γ) {s : RuntimeState} {node : NodeId} {round : RoundId}
    (h : Sourced Γ t said node round s) (hs : Signs Γ t s) {p : ProposalRecord} (hp : s.log.proposalOf round = some p)
    {msg : CoordinationMessage} (hmsg : msg ∈ (s.broadcastReceipt Γ round p).1) {r : CompletionReceiptRecord}
    (hr : msg.payload = .receipt r) : OwnReceipt Γ t said r := by
  unfold broadcastReceipt at hmsg
  dsimp only at hmsg
  split at hmsg
  · exact absurd hmsg List.not_mem_nil
  · rename_i hmem
    rw [List.mem_singleton.mp hmsg, MessagePayload.receipt.injEq] at hr
    subst hr
    obtain ⟨-, c, ⟨hc, hcn, -⟩, hcrole⟩ := h.ledger.1.proposals p (proposalOf_some hp).1
    obtain ⟨n, hn, hid, hrole⟩ := (h.ledger.1.sound c hc).node
    refine ⟨p, h.landed ht hp, (proposalOf_some hp).2, rfl, ?_⟩
    have hagent : n.id ∈ s.agents := by
      rw [hid, hcn]
      exact Std.TreeMap.contains_iff_mem.mp (not_not.mp hmem)
    have hok := hs n hn (hrole.trans hcrole) hagent round p.matchedCapability.asStr
    rw [hid, hcn] at hok
    exact hok

/-! ### What the steps of a process publish -/

/-- The commitment phase publishes commitments. -/
theorem commitment_of_broadcastCommitment {s : RuntimeState} {round : RoundId} {n : NodeId} {msg : CoordinationMessage}
    (h : msg ∈ (s.broadcastCommitment Γ round n).1) : ∃ c, msg.payload = .commitment c := by
  have hreplays : ∀ m ∈ s.replays n round, ∃ c, m.payload = .commitment c := by
    intro m hm
    obtain ⟨e, -, hmap⟩ := List.mem_filterMap.mp hm
    split at hmap
    · obtain ⟨prior, -, rfl⟩ := Option.map_eq_some_iff.mp hmap
      exact ⟨_, rfl⟩
    · simp at hmap
  have hdoubles : ∀ (s' : RuntimeState), ∀ m ∈ s'.doubleCommits n round, ∃ c, m.payload = .commitment c := by
    intro s' m hm
    obtain ⟨e, -, hmap⟩ := List.mem_filterMap.mp hm
    split at hmap
    · obtain ⟨c, -, rfl⟩ := Option.map_eq_some_iff.mp hmap
      exact ⟨_, rfl⟩
    · simp at hmap
  unfold broadcastCommitment at h
  split at h
  · exact hreplays msg h
  · split at h
    · exact hreplays msg h
    · rcases List.mem_append.mp h with h | h
      · rcases List.mem_append.mp h with h | h
        · exact hreplays msg h
        · exact ⟨_, by rw [List.mem_singleton.mp h]⟩
      · exact hdoubles _ msg h

theorem commitment_of_broadcastCommitmentsOf {nodes : List NodeId} {s : RuntimeState} {round : RoundId}
    {msg : CoordinationMessage} (h : msg ∈ (s.broadcastCommitmentsOf Γ round nodes).1) : ∃ c, msg.payload = .commitment c := by
  induction nodes generalizing s with
  | nil => exact absurd h List.not_mem_nil
  | cons n nodes ih =>
    simp only [broadcastCommitmentsOf, Emit.andThen] at h
    split at h
    · rcases List.mem_append.mp h with h | h
      · exact commitment_of_broadcastCommitment h
      · exact ih h
    · exact commitment_of_broadcastCommitment h

/-- Commitments and proposals are no testimony. -/
theorem Testimony.of_plain (h : ∀ msg ∈ msgs, (∃ c, msg.payload = .commitment c) ∨ ∃ p, msg.payload = .proposal p) :
    Testimony Γ t said msgs := by
  refine ⟨fun msg hm a ha => ?_, fun msg hm r hr => ?_⟩
  · rcases h msg hm with ⟨c, hc⟩ | ⟨p, hp⟩
    · simp [hc] at ha
    · simp [hp] at ha
  · rcases h msg hm with ⟨c, hc⟩ | ⟨p, hp⟩
    · simp [hc] at hr
    · simp [hp] at hr

theorem Testimony.andThen {α : Type} {x : Emit α} {f : α → Emit Process} (hx : Testimony Γ t said x.1)
    (hf : ∀ a, x.2 = .ok a → Testimony Γ t said (f a).1) : Testimony Γ t said (x.andThen f).1 := by
  unfold Emit.andThen
  split
  · rename_i a ha
    exact hx.append (hf a ha)
  · exact hx

theorem Testimony.nil : Testimony Γ t said [] :=
  ⟨fun _ hm => absurd hm List.not_mem_nil, fun _ hm => absurd hm List.not_mem_nil⟩

theorem testimony_beginRound (n : Nat) (fr : RoundId) (s : RuntimeState) : Testimony Γ t said (beginRound Γ n fr s).1 := by
  cases n with
  | zero => exact .nil
  | succ n =>
    exact .andThen (.of_plain fun msg hm => Or.inl (commitment_of_broadcastCommitmentsOf hm)) (fun _ _ => .nil)

theorem testimony_fallBack (n : Nat) (round : RoundId) (s : RuntimeState) : Testimony Γ t said (fallBack Γ n round s).1 := by
  unfold VertexVeil.fallBack
  split
  · exact .nil
  · exact testimony_beginRound _ _ _

/-- A pause publishes a node's own proofs after the proposal, and its own receipt after the proofs. -/
theorem testimony_pause (ht : t.WellFormed Γ) {node : NodeId} {x : Session} (h : Honours Γ t said node (.draining x))
    (hs : Signs Γ t x.state) : Testimony Γ t said (x.pause Γ).1 := by
  obtain ⟨-, -, hx, hprop⟩ := h
  obtain ⟨s, round, n, stage⟩ := x
  cases stage with
  | commitments =>
    simp only [Session.pause]
    split
    · exact .nil
    · split
      · exact testimony_fallBack _ _ _
      · refine .andThen (.of_plain fun msg hm => Or.inr ?_) (fun y _ => ?_)
        · rcases broadcastProposal_msgs s round with he | ⟨q, -, -, he⟩
          · rw [he] at hm
            exact absurd hm List.not_mem_nil
          · rw [he] at hm
            exact ⟨q, by rw [List.mem_singleton.mp hm]⟩
        · split
          · exact testimony_fallBack _ _ _
          · exact .nil
  | proposal =>
    simp only [Session.pause]
    split
    · exact testimony_fallBack _ _ _
    · rename_i p _
      refine .andThen ⟨fun msg hm a ha => ownProof_broadcastProofs hx.ledger.1 hm ha, fun msg hm r hr => ?_⟩ (fun _ _ => .nil)
      obtain ⟨_, _, a, rfl⟩ := broadcastProofs_msgs hm
      simp at hr
  | proofs p =>
    simp only [Session.pause]
    split
    · refine .andThen ⟨fun msg hm a ha => ?_, fun msg hm r hr => ?_⟩ (fun _ _ => .nil)
      · obtain ⟨_, _, r, rfl⟩ := broadcastReceipt_msgs hm
        simp at ha
      · exact ownReceipt_broadcastReceipt ht hx hs (hprop p (Or.inl rfl)) hm hr
    · exact testimony_fallBack _ _ _
  | receipts p => exact .nil

end

/-! ## What a process logs -/

/-- The records of a log were published by the nodes they are attributed to, and its proofs stand. -/
structure Held (said : NodeId → List CoordinationMessage) (log : CoordinationLog) : Prop where
  published : ∀ m ∈ log.messages, m ∈ said m.origin
  proofs : ∀ a ∈ log.proofs, SoundProof log a

section

variable {Γ : Crypto} {t : TopologyConfig} {said said' : NodeId → List CoordinationMessage} {log log' : CoordinationLog}

theorem Held.mono (hle : ∀ j, said j <+: said' j) (h : Held said log) : Held said' log :=
  ⟨fun m hm => (hle _).subset (h.published m hm), h.proofs⟩

/-- Held is what the records of a log are. -/
theorem Held.congr (he : log'.messages = log.messages) (h : Held said log) : Held said log' := by
  refine ⟨fun m hm => h.published m (he ▸ hm), fun a ha => ?_⟩
  have hmem : a ∈ log.proofs := mem_messages_proof.mp (he ▸ mem_messages_proof.mpr ha)
  exact soundProof_mono (hasCommitment_of_messages fun m hm => he.symm ▸ hm) (h.proofs a hmem)

/-- A drain loop keeps it, when what it takes was published and the proofs among it are laid out. -/
theorem Held.handle (ht : t.WellFormed Γ) {s : RuntimeState} {round : RoundId} (hl : Ledger.At t round s) (h : Held said s.log)
    {msg : CoordinationMessage} (hmsg : msg ∈ said msg.origin) (hproof : ∀ a, msg.payload = .proof a → OwnProof t a)
    (stage : Stage) : Held said (stage.handle round s msg).log := by
  have hmono : ∀ m ∈ s.log.messages, m ∈ (stage.handle round s msg).log.messages := by
    intro m hm
    rcases stage.messages_handle round s msg with he | he
    · exact he.symm ▸ hm
    · exact he.mem_iff.mpr (List.mem_cons_of_mem _ hm)
  refine ⟨fun m hm => ?_, fun a ha => ?_⟩
  · rcases stage.messages_handle round s msg with he | he
    · exact h.published m (he ▸ hm)
    · rcases List.mem_cons.mp (he.mem_iff.mp hm) with rfl | hm
      · exact hmsg
      · exact h.published m hm
  · by_cases hold : a ∈ s.log.proofs
    · exact soundProof_mono (hasCommitment_of_messages hmono) (h.proofs a hold)
    · cases stage with
      | commitments =>
        have hout : (Stage.commitments.handle round s msg).log.proofs = s.log.proofs :=
          congrArg Prod.fst (outputs_handleCommitment round s msg)
        exact absurd (hout ▸ ha) hold
      | proposal =>
        have hout : (Stage.proposal.handle round s msg).log.proofs = s.log.proofs :=
          congrArg Prod.fst (outputs_handleProposal round s msg)
        exact absurd (hout ▸ ha) hold
      | proofs p =>
        rcases handleProof_takes_or round s msg with ⟨b, c, htakes⟩ | hr
        · have he : (Stage.proofs p).handle round s msg = { s with log := s.log.appendProof b } := handleProof_takes htakes
          rw [he] at ha ⊢
          rcases List.mem_append.mp ha with ha | ha
          · exact absurd ha hold
          · obtain rfl := List.mem_singleton.mp ha
            obtain ⟨n, hn, hid, hlaid⟩ := hproof a htakes.payload
            obtain ⟨hc, hcn, -⟩ := (hl.1.held_iff _ _).mp htakes.commitment
            obtain ⟨m, hm, hmid, hmrole⟩ := (hl.1.sound c hc).node
            obtain rfl := ht.node_eq hn hm (hid.trans (hcn.symm.trans hmid.symm))
            have hsame : (s.log.appendProof a).commitments = s.log.commitments := rfl
            exact (soundProof_iff_laidOut hl htakes hsame).mpr (hlaid _ hmrole.symm)
        · have hsame : ((Stage.proofs p).handle round s msg).outputs = s.outputs := outputs_of_rejects hr
          have hout : ((Stage.proofs p).handle round s msg).log.proofs = s.log.proofs := congrArg Prod.fst hsame
          exact absurd (hout ▸ ha) hold
      | receipts p =>
        rcases handleReceipt_cases round s msg with ⟨r, -, -, -, -, he⟩ | ⟨-, hr⟩
        · rw [show (Stage.receipts p).handle round s msg = _ from he] at ha
          exact absurd ha hold
        · have hsame : ((Stage.receipts p).handle round s msg).outputs = s.outputs := outputs_of_rejects hr
          have hout : ((Stage.receipts p).handle round s msg).log.proofs = s.log.proofs := congrArg Prod.fst hsame
          exact absurd (hout ▸ ha) hold

end

/-! ## The invariant of a process -/

/-- The log of a process and its agents, where it has them. -/
def Process.Vouches (Γ : Crypto) (t : TopologyConfig) (said : NodeId → List CoordinationMessage) : Process → Prop
  | .ready s => Signs Γ t s ∧ Held said s.log
  | .draining x => Signs Γ t x.state ∧ Held said x.state.log
  | .returned out => Held said out.log
  | .failed _ => True

/-- The invariant of a process that signs as the topology expects. -/
structure Credible (Γ : Crypto) (t : TopologyConfig) (said : NodeId → List CoordinationMessage) (node : NodeId)
    (p : Process) : Prop where
  honours : Honours Γ t said node p
  testimony : Testimony Γ t said (said node)
  vouches : p.Vouches Γ t said

section

variable {Γ : Crypto} {t : TopologyConfig} {said said' : NodeId → List CoordinationMessage} {node : NodeId} {p p' : Process}
  {msgs : List CoordinationMessage}

theorem Process.Vouches.mono (hle : ∀ j, said j <+: said' j) (h : p.Vouches Γ t said) : p.Vouches Γ t said' := by
  cases p with
  | ready s => exact ⟨h.1, Held.mono hle h.2⟩
  | draining x => exact ⟨h.1, Held.mono hle h.2⟩
  | returned out => exact Held.mono hle h
  | failed e => trivial

theorem Credible.mono (hle : ∀ j, said j <+: said' j) (hown : said' node = said node) (h : Credible Γ t said node p) :
    Credible Γ t said' node p :=
  ⟨h.honours.mono hle hown, hown ▸ h.testimony.mono hle, h.vouches.mono hle⟩

theorem Credible.hear (ht : t.WellFormed Γ) {msg : CoordinationMessage} {j : NodeId} {q : Process} (h : Credible Γ t said node p)
    (hj : Credible Γ t said j q) (hmsg : msg ∈ said j) (hp : (protocol Γ).hear p msg = some p') :
    Credible Γ t said node p' := by
  refine ⟨h.honours.hear ht hj.honours hmsg hp, h.testimony, ?_⟩
  cases p with
  | draining x =>
    simp only [protocol, Option.some.injEq] at hp
    subst hp
    have horigin : msg ∈ said msg.origin := (hj.honours.speech.origin msg hmsg).symm ▸ hmsg
    refine ⟨h.vouches.1.congr (x.stage.agents_handle x.round x.state msg), ?_⟩
    exact Held.handle ht h.honours.sound.1.ledger h.vouches.2 horigin (hj.testimony.proofs msg hmsg) x.stage
  | ready s => simp [protocol] at hp
  | returned out => simp [protocol] at hp
  | failed e => simp [protocol] at hp

/-- A process that goes on from a state vouches for what the state does. -/
theorem Process.GoesOn.vouches {s : RuntimeState} (h : p'.GoesOn s msgs) (hs : Signs Γ t s) (hh : Held said s.log) :
    p'.Vouches Γ t said := by
  cases p' with
  | ready s' => exact h.elim
  | draining x => exact ⟨hs.congr h.1, hh.congr h.2⟩
  | returned out => exact hh.congr h.1
  | failed e => trivial

theorem Credible.act (ht : t.WellFormed Γ) (h : Credible Γ t said node p) (hp : (protocol Γ).act p = some (msgs, p')) :
    Credible Γ t (saying said node msgs) node p' := by
  have htest : Testimony Γ t said msgs := by
    cases p with
    | ready s =>
      simp only [protocol, Option.some.injEq] at hp
      obtain rfl : (beginRound Γ s.maxRounds.toNat 0 s).1 = msgs := congrArg Prod.fst hp
      exact testimony_beginRound _ _ _
    | draining x =>
      simp only [protocol, Option.some.injEq] at hp
      obtain rfl : (x.pause Γ).1 = msgs := congrArg Prod.fst hp
      exact testimony_pause ht h.honours h.vouches.1
    | returned out => simp [protocol] at hp
    | failed e => simp [protocol] at hp
  refine ⟨h.honours.act ht hp, ?_, ?_⟩
  · rw [saying_self]
    exact (h.testimony.append htest).mono prefix_saying
  · obtain ⟨s, hs, -, hgo⟩ := act_cases hp
    have hstate : Signs Γ t s ∧ Held said s.log := by
      cases p with
      | ready s' => exact Option.some.inj hs ▸ h.vouches
      | draining x => exact Option.some.inj hs ▸ h.vouches
      | returned out => simp [Process.state] at hs
      | failed e => simp [Process.state] at hs
    exact (hgo.vouches hstate.1 hstate.2).mono prefix_saying

end

end VertexVeil
