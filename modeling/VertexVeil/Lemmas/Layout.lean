import VertexVeil.Lemmas.Handlers

/-!
# Helpers for `Theorems/Proofs.lean`, `Theorems/Tampering.lean` and `Theorems/PublicInputs.lean`: public inputs as bytes

The verifier's parser accepts exactly the bytes that `layout` puts together, and gives back what went in; the runtime's reader
takes the digest out of any bytes that are long enough. `drainProofs` appends the artifacts of the messages it takes.
-/

namespace VertexVeil

open Codec

/-- The public inputs that carry a round, a node, a digest and a role byte, as bytes. -/
def layout (round : RoundId) (node : NodeId) (digest : Bytes 32) (role : UInt8) : List UInt8 :=
  beBytes 8 round.toNat ++ (node.bytes.toList ++ (digest.toList ++ [role]))

theorem layout_length (r : RoundId) (n : NodeId) (d : Bytes 32) (b : UInt8) :
    (layout r n d b).length = proofPublicInputsLen := by
  simp [layout, proofPublicInputsLen]

/-! ## The fields of the layout -/

theorem sliceAt_layout_round (r : RoundId) (n : NodeId) (d : Bytes 32) (b : UInt8) :
    sliceAt (layout r n d b) 0 8 = beBytes 8 r.toNat := by
  rw [sliceAt, layout, List.drop_zero]
  exact List.take_left' (beBytes_length _ _)

theorem sliceAt_layout_node (r : RoundId) (n : NodeId) (d : Bytes 32) (b : UInt8) :
    sliceAt (layout r n d b) 8 32 = n.bytes.toList := by
  rw [sliceAt, layout, List.drop_left' (beBytes_length _ _)]
  exact List.take_left' (List.Vector.toList_length _)

theorem sliceAt_layout_digest (r : RoundId) (n : NodeId) (d : Bytes 32) (b : UInt8) :
    sliceAt (layout r n d b) 40 32 = d.toList := by
  have hl : (beBytes 8 r.toNat ++ n.bytes.toList).length = 40 := by simp
  rw [sliceAt, layout, ← List.append_assoc, List.drop_left' hl]
  exact List.take_left' (List.Vector.toList_length _)

theorem getD_layout_role (r : RoundId) (n : NodeId) (d : Bytes 32) (b : UInt8) : (layout r n d b).getD 72 0 = b := by
  have hl : (beBytes 8 r.toNat ++ (n.bytes.toList ++ d.toList)).length = 72 := by simp
  have he : layout r n d b = (beBytes 8 r.toNat ++ (n.bytes.toList ++ d.toList)) ++ [b] := by simp [layout]
  rw [he, List.getD_eq_getElem?_getD, List.getElem?_append_right (Nat.le_of_eq hl), hl]
  rfl

/-- Bytes of the layout's length are made of their four fields. -/
theorem eq_layout {bs : List UInt8} (h : bs.length = proofPublicInputsLen) {n : NodeId} {d : Bytes 32}
    (hn : n.bytes.toList = sliceAt bs 8 32) (hd : d.toList = sliceAt bs 40 32) :
    bs = layout (UInt64.ofNat (ofBE (sliceAt bs 0 8))) n d (bs.getD 72 0) := by
  have h8 : (sliceAt bs 0 8).length = 8 := sliceAt_length (by rw [h]; decide)
  have hr : beBytes 8 (UInt64.ofNat (ofBE (sliceAt bs 0 8))).toNat = sliceAt bs 0 8 := by
    have hlt : ofBE (sliceAt bs 0 8) < 2 ^ 64 := by
      have := ofBE_lt (sliceAt bs 0 8)
      rwa [h8] at this
    rw [UInt64.toNat_ofNat', Nat.mod_eq_of_lt hlt]
    have := beBytes_ofBE (sliceAt bs 0 8)
    rwa [h8] at this
  have hrole : bs.drop 72 = [bs.getD 72 0] := by
    have hlt : 72 < bs.length := by rw [h]; decide
    rw [List.drop_eq_getElem_cons hlt, List.getD_eq_getElem?_getD, List.getElem?_eq_getElem hlt, Option.getD_some,
      List.drop_of_length_le (by rw [h]; decide)]
  rw [layout, hr, hn, hd, ← hrole]
  simp only [sliceAt, List.drop_zero]
  conv_lhs => rw [← List.take_append_drop 8 bs, ← List.take_append_drop 32 (bs.drop 8), List.drop_drop,
    ← List.take_append_drop 32 (bs.drop 40), List.drop_drop]

/-- The verifier parses a text exactly when it spells the layout of what is parsed. -/
theorem parsePublicInputs_eq_some {hex : Text} {r : RoundId} {n : NodeId} {d : Bytes 32} {b : UInt8} :
    parsePublicInputs hex = some (r, n, d, b) ↔ hexDecode hex = some (layout r n d b) := by
  unfold parsePublicInputs
  constructor
  · intro h
    split at h
    · simp at h
    · rename_i bs hbs
      split at h
      · rename_i hl
        simp only [Option.some.injEq, Prod.mk.injEq] at h
        obtain ⟨rfl, rfl, rfl, rfl⟩ := h
        exact hbs.trans (congrArg some (eq_layout hl rfl rfl))
      · simp at h
  · intro h
    have hr : ofBE (beBytes 8 r.toNat) = r.toNat := ofBE_beBytes_of_lt r.toNat_lt
    simp only [h, layout_length, dif_pos, sliceAt_layout_round, sliceAt_layout_node, sliceAt_layout_digest, getD_layout_role,
      hr, UInt64.ofNat_toNat]
    rfl

/-- Texts that parse to the same spell the same bytes. -/
theorem hexDecode_eq_of_parse {x y : Text} {v : RoundId × NodeId × Bytes 32 × UInt8} (hx : parsePublicInputs x = some v)
    (hy : parsePublicInputs y = some v) : hexDecode x = hexDecode y := by
  obtain ⟨r, n, d, b⟩ := v
  exact (parsePublicInputs_eq_some.mp hx).trans (parsePublicInputs_eq_some.mp hy).symm

/-- The runtime reads the digest of the layout. -/
theorem extractCommitmentHashHex_layout {hex : Text} {r : RoundId} {n : NodeId} {d : Bytes 32} {b : UInt8}
    (h : hexDecode hex = some (layout r n d b)) : extractCommitmentHashHex hex = some (hexEncode d.toList) := by
  have hl : ¬ (layout r n d b).length < 72 := by
    rw [layout_length]
    decide
  simp only [extractCommitmentHashHex, h, if_neg hl, sliceAt_layout_digest]

/-! ## What is built, and what the fault injector makes of it -/

/-- What is built is the layout of its round, its node, some digest and the role of the intent. -/
theorem publicInputs_eq_layout (c : CommitmentRecord) (n : NodeId) (r : RoundId) :
    ∃ d, publicInputs c n r = layout r n d (roleByte c.publicIntent) := by
  have hf := sliceAt_publicInputs c n r
  have hl := publicInputs_length c n r
  have h0 := hf (0, beBytes 8 r.toNat) (by simp [publicInputFields])
  have h8 := hf (8, n.bytes.toList) (by simp [publicInputFields])
  have h72 := hf (72, [roleByte c.publicIntent]) (by simp [publicInputFields])
  simp only [beBytes_length, List.length_singleton] at h0 h72
  rw [List.Vector.toList_length] at h8
  have hr : ofBE (beBytes 8 r.toNat) = r.toNat := ofBE_beBytes_of_lt r.toNat_lt
  refine ⟨⟨sliceAt (publicInputs c n r) 40 32, sliceAt_length (by rw [hl]; decide)⟩, ?_⟩
  have h := eq_layout hl (n := n) (d := ⟨sliceAt (publicInputs c n r) 40 32, sliceAt_length (by rw [hl]; decide)⟩) h8.symm rfl
  rw [h0, hr, UInt64.ofNat_toNat, sliceAt_one h72] at h
  exact h

theorem xor_one_ne (b : UInt8) : b ^^^ 1 ≠ b := by
  intro h
  have := congrArg (fun x => x ^^^ b) h
  simp only [UInt8.xor_self] at this
  rw [UInt8.xor_comm b 1, UInt8.xor_assoc, UInt8.xor_self, UInt8.xor_zero] at this
  exact absurd this (by decide)

/-- A digest with the lowest bit of its first byte flipped. -/
def flipped (d : Bytes 32) : Bytes 32 :=
  ⟨d.toList.set 0 (d.toList.getD 0 0 ^^^ 1), by rw [List.length_set, List.Vector.toList_length]⟩

theorem flipped_ne (d : Bytes 32) : flipped d ≠ d := by
  intro h
  have hl : 0 < d.toList.length := by simp
  have hbyte := congrArg (fun v => v.toList[0]?) h
  simp only [flipped, List.Vector.toList_mk, List.getElem?_set_self hl, List.getElem?_eq_getElem hl,
    List.getD_eq_getElem?_getD, Option.getD_some, Option.some.injEq] at hbyte
  exact xor_one_ne _ hbyte

/-- Tampering with a layout flips the digest and leaves the other fields. -/
theorem tamperPublicInputs_layout {hex : Text} {r : RoundId} {n : NodeId} {d : Bytes 32} {b : UInt8}
    (h : hexDecode hex = some (layout r n d b)) : tamperPublicInputs hex = hexEncode (layout r n (flipped d) b) := by
  have hl : ¬ (layout r n d b).length < 41 := by
    rw [layout_length]
    decide
  have hpre : (beBytes 8 r.toNat ++ n.bytes.toList).length = 40 := by simp
  have hsplit : ∀ e : Bytes 32, layout r n e b = (beBytes 8 r.toNat ++ n.bytes.toList) ++ (e.toList ++ [b]) := by
    intro e
    rw [layout, List.append_assoc]
  have hd : 0 < d.toList.length := by simp
  have hget : (layout r n d b).getD 40 0 = d.toList.getD 0 0 := by
    rw [hsplit, List.getD_eq_getElem?_getD, List.getElem?_append_right (Nat.le_of_eq hpre), hpre, Nat.sub_self,
      List.getElem?_append_left hd, List.getD_eq_getElem?_getD]
  simp only [tamperPublicInputs, h, if_neg hl, hget]
  rw [hsplit, hsplit, List.set_append_right _ _ (Nat.le_of_eq hpre), hpre, Nat.sub_self, List.set_append_left _ _ hd, flipped,
    List.Vector.toList_mk]

/-- No record's text is the flipped digest of its own artifact, whatever that text is. -/
theorem commitmentHex_ne_flipped {c : CommitmentRecord} {n : NodeId} {r : RoundId} {d : Bytes 32}
    (hd : publicInputs c n r = layout r n d (roleByte c.publicIntent)) : c.commitmentHex ≠ hexEncode (flipped d).toList := by
  intro he
  -- Such a text would be the hexadecimal form of a digest, and the artifact would carry that one.
  have h40 := sliceAt_publicInputs c n r (40, commitmentBytes c) (by simp [publicInputFields])
  rw [commitmentBytes_of_hex he, List.Vector.toList_length, hd, sliceAt_layout_digest] at h40
  exact flipped_ne d (List.Vector.eq _ _ h40.symm)

/-- A tampered artifact does not carry the commitment's text. -/
theorem extractCommitmentHashHex_tamper (Γ : Crypto) (c : CommitmentRecord) (n : NodeId) (r : RoundId) :
    extractCommitmentHashHex (tamperPublicInputs (buildProofArtifact Γ c n r).publicInputsHex) ≠ some c.commitmentHex := by
  obtain ⟨d, hd⟩ := publicInputs_eq_layout c n r
  have hbuilt : hexDecode (buildProofArtifact Γ c n r).publicInputsHex = some (layout r n d (roleByte c.publicIntent)) := by
    rw [buildProofArtifact, hexDecode_hexEncode, hd]
  rw [tamperPublicInputs_layout hbuilt, extractCommitmentHashHex_layout (hexDecode_hexEncode _)]
  intro he
  exact commitmentHex_ne_flipped hd (Option.some.inj he).symm

/-! ## What the proof phase appends -/

/-- The proof phase takes a message: a proof of its origin and of the round, with the digest of its node's commitment. -/
structure TakesProof (round : RoundId) (s : RuntimeState) (msg : CoordinationMessage) (a : ProofArtifactRecord)
    (c : CommitmentRecord) : Prop where
  payload : msg.payload = .proof a
  origin : msg.origin = a.nodeId
  round : a.round = round
  commitment : s.roundMachine.commitments[a.nodeId]? = some c
  digest : extractCommitmentHashHex a.publicInputsHex = some c.commitmentHex

namespace RuntimeState

variable {round : RoundId} {s s' : RuntimeState} {msg : CoordinationMessage}

theorem handleProof_takes {a : ProofArtifactRecord} {c : CommitmentRecord} (h : TakesProof round s msg a c) :
    handleProof round s msg = { s with log := s.log.appendProof a } := by
  simp [handleProof, h.payload, h.origin, h.round, h.commitment, h.digest]

/-- What is taken depends on the machine only. -/
theorem takesProof_congr (hm : s'.roundMachine = s.roundMachine) {a : ProofArtifactRecord} {c : CommitmentRecord} :
    TakesProof round s' msg a c ↔ TakesProof round s msg a c := by
  constructor
  · intro h
    exact ⟨h.payload, h.origin, h.round, hm ▸ h.commitment, h.digest⟩
  · intro h
    exact ⟨h.payload, h.origin, h.round, hm.symm ▸ h.commitment, h.digest⟩

/-- A message of the proof phase is taken, or a rejection is logged. -/
theorem handleProof_takes_or (round : RoundId) (s : RuntimeState) (msg : CoordinationMessage) :
    (∃ a c, TakesProof round s msg a c) ∨ Rejects round s (handleProof round s msg) := by
  rcases handleProof_cases round s msg with ⟨a, c, hp, ho, hr, hc, hd, -⟩ | hr
  · exact Or.inl ⟨a, c, hp, ho, hr, hc, hd⟩
  · exact Or.inr hr

/-- Draining the proof phase appends the artifacts of the messages it takes; the machine and the commitments stay. -/
theorem drainProofs_append (round : RoundId) (batch : List CoordinationMessage) (s : RuntimeState) : ∃ added,
    (s.drainProofs round batch).log.proofs = s.log.proofs ++ added ∧
      (∀ a, a ∈ added ↔ ∃ msg ∈ batch, ∃ c, TakesProof round s msg a c) ∧
      (s.drainProofs round batch).log.commitments = s.log.commitments := by
  induction batch generalizing s with
  | nil => exact ⟨[], (List.append_nil _).symm, by simp, rfl⟩
  | cons msg batch ih =>
    obtain ⟨added, hp, hmem, hc⟩ := ih (handleProof round s msg)
    have hm : (handleProof round s msg).roundMachine = s.roundMachine := by
      rcases handleProof_cases round s msg with ⟨_, _, -, -, -, -, -, he⟩ | ⟨_, _, _, -, he⟩
      · rw [he]
      · rw [he]
        rfl
    simp only [takesProof_congr hm] at hmem
    rcases handleProof_takes_or round s msg with ⟨a, c, ht⟩ | hr
    · have he := handleProof_takes ht
      refine ⟨a :: added, ?_, fun b => ?_, ?_⟩
      · rw [he] at hp
        rw [drainProofs, List.foldl_cons, he]
        exact hp.trans (List.append_assoc _ _ _)
      · rw [List.mem_cons, hmem b, List.exists_mem_cons_iff]
        refine or_congr ⟨?_, ?_⟩ Iff.rfl
        · rintro rfl
          exact ⟨c, ht⟩
        · rintro ⟨d, hd⟩
          have := ht.payload.symm.trans hd.payload
          rw [MessagePayload.proof.injEq] at this
          exact this.symm
      · rw [drainProofs, List.foldl_cons]
        exact hc.trans (by rw [he]; rfl)
    · have hout := congrArg Prod.fst (outputs_of_rejects hr)
      refine ⟨added, ?_, fun b => ?_, ?_⟩
      · rw [drainProofs, List.foldl_cons]
        exact hp.trans (congrArg (· ++ added) hout)
      · rw [hmem b, List.exists_mem_cons_iff]
        refine (or_iff_right ?_).symm
        rintro ⟨d, hd⟩
        rw [handleProof_takes hd] at hout
        simp [outputs, CoordinationLog.appendProof] at hout
      · obtain ⟨_, _, _, -, he⟩ := hr
        rw [drainProofs, List.foldl_cons]
        exact hc.trans (by rw [he]; rfl)

end RuntimeState

end VertexVeil
