import VertexVeil.Circuits

/-!
# Helpers for `Theorems/Circuits.lean`: preimages as fields

The Noir builders write the same fields as the Rust builders, except that a tag is written with its padding and a slot without a
claim is written as zeros; in a zeroed buffer that makes no difference. Reading the fields back shows what a preimage determines.
-/

namespace VertexVeil

open Codec

namespace Noir

/-! ## Writes of numbers -/

theorem byte_u64 (value : UInt64) {s : UInt64} {k : Nat} (hs : s.toNat = 8 * k) (hk : k < 8) :
    ((value >>> s) &&& 0xff).toUInt8 = UInt8.ofNat (value.toNat / 256 ^ k) := by
  have hmod : 8 * k % 64 = 8 * k := Nat.mod_eq_of_lt (by omega)
  have hpow : (2 : Nat) ^ (8 * k) = 256 ^ k := pow_mul 2 8 k
  refine UInt8.toNat_inj.mp ?_
  rw [UInt64.toNat_toUInt8, UInt64.toNat_and, UInt64.toNat_shiftRight, hs, hmod, Nat.shiftRight_eq_div_pow, hpow,
    UInt8.toNat_ofNat', show (0xff : UInt64).toNat = 2 ^ 8 - 1 from rfl, Nat.and_two_pow_sub_one_eq_mod, Nat.mod_mod]

theorem byte_u32 (value : UInt32) {s : UInt32} {k : Nat} (hs : s.toNat = 8 * k) (hk : k < 4) :
    ((value >>> s) &&& 0xff).toUInt8 = UInt8.ofNat (value.toNat / 256 ^ k) := by
  have hmod : 8 * k % 32 = 8 * k := Nat.mod_eq_of_lt (by omega)
  have hpow : (2 : Nat) ^ (8 * k) = 256 ^ k := pow_mul 2 8 k
  refine UInt8.toNat_inj.mp ?_
  rw [UInt32.toNat_toUInt8, UInt32.toNat_and, UInt32.toNat_shiftRight, hs, hmod, Nat.shiftRight_eq_div_pow, hpow,
    UInt8.toNat_ofNat', show (0xff : UInt32).toNat = 2 ^ 8 - 1 from rfl, Nat.and_two_pow_sub_one_eq_mod, Nat.mod_mod]

/-- The writer of 64-bit values writes their bytes. -/
theorem writeU64Be_eq {buf : List UInt8} {pos : Nat} (value : UInt64) (h : pos + 8 ≤ buf.length) :
    writeU64Be buf pos value = writeAt buf pos (beBytes 8 value.toNat) := by
  have hbytes : beBytes 8 value.toNat = [((value >>> 56) &&& 0xff).toUInt8, ((value >>> 48) &&& 0xff).toUInt8,
      ((value >>> 40) &&& 0xff).toUInt8, ((value >>> 32) &&& 0xff).toUInt8, ((value >>> 24) &&& 0xff).toUInt8,
      ((value >>> 16) &&& 0xff).toUInt8, ((value >>> 8) &&& 0xff).toUInt8, (value &&& 0xff).toUInt8] := by
    have h0 := byte_u64 value (s := 0) (k := 0) rfl (by decide)
    rw [UInt64.shiftRight_zero] at h0
    rw [byte_u64 value (s := 56) (k := 7) rfl (by decide), byte_u64 value (s := 48) (k := 6) rfl (by decide),
      byte_u64 value (s := 40) (k := 5) rfl (by decide), byte_u64 value (s := 32) (k := 4) rfl (by decide),
      byte_u64 value (s := 24) (k := 3) rfl (by decide), byte_u64 value (s := 16) (k := 2) rfl (by decide),
      byte_u64 value (s := 8) (k := 1) rfl (by decide), h0]
    rfl
  rw [hbytes, ← fillLoop_getD (n := 8) rfl h]
  rfl

/-- The writer of 32-bit values writes their bytes. -/
theorem writeU32Be_eq {buf : List UInt8} {pos : Nat} (value : UInt32) (h : pos + 4 ≤ buf.length) :
    writeU32Be buf pos value = writeAt buf pos (beBytes 4 value.toNat) := by
  have hbytes : beBytes 4 value.toNat = [((value >>> 24) &&& 0xff).toUInt8, ((value >>> 16) &&& 0xff).toUInt8,
      ((value >>> 8) &&& 0xff).toUInt8, (value &&& 0xff).toUInt8] := by
    have h0 := byte_u32 value (s := 0) (k := 0) rfl (by decide)
    rw [UInt32.shiftRight_zero] at h0
    rw [byte_u32 value (s := 24) (k := 3) rfl (by decide), byte_u32 value (s := 16) (k := 2) rfl (by decide),
      byte_u32 value (s := 8) (k := 1) rfl (by decide), h0]
    rfl
  rw [hbytes, ← fillLoop_getD (n := 4) rfl h]
  rfl

@[simp] theorem length_writeU64Be (buf : List UInt8) (pos : Nat) (value : UInt64) :
    (writeU64Be buf pos value).length = buf.length := by
  simp [writeU64Be]

@[simp] theorem length_writeU32Be (buf : List UInt8) (pos : Nat) (value : UInt32) :
    (writeU32Be buf pos value).length = buf.length := by
  simp [writeU32Be]

@[simp] theorem length_fillLoop (n off : Nat) (value : Nat → UInt8) (buf : List UInt8) :
    (fillLoop n off value buf).length = buf.length :=
  List.foldlRecOn (motive := fun (b : List UInt8) => b.length = buf.length) _ _ rfl
    (fun b hb i _ => by rw [List.length_set, hb])

theorem length_commitDomainRequester : commitDomainRequester.length = 31 := rfl

theorem length_commitDomainProvider : commitDomainProvider.length = 30 := rfl

/-! ## The fields of the Noir preimages -/

/-- The fields of a requester preimage, the tag with its padding. -/
def requesterSlots (round : UInt64) (nodeId requiredCapability : Bytes 32) (capabilityLen : UInt32) (budgetCents : UInt64)
    (nonce : Bytes 32) : List (Nat × List UInt8) :=
  [(0, beBytes 4 31), (4, commitDomainRequester), (35, [commitSchemaVersion]), (36, beBytes 8 round.toNat),
    (44, nodeId.toList), (76, [0]), (77, beBytes 4 capabilityLen.toNat), (81, requiredCapability.toList),
    (113, beBytes 8 budgetCents.toNat), (121, nonce.toList)]

/-- The length written into a slot. -/
def slotLen (claimLens : List.Vector UInt32 4) (nClaims : UInt32) (slotIdx : Nat) : UInt32 :=
  if UInt32.ofNat slotIdx < nClaims then claimLens.toList.getD slotIdx 0 else 0

/-- The bytes written into a slot. -/
def slotBytes (claimBytes : List.Vector (Bytes 32) 4) (nClaims : UInt32) (slotIdx : Nat) : Bytes 32 :=
  if UInt32.ofNat slotIdx < nClaims then claimBytes.toList.getD slotIdx (List.Vector.replicate 32 0)
  else List.Vector.replicate 32 0

/-- The fields of one claim slot. -/
def slotFields (claimBytes : List.Vector (Bytes 32) 4) (claimLens : List.Vector UInt32 4) (nClaims : UInt32) (slotIdx : Nat) :
    List (Nat × List UInt8) :=
  [(80 + slotIdx * 36, beBytes 4 (slotLen claimLens nClaims slotIdx).toNat),
    (80 + slotIdx * 36 + 4, (slotBytes claimBytes nClaims slotIdx).toList)]

/-- The fields of a provider preimage, all four slots written. -/
def providerSlots (round : UInt64) (nodeId : Bytes 32) (claimBytes : List.Vector (Bytes 32) 4)
    (claimLens : List.Vector UInt32 4) (nClaims : UInt32) (reservationCents : UInt64) (nonce : Bytes 32) :
    List (Nat × List UInt8) :=
  [(0, beBytes 4 30), (4, commitDomainProvider), (34, [commitSchemaVersion]), (35, beBytes 8 round.toNat),
    (43, nodeId.toList), (75, [1]), (76, beBytes 4 nClaims.toNat)] ++
  (List.range 4).flatMap (slotFields claimBytes claimLens nClaims) ++
  [(224, beBytes 8 reservationCents.toNat), (232, nonce.toList)]

theorem requesterSlots_fit (round : UInt64) (nodeId cap : Bytes 32) (len : UInt32) (budget : UInt64) (nonce : Bytes 32) :
    FieldsFit 153 0 (requesterSlots round nodeId cap len budget nonce) := by
  simp [requesterSlots, FieldsFit, commitDomainRequester]

theorem providerSlots_fit (round : UInt64) (nodeId : Bytes 32) (claimBytes : List.Vector (Bytes 32) 4)
    (claimLens : List.Vector UInt32 4) (nClaims : UInt32) (reservation : UInt64) (nonce : Bytes 32) :
    FieldsFit 264 0 (providerSlots round nodeId claimBytes claimLens nClaims reservation nonce) := by
  simp [providerSlots, slotFields, FieldsFit, commitDomainProvider, List.range_succ]

/-- The requester builder writes its fields. -/
theorem buildRequesterPreimage_eq (round : UInt64) (nodeId cap : Bytes 32) (len : UInt32) (budget : UInt64) (nonce : Bytes 32) :
    buildRequesterPreimage round nodeId cap len budget nonce =
      writeFields (List.replicate 153 0) (requesterSlots round nodeId cap len budget nonce) := by
  have hfit := requesterSlots_fit round nodeId cap len budget nonce
  have hfit' : FieldsFit 264 0 (requesterSlots round nodeId cap len budget nonce) := by
    simp [requesterSlots, FieldsFit, commitDomainRequester]
  have htrim : ∀ big : List UInt8, big.length = 264 →
      fillLoop 153 0 (fun i => big.getD i 0) (List.replicate 153 0) = big.take 153 := by
    intro big hbig
    rw [fillLoop_eq (by rw [List.length_replicate]), writeAt, List.take_zero, List.nil_append, List.length_map,
      List.length_range, List.drop_of_length_le (by rw [List.length_replicate]), List.append_nil]
    refine List.ext_getElem (by rw [List.length_map, List.length_range, List.length_take, hbig]; rfl) ?_
    intro i hi hi'
    rw [List.length_map, List.length_range] at hi
    have hlt : i < big.length := by omega
    simp only [List.getElem_map, List.getElem_range, List.getElem_take, List.getD_eq_getElem?_getD,
      List.getElem?_eq_getElem hlt, Option.getD_some]
  have hbig : buildRequesterPreimage round nodeId cap len budget nonce =
      (writeFields (List.replicate 264 0) (requesterSlots round nodeId cap len budget nonce)).take 153 := by
    obtain ⟨z, hz⟩ : ∃ z, z = List.replicate 264 (0 : UInt8) := ⟨_, rfl⟩
    have hl : z.length = 264 := by rw [hz, List.length_replicate]
    unfold buildRequesterPreimage
    dsimp only [-List.reduceReplicate]
    rw [← hz, htrim _ (by simp [hl])]
    refine congrArg (List.take 153) ?_
    rw [fillLoop_getD (List.Vector.toList_length nonce) (by simp [hl]), writeU64Be_eq budget (by simp [hl]),
      fillLoop_getD (List.Vector.toList_length cap) (by simp [hl]), writeU32Be_eq len (by simp [hl]),
      set_eq_writeAt (by simp [hl]), fillLoop_getD (List.Vector.toList_length nodeId) (by simp [hl]),
      writeU64Be_eq round (by simp [hl]), set_eq_writeAt (by simp [hl]),
      fillLoop_getD length_commitDomainRequester (by simp [hl]), writeU32Be_eq 31 (by simp [hl])]
    simp only [writeFields, requesterSlots, List.foldl_cons, List.foldl_nil]
    rfl
  rw [hbig, writeFields_replicate hfit', writeFields_replicate hfit]
  exact packFields_take (by decide) hfit

/-- A slot is written as its two fields. -/
theorem writeSlot_eq (claimBytes : List.Vector (Bytes 32) 4) (claimLens : List.Vector UInt32 4) (nClaims : UInt32)
    {big : List UInt8} {slotIdx : Nat} (h : 80 + slotIdx * 36 + 36 ≤ big.length) :
    writeSlot claimBytes claimLens nClaims big slotIdx =
      writeFields big (slotFields claimBytes claimLens nClaims slotIdx) := by
  have hbytes : (fun i => if UInt32.ofNat slotIdx < nClaims then
      (claimBytes.toList.getD slotIdx (List.Vector.replicate 32 0)).toList.getD i 0 else 0) =
      fun i => (slotBytes claimBytes nClaims slotIdx).toList.getD i 0 := by
    funext i
    unfold slotBytes
    split
    · rfl
    · change 0 = (List.replicate 32 (0 : UInt8)).getD i 0
      rw [List.getD_eq_getElem?_getD, List.getElem?_replicate]
      split
      · rfl
      · rfl
  unfold writeSlot
  dsimp only
  rw [hbytes, fillLoop_getD (List.Vector.toList_length _) (by simp; omega), writeU32Be_eq _ (by omega)]
  rfl

@[simp] theorem length_writeSlot (claimBytes : List.Vector (Bytes 32) 4) (claimLens : List.Vector UInt32 4) (nClaims : UInt32)
    (big : List UInt8) (slotIdx : Nat) : (writeSlot claimBytes claimLens nClaims big slotIdx).length = big.length := by
  simp [writeSlot]

/-- The provider builder writes its fields. -/
theorem buildProviderPreimage_eq (round : UInt64) (nodeId : Bytes 32) (claimBytes : List.Vector (Bytes 32) 4)
    (claimLens : List.Vector UInt32 4) (nClaims : UInt32) (reservation : UInt64) (nonce : Bytes 32) :
    buildProviderPreimage round nodeId claimBytes claimLens nClaims reservation nonce =
      writeFields (List.replicate 264 0)
        (providerSlots round nodeId claimBytes claimLens nClaims reservation nonce) := by
  have hrange : List.range 4 = [0, 1, 2, 3] := rfl
  obtain ⟨z, hz⟩ : ∃ z, z = List.replicate 264 (0 : UInt8) := ⟨_, rfl⟩
  have hl : z.length = 264 := by rw [hz, List.length_replicate]
  unfold buildProviderPreimage
  dsimp only [-List.reduceReplicate]
  simp only [hrange, List.foldl_cons, List.foldl_nil, ← hz]
  rw [fillLoop_getD (List.Vector.toList_length nonce) (by simp [hl]), writeU64Be_eq reservation (by simp [hl]),
    writeSlot_eq _ _ _ (by simp [hl]), writeSlot_eq _ _ _ (by simp [hl]), writeSlot_eq _ _ _ (by simp [hl]),
    writeSlot_eq _ _ _ (by simp [hl]), writeU32Be_eq nClaims (by simp [hl]), set_eq_writeAt (by simp [hl]),
    fillLoop_getD (List.Vector.toList_length nodeId) (by simp [hl]), writeU64Be_eq round (by simp [hl]),
    set_eq_writeAt (by simp [hl]), fillLoop_getD length_commitDomainProvider (by simp [hl]),
    writeU32Be_eq 30 (by simp [hl])]
  simp only [writeFields, providerSlots, hrange, List.flatMap_cons, List.flatMap_nil, slotFields, List.cons_append,
    List.nil_append, List.foldl_cons, List.foldl_nil]
  rfl

end Noir

/-! ## The fields of the Rust preimages -/

theorem take_fill {α : Type} {n : Nat} (zero : α) {values : List α} (h : values.length ≤ n) :
    (values ++ List.replicate n zero).take n = values ++ List.replicate (n - values.length) zero := by
  rw [List.take_append, List.take_of_length_le h, List.take_replicate, Nat.min_eq_left (by omega)]

theorem toList_padded {bytes : List UInt8} (h : bytes.length ≤ 32) :
    (padded bytes).toList = bytes ++ List.replicate (32 - bytes.length) 0 :=
  take_fill 0 h

theorem toNat_length {bytes : List UInt8} (h : bytes.length ≤ 32) : (UInt32.ofNat bytes.length).toNat = bytes.length := by
  rw [UInt32.toNat_ofNat']
  omega

theorem commitDomainRequester_eq : commitDomainRequester = Noir.commitDomainRequester := by decide +kernel

theorem commitDomainProvider_eq : commitDomainProvider = Noir.commitDomainProvider := by decide +kernel

/-- The Rust fields of a requester preimage, written, are the Noir fields with the padded tag. -/
theorem writeFields_requesterFields {intent : PrivateRequesterIntent} (nonce : Bytes 32) (round : RoundId)
    (h : (asBytes intent.requiredCapability.asStr).length ≤ maxCapabilityBytes) :
    writeFields (List.replicate requesterPreimageLen 0) (requesterFields intent nonce round) =
      writeFields (List.replicate 153 0)
        (Noir.requesterSlots round intent.nodeId.bytes (padded (asBytes intent.requiredCapability.asStr))
          (UInt32.ofNat (asBytes intent.requiredCapability.asStr).length) intent.budgetCents nonce) := by
  have hm : maxCapabilityBytes = 32 := rfl
  have hlen : requesterPreimageLen = 153 := rfl
  have hfit := requesterFields_fit intent nonce round h
  rw [List.length_replicate, hlen] at hfit
  rw [hm] at h
  rw [hlen, writeFields_replicate hfit, writeFields_replicate (Noir.requesterSlots_fit ..)]
  unfold requesterFields Noir.requesterSlots
  rw [toList_padded h, toNat_length h, commitDomainRequester_eq, Noir.length_commitDomainRequester]
  refine packFields_congr [(0, beBytes 4 31), (4, Noir.commitDomainRequester), (35, [commitSchemaVersion]),
    (36, beBytes 8 round.toNat), (44, intent.nodeId.bytes.toList), (76, [0]),
    (77, beBytes 4 (asBytes intent.requiredCapability.asStr).length)] (q := 81) ?_ ?_
  · simp [FieldsFit, Noir.length_commitDomainRequester]
  · intro p hp
    refine (packFields_pad ?_).symm
    simp only [FieldsFit, beBytes_length, List.Vector.toList_length]
    omega

/-! ## Claim slots -/

/-- A claim slot: a claim with its padding, or zeros. -/
def claimSlot (idx : Nat) : Option CapabilityTag → List (Nat × List UInt8)
  | none => [(80 + idx * 36, List.replicate 4 0), (80 + idx * 36 + 4, List.replicate 32 0)]
  | some claim =>
    [(80 + idx * 36, beBytes 4 (asBytes claim.asStr).length),
      (80 + idx * 36 + 4, asBytes claim.asStr ++ List.replicate (32 - (asBytes claim.asStr).length) 0)]

/-- `k` claim slots from `idx` on: the claims, then zeros. -/
def claimSlots : Nat → Nat → List CapabilityTag → List (Nat × List UInt8)
  | 0, _, _ => []
  | k + 1, idx, [] => claimSlot idx none ++ claimSlots k (idx + 1) []
  | k + 1, idx, claim :: claims => claimSlot idx (some claim) ++ claimSlots k (idx + 1) claims

theorem claimSlots_fit {k idx pos : Nat} {claims : List CapabilityTag} {rest : List (Nat × List UInt8)}
    (hc : ∀ c ∈ claims, (asBytes c.asStr).length ≤ 32) (hp : pos ≤ 80 + idx * 36)
    (hr : FieldsFit 264 (80 + (idx + k) * 36) rest) : FieldsFit 264 pos (claimSlots k idx claims ++ rest) := by
  induction k generalizing idx pos claims with
  | zero => exact hr.mono hp
  | succ k ih =>
    have hr' : FieldsFit 264 (80 + (idx + 1 + k) * 36) rest := by
      rwa [Nat.add_right_comm idx 1 k]
    cases claims with
    | nil =>
      refine ⟨hp, Nat.le_of_eq (by rw [List.length_replicate]), ih hc ?_ hr'⟩
      rw [List.length_replicate]
      omega
    | cons c cs =>
      have hcl := hc c List.mem_cons_self
      have hcs : ∀ d ∈ cs, (asBytes d.asStr).length ≤ 32 := by
        intro d hd
        exact hc d (List.mem_cons_of_mem _ hd)
      refine ⟨hp, Nat.le_of_eq (by rw [beBytes_length]), ih hcs ?_ hr'⟩
      rw [List.length_append, List.length_replicate]
      omega

/-- Padded claims and zero slots pack as the claims do. -/
theorem packFields_claimSlots {k idx pos : Nat} {claims : List CapabilityTag} {rest : List (Nat × List UInt8)}
    (hk : claims.length ≤ k) (hc : ∀ c ∈ claims, (asBytes c.asStr).length ≤ 32) (hp : pos ≤ 80 + idx * 36)
    (hr : FieldsFit 264 (80 + (idx + k) * 36) rest) :
    packFields 264 pos (claimSlots k idx claims ++ rest) = packFields 264 pos (claimFields idx claims ++ rest) := by
  induction k generalizing idx pos claims with
  | zero =>
    obtain rfl := List.length_eq_zero_iff.mp (Nat.le_zero.mp hk)
    rfl
  | succ k ih =>
    have hr' : FieldsFit 264 (80 + (idx + 1 + k) * 36) rest := by
      rwa [Nat.add_right_comm idx 1 k]
    cases claims with
    | nil =>
      have hfit : FieldsFit 264 (80 + idx * 36 + 4 + 32) (claimSlots k (idx + 1) [] ++ rest) :=
        claimSlots_fit hc (by omega) hr'
      have hfit' : FieldsFit 264 (80 + idx * 36 + 4)
          ((80 + idx * 36 + 4, List.replicate 32 0) :: (claimSlots k (idx + 1) [] ++ rest)) :=
        ⟨Nat.le_refl _, by rwa [List.length_replicate]⟩
      have htail : packFields 264 pos (claimSlots k (idx + 1) [] ++ rest) =
          packFields 264 pos (claimFields (idx + 1) [] ++ rest) :=
        ih (Nat.zero_le k) hc (by omega) hr'
      rw [claimSlots, claimSlot, List.append_assoc, List.cons_append, List.cons_append, List.nil_append,
        packFields_zero hp hfit', packFields_zero (by omega) hfit, htail]
      rfl
    | cons c cs =>
      have hcl := hc c List.mem_cons_self
      have hcs : ∀ d ∈ cs, (asBytes d.asStr).length ≤ 32 := by
        intro d hd
        exact hc d (List.mem_cons_of_mem _ hd)
      have hfit : FieldsFit 264 (80 + idx * 36 + 4 + (asBytes c.asStr).length + (32 - (asBytes c.asStr).length))
          (claimSlots k (idx + 1) cs ++ rest) :=
        claimSlots_fit hcs (by omega) hr'
      have htail : packFields 264 (80 + idx * 36 + 4 + (asBytes c.asStr).length) (claimSlots k (idx + 1) cs ++ rest) =
          packFields 264 (80 + idx * 36 + 4 + (asBytes c.asStr).length) (claimFields (idx + 1) cs ++ rest) :=
        ih (Nat.le_of_succ_le_succ hk) hcs (by omega) hr'
      rw [claimSlots, claimSlot, claimFields, List.append_assoc, List.cons_append, List.cons_append, List.nil_append,
        List.cons_append, List.cons_append, packFields, packFields_pad hfit, packFields, htail]
      rfl

/-- Four slots with the given values first. -/
def slots {α : Type} (zero : α) (values : List α) : List.Vector α 4 := ⟨(values ++ List.replicate 4 zero).take 4, by simp⟩

theorem setSlot_slots {α : Type} {zero : α} {values : List α} (a : α) (h : values.length < 4) :
    ProviderCircuit.setSlot (slots zero values) values.length a = slots zero (values ++ [a]) := by
  have hl : (values ++ [a]).length = values.length + 1 := by rw [List.length_append, List.length_singleton]
  have hsub : 4 - values.length = 4 - (values.length + 1) + 1 := by omega
  refine List.Vector.toList_injective ?_
  change ((values ++ List.replicate 4 zero).take 4).set values.length a = (values ++ [a] ++ List.replicate 4 zero).take 4
  rw [take_fill zero (by omega), take_fill zero (by omega), List.set_append_right _ _ (Nat.le_refl _), Nat.sub_self, hl, hsub,
    List.replicate_succ, List.set_cons_zero, List.append_assoc, List.singleton_append]

/-- The claim bytes of the public inputs. -/
def claimBytesOf (claims : List CapabilityTag) : List.Vector (Bytes 32) 4 :=
  slots (List.Vector.replicate 32 0) (claims.map fun claim => padded (asBytes claim.asStr))

/-- The claim lengths of the public inputs. -/
def claimLensOf (claims : List CapabilityTag) : List.Vector UInt32 4 :=
  slots 0 (claims.map fun claim => UInt32.ofNat (asBytes claim.asStr).length)

/-- The loop over claims that fit puts them into the slots. -/
theorem fillClaims_eq {done claims : List CapabilityTag} (hn : (done ++ claims).length ≤ 4)
    (hc : ∀ c ∈ claims, (asBytes c.asStr).length ≤ maxCapabilityBytes) :
    ProviderCircuit.fillClaims done.length claims (claimBytesOf done, claimLensOf done) =
      .ok (claimBytesOf (done ++ claims), claimLensOf (done ++ claims)) := by
  induction claims generalizing done with
  | nil => rw [ProviderCircuit.fillClaims, List.append_nil]
  | cons c cs ih =>
    have hlt : done.length < 4 := by
      rw [List.length_append, List.length_cons] at hn
      omega
    have hcl := hc c List.mem_cons_self
    have hcs : ∀ d ∈ cs, (asBytes d.asStr).length ≤ maxCapabilityBytes := by
      intro d hd
      exact hc d (List.mem_cons_of_mem _ hd)
    have hbytes : ProviderCircuit.setSlot (claimBytesOf done) done.length (padded (asBytes c.asStr)) =
        claimBytesOf (done ++ [c]) := by
      unfold claimBytesOf
      rw [List.map_append, List.map_singleton, ← setSlot_slots _ (by rwa [List.length_map]), List.length_map]
    have hlens : ProviderCircuit.setSlot (claimLensOf done) done.length (UInt32.ofNat (asBytes c.asStr).length) =
        claimLensOf (done ++ [c]) := by
      unfold claimLensOf
      rw [List.map_append, List.map_singleton, ← setSlot_slots _ (by rwa [List.length_map]), List.length_map]
    have hrest := @ih (done ++ [c]) (by rwa [List.append_assoc]) hcs
    rw [List.length_append, List.length_singleton, List.append_assoc, List.singleton_append] at hrest
    rw [ProviderCircuit.fillClaims, if_neg (by omega), hbytes, hlens, hrest]

/-- A claim that is too long ends the loop with an error. -/
theorem fillClaims_ok {i : Nat} {claims : List CapabilityTag} {s s' : List.Vector (Bytes 32) 4 × List.Vector UInt32 4}
    (h : ProviderCircuit.fillClaims i claims s = .ok s') : ∀ c ∈ claims, (asBytes c.asStr).length ≤ maxCapabilityBytes := by
  induction claims generalizing i s with
  | nil =>
    intro c hc
    exact absurd hc List.not_mem_nil
  | cons d ds ih =>
    unfold ProviderCircuit.fillClaims at h
    dsimp only at h
    split at h
    · cases h
    · rename_i hd
      intro c hc
      rcases List.mem_cons.mp hc with rfl | hc
      · exact Nat.le_of_not_gt hd
      · exact ih h c hc

theorem getD_slots {α : Type} {zero : α} {values : List α} {i : Nat} (hi : i < 4) :
    (slots zero values).toList.getD i zero = (values[i]?).getD zero := by
  change ((values ++ List.replicate 4 zero).take 4).getD i zero = _
  rw [List.getD_eq_getElem?_getD, List.getElem?_take_of_lt hi]
  by_cases h : i < values.length
  · rw [List.getElem?_append_left h]
  · rw [List.getElem?_append_right (by omega), List.getElem?_replicate, List.getElem?_eq_none (by omega)]
    split
    · rfl
    · rfl

/-- A slot of the public inputs is the claim slot of its index. -/
theorem slotFields_eq {claims : List CapabilityTag} {i : Nat} (hn : claims.length ≤ 4) (hi : i < 4)
    (hc : ∀ c ∈ claims, (asBytes c.asStr).length ≤ 32) :
    Noir.slotFields (claimBytesOf claims) (claimLensOf claims) (UInt32.ofNat claims.length) i = claimSlot i claims[i]? := by
  have hactive : UInt32.ofNat i < UInt32.ofNat claims.length ↔ i < claims.length := by
    rw [UInt32.lt_iff_toNat_lt, UInt32.toNat_ofNat', UInt32.toNat_ofNat']
    omega
  unfold Noir.slotFields Noir.slotLen Noir.slotBytes claimBytesOf claimLensOf
  rw [getD_slots hi, getD_slots hi, List.getElem?_map, List.getElem?_map]
  by_cases h : i < claims.length
  · have hl := hc _ (List.getElem_mem h)
    rw [if_pos (hactive.mpr h), if_pos (hactive.mpr h), List.getElem?_eq_getElem h, Option.map_some, Option.map_some,
      Option.getD_some, Option.getD_some, toList_padded hl, toNat_length hl]
    rfl
  · rw [if_neg (mt hactive.mp h), if_neg (mt hactive.mp h), List.getElem?_eq_none (Nat.le_of_not_lt h)]
    rfl

/-- The slots of the public inputs are the claim slots. -/
theorem slotFields_claims {claims : List CapabilityTag} (hn : claims.length ≤ 4)
    (hc : ∀ c ∈ claims, (asBytes c.asStr).length ≤ 32) :
    (List.range 4).flatMap (Noir.slotFields (claimBytesOf claims) (claimLensOf claims) (UInt32.ofNat claims.length)) =
      claimSlots 4 0 claims := by
  have hrange : List.range 4 = [0, 1, 2, 3] := rfl
  rw [hrange]
  simp only [List.flatMap_cons, List.flatMap_nil, slotFields_eq hn (show 0 < 4 by decide) hc,
    slotFields_eq hn (show 1 < 4 by decide) hc, slotFields_eq hn (show 2 < 4 by decide) hc,
    slotFields_eq hn (show 3 < 4 by decide) hc]
  rcases claims with _ | ⟨a, _ | ⟨b, _ | ⟨c, _ | ⟨d, rest⟩⟩⟩⟩
  all_goals rfl

/-- The Rust fields of a provider preimage, written, are the Noir fields of the padded claims. -/
theorem writeFields_providerFields {intent : PrivateProviderIntent} (nonce : Bytes 32) (round : RoundId)
    (hn : intent.capabilityClaims.length ≤ maxCapabilityClaims)
    (hc : ∀ c ∈ intent.capabilityClaims, (asBytes c.asStr).length ≤ maxCapabilityBytes) :
    writeFields (List.replicate providerPreimageLen 0) (providerFields intent nonce round) =
      writeFields (List.replicate 264 0)
        (Noir.providerSlots round intent.nodeId.bytes (claimBytesOf intent.capabilityClaims)
          (claimLensOf intent.capabilityClaims) (UInt32.ofNat intent.capabilityClaims.length) intent.reservationCents nonce) := by
  have hm : maxCapabilityBytes = 32 := rfl
  have hk : maxCapabilityClaims = 4 := rfl
  have hlen : providerPreimageLen = 264 := rfl
  have hfit := providerFields_fit intent nonce round hn hc
  rw [List.length_replicate, hlen] at hfit
  rw [hk] at hn
  rw [hm] at hc
  have hcount : (UInt32.ofNat intent.capabilityClaims.length).toNat = intent.capabilityClaims.length := by
    rw [UInt32.toNat_ofNat']
    omega
  rw [hlen, writeFields_replicate hfit, writeFields_replicate (Noir.providerSlots_fit ..)]
  unfold providerFields Noir.providerSlots
  rw [slotFields_claims hn hc, hcount, commitDomainProvider_eq, Noir.length_commitDomainProvider, List.append_assoc,
    List.append_assoc]
  refine packFields_congr _ (q := 80) ?_ ?_
  · simp [FieldsFit, Noir.length_commitDomainProvider]
  · intro p hp
    refine (packFields_claimSlots hn hc hp ?_).symm
    simp [FieldsFit]

/-! ## Builders and bridge -/

theorem buildRequesterPreimage_eq_ok {intent : PrivateRequesterIntent} {nonce : Bytes 32} {round : RoundId} {p : List UInt8} :
    buildRequesterPreimage intent nonce round = .ok p ↔
      asBytes intent.requiredCapability.asStr ≠ [] ∧
      (asBytes intent.requiredCapability.asStr).length ≤ maxCapabilityBytes ∧
      p = writeFields (List.replicate requesterPreimageLen 0) (requesterFields intent nonce round) := by
  unfold buildRequesterPreimage
  dsimp only
  split
  · rename_i hempty
    simp [hempty]
  · rename_i hne
    split
    · rename_i hl
      simp [Nat.not_le.mpr hl]
    · rename_i hl
      rw [Except.ok.injEq, eq_comm]
      exact ⟨fun h => ⟨hne, Nat.le_of_not_gt hl, h⟩, fun h => h.2.2⟩

theorem checkClaims_eq_ok {claims : List CapabilityTag} :
    checkClaims claims = .ok () ↔
      ∀ c ∈ claims, asBytes c.asStr ≠ [] ∧ (asBytes c.asStr).length ≤ maxCapabilityBytes := by
  induction claims with
  | nil => simp [checkClaims]
  | cons c cs ih =>
    rw [List.forall_mem_cons, ← ih]
    simp only [checkClaims]
    split
    · rename_i hempty
      simp [hempty]
    · rename_i hne
      split
      · rename_i hl
        simp [Nat.not_le.mpr hl]
      · rename_i hl
        simp [hne, Nat.le_of_not_gt hl]

theorem buildProviderPreimage_eq_ok {intent : PrivateProviderIntent} {nonce : Bytes 32} {round : RoundId} {p : List UInt8} :
    buildProviderPreimage intent nonce round = .ok p ↔
      intent.capabilityClaims ≠ [] ∧ intent.capabilityClaims.length ≤ maxCapabilityClaims ∧
      (∀ c ∈ intent.capabilityClaims, asBytes c.asStr ≠ [] ∧ (asBytes c.asStr).length ≤ maxCapabilityBytes) ∧
      p = writeFields (List.replicate providerPreimageLen 0) (providerFields intent nonce round) := by
  rw [← checkClaims_eq_ok]
  unfold buildProviderPreimage
  split
  · rename_i hempty
    simp [hempty]
  · rename_i hne
    split
    · rename_i hl
      simp [Nat.not_le.mpr hl]
    · rename_i hl
      cases hc : checkClaims intent.capabilityClaims with
      | error e => simp
      | ok u =>
        rw [Except.ok.injEq, eq_comm]
        exact ⟨fun h => ⟨hne, Nat.le_of_not_gt hl, rfl, h⟩, fun h => h.2.2.2⟩

/-- The public inputs of a requester's intent against a commitment. -/
def RequesterCircuit.inputs (intent : PrivateRequesterIntent) (commit : Bytes 32) (round : RoundId) (threshold : UInt64) :
    RequesterPublicInputs where
  round := round
  nodeId := intent.nodeId.bytes
  commitmentHash := commit
  requiredCapability := padded (asBytes intent.requiredCapability.asStr)
  capabilityLen := UInt32.ofNat (asBytes intent.requiredCapability.asStr).length
  threshold := threshold

/-- The public inputs of a provider's intent against a commitment. -/
def ProviderCircuit.inputs (intent : PrivateProviderIntent) (commit : Bytes 32) (round : RoundId) (threshold : UInt64) :
    ProviderPublicInputs where
  round := round
  nodeId := intent.nodeId.bytes
  commitmentHash := commit
  claimBytes := claimBytesOf intent.capabilityClaims
  claimLens := claimLensOf intent.capabilityClaims
  nClaims := UInt32.ofNat intent.capabilityClaims.length
  threshold := threshold

theorem RequesterCircuit.publicInputsFromIntent_eq_ok {Γ : Crypto} {intent : PrivateRequesterIntent} {nonce : Bytes 32}
    {round : RoundId} {threshold : UInt64} {out : RequesterPublicInputs × Bytes 32} :
    publicInputsFromIntent Γ intent nonce round threshold = .ok out ↔
      ∃ p, buildRequesterPreimage intent nonce round = .ok p ∧
        out = (inputs intent (Γ.blake2s256 p) round threshold, Γ.blake2s256 p) := by
  unfold publicInputsFromIntent
  dsimp only
  split
  · rename_i hl
    refine ⟨by simp, ?_⟩
    rintro ⟨p, hp, -⟩
    exact absurd (buildRequesterPreimage_eq_ok.mp hp).2.1 (Nat.not_le.mpr hl)
  · cases buildRequesterPreimage intent nonce round with
    | error e => simp
    | ok p => simp [inputs, eq_comm]

theorem ProviderCircuit.publicInputsFromIntent_eq_ok {Γ : Crypto} {intent : PrivateProviderIntent} {nonce : Bytes 32}
    {round : RoundId} {threshold : UInt64} {out : ProviderPublicInputs × Bytes 32} :
    publicInputsFromIntent Γ intent nonce round threshold = .ok out ↔
      ∃ p, buildProviderPreimage intent nonce round = .ok p ∧
        out = (inputs intent (Γ.blake2s256 p) round threshold, Γ.blake2s256 p) := by
  have hempty : (claimBytesOf [], claimLensOf []) =
      (List.Vector.replicate 4 (List.Vector.replicate 32 0), List.Vector.replicate 4 0) := rfl
  unfold publicInputsFromIntent
  split
  · rename_i hl
    refine ⟨by simp, ?_⟩
    rintro ⟨p, hp, -⟩
    exact absurd (buildProviderPreimage_eq_ok.mp hp).2.1 (Nat.not_le.mpr hl)
  · rename_i hl
    rw [← hempty]
    by_cases hc : ∀ c ∈ intent.capabilityClaims, (asBytes c.asStr).length ≤ maxCapabilityBytes
    · have hfill := @fillClaims_eq [] intent.capabilityClaims (Nat.le_of_not_gt hl) hc
      rw [List.length_nil, List.nil_append] at hfill
      rw [hfill]
      cases buildProviderPreimage intent nonce round with
      | error e => simp
      | ok p => simp [inputs, eq_comm]
    · cases hfill : fillClaims 0 intent.capabilityClaims (claimBytesOf [], claimLensOf []) with
      | ok s => exact absurd (fillClaims_ok hfill) hc
      | error e =>
        refine ⟨by simp, ?_⟩
        rintro ⟨p, hp, -⟩
        refine absurd ?_ hc
        intro c hcm
        exact ((buildProviderPreimage_eq_ok.mp hp).2.2.1 c hcm).2

/-! ## Acceptance -/

section

variable {Γ : Crypto}

theorem buildRequesterPreimage_noir {intent : PrivateRequesterIntent} {nonce : Bytes 32} {round : RoundId} {p : List UInt8}
    (h : buildRequesterPreimage intent nonce round = .ok p) (commit : Bytes 32) (threshold : UInt64) :
    p = Noir.requesterPreimage (RequesterCircuit.inputs intent commit round threshold) ⟨intent.budgetCents, nonce⟩ := by
  obtain ⟨-, hl, rfl⟩ := buildRequesterPreimage_eq_ok.mp h
  rw [writeFields_requesterFields nonce round hl, ← Noir.buildRequesterPreimage_eq]
  rfl

theorem buildProviderPreimage_noir {intent : PrivateProviderIntent} {nonce : Bytes 32} {round : RoundId} {p : List UInt8}
    (h : buildProviderPreimage intent nonce round = .ok p) (commit : Bytes 32) (threshold : UInt64) :
    p = Noir.providerPreimage (ProviderCircuit.inputs intent commit round threshold) ⟨intent.reservationCents, nonce⟩ := by
  obtain ⟨-, hn, hc, rfl⟩ := buildProviderPreimage_eq_ok.mp h
  rw [writeFields_providerFields nonce round hn (fun c hm => (hc c hm).2), ← Noir.buildProviderPreimage_eq]
  rfl

namespace Noir

theorem requesterMain_iff {pub : RequesterPublicInputs} {wit : RequesterWitness} : requesterMain Γ pub wit = true ↔
    0 < pub.capabilityLen ∧ pub.capabilityLen ≤ maxCapabilityBytes ∧ pub.threshold ≤ wit.budgetCents ∧
      Γ.blake2s256 (requesterPreimage pub wit) = pub.commitmentHash := by
  simp only [requesterMain, Bool.and_eq_true, decide_eq_true_eq, assertDigest_iff, and_assoc, gt_iff_lt, ge_iff_le]

theorem providerMain_iff {pub : ProviderPublicInputs} {wit : ProviderWitness} : providerMain Γ pub wit = true ↔
    0 < pub.nClaims ∧ pub.nClaims ≤ maxCapabilityClaims ∧ (∀ i < 4, assertSlot pub i = true) ∧
      wit.reservationCents ≤ pub.threshold ∧ Γ.blake2s256 (providerPreimage pub wit) = pub.commitmentHash := by
  simp only [providerMain, Bool.and_eq_true, decide_eq_true_eq, assertDigest_iff, and_assoc, gt_iff_lt, List.all_eq_true,
    List.mem_range]

end Noir

/-- The requester circuit on the public inputs of an intent. -/
theorem RequesterCircuit.accepts_inputs {intent : PrivateRequesterIntent} {nonce : Bytes 32} {round : RoundId}
    {p : List UInt8} (h : buildRequesterPreimage intent nonce round = .ok p) (commit : Bytes 32) (threshold : UInt64) :
    Noir.requesterMain Γ (inputs intent commit round threshold) ⟨intent.budgetCents, nonce⟩ = true ↔
      threshold ≤ intent.budgetCents ∧ Γ.blake2s256 p = commit := by
  obtain ⟨hne, hl, -⟩ := buildRequesterPreimage_eq_ok.mp h
  have hnat := toNat_length hl
  have hpos := List.length_pos_of_ne_nil hne
  have hshape : 0 < (inputs intent commit round threshold).capabilityLen ∧
      (inputs intent commit round threshold).capabilityLen ≤ Noir.maxCapabilityBytes := by
    change 0 < UInt32.ofNat _ ∧ UInt32.ofNat _ ≤ (32 : UInt32)
    rw [UInt32.lt_iff_toNat_lt, UInt32.le_iff_toNat_le, hnat]
    exact ⟨hpos, hl⟩
  rw [Noir.requesterMain_iff, ← buildRequesterPreimage_noir h]
  exact ⟨fun hacc => hacc.2.2, fun hacc => ⟨hshape.1, hshape.2, hacc⟩⟩

theorem toNat_count {claims : List CapabilityTag} (h : claims.length ≤ maxCapabilityClaims) :
    (UInt32.ofNat claims.length).toNat = claims.length := by
  have hk : maxCapabilityClaims = 4 := rfl
  rw [UInt32.toNat_ofNat']
  omega

theorem active_iff {claims : List CapabilityTag} {i : Nat} (h : claims.length ≤ maxCapabilityClaims) (hi : i < 4) :
    UInt32.ofNat i < UInt32.ofNat claims.length ↔ i < claims.length := by
  rw [UInt32.lt_iff_toNat_lt, toNat_count h, UInt32.toNat_ofNat']
  omega

/-- The provider circuit on the public inputs of an intent. -/
theorem ProviderCircuit.accepts_inputs {intent : PrivateProviderIntent} {nonce : Bytes 32} {round : RoundId}
    {p : List UInt8} (h : buildProviderPreimage intent nonce round = .ok p) (commit : Bytes 32) (threshold : UInt64) :
    Noir.providerMain Γ (inputs intent commit round threshold) ⟨intent.reservationCents, nonce⟩ = true ↔
      intent.reservationCents ≤ threshold ∧ Γ.blake2s256 p = commit := by
  obtain ⟨hne, hn, hc, -⟩ := buildProviderPreimage_eq_ok.mp h
  have hpos := List.length_pos_of_ne_nil hne
  have hcount : 0 < UInt32.ofNat intent.capabilityClaims.length ∧
      UInt32.ofNat intent.capabilityClaims.length ≤ Noir.maxCapabilityClaims := by
    change _ ∧ _ ≤ (4 : UInt32)
    rw [UInt32.lt_iff_toNat_lt, UInt32.le_iff_toNat_le, toNat_count hn]
    exact ⟨hpos, hn⟩
  have hslots : ∀ i < 4, Noir.assertSlot (inputs intent commit round threshold) i = true := by
    intro i hi
    have hlen : (claimLensOf intent.capabilityClaims).toList.getD i 0 =
        ((intent.capabilityClaims[i]?).map fun claim => UInt32.ofNat (asBytes claim.asStr).length).getD 0 := by
      rw [claimLensOf, getD_slots hi, List.getElem?_map]
    unfold Noir.assertSlot inputs
    dsimp only
    rw [hlen]
    by_cases hi' : i < intent.capabilityClaims.length
    · obtain ⟨hne', hl⟩ := hc _ (List.getElem_mem hi')
      have hnat := toNat_length hl
      have hpos' := List.length_pos_of_ne_nil hne'
      rw [if_pos ((active_iff hn hi).mpr hi'), List.getElem?_eq_getElem hi', Option.map_some, Option.getD_some]
      change (decide (0 < UInt32.ofNat _) && decide (UInt32.ofNat _ ≤ (32 : UInt32))) = true
      rw [Bool.and_eq_true, decide_eq_true_eq, decide_eq_true_eq, UInt32.lt_iff_toNat_lt, UInt32.le_iff_toNat_le, hnat]
      exact ⟨hpos', hl⟩
    · rw [if_neg (mt (active_iff hn hi).mp hi'), List.getElem?_eq_none (Nat.le_of_not_lt hi')]
      rfl
  rw [Noir.providerMain_iff, ← buildProviderPreimage_noir h]
  exact ⟨fun hacc => hacc.2.2.2, fun hacc => ⟨hcount.1, hcount.2, hslots, hacc⟩⟩

/-! ## What a preimage determines -/

theorem u32_ext_bytes {a b : UInt32} (h : beBytes 4 a.toNat = beBytes 4 b.toNat) : a = b :=
  UInt32.toNat_inj.mp (beBytes_inj a.toNat_lt b.toNat_lt h)

namespace Noir

/-- A requester preimage determines everything but threshold and published commitment. -/
theorem requesterPreimage_inj {pub pub' : RequesterPublicInputs} {wit wit' : RequesterWitness}
    (h : requesterPreimage pub wit = requesterPreimage pub' wit') :
    pub.round = pub'.round ∧ pub.nodeId = pub'.nodeId ∧ pub.capabilityLen = pub'.capabilityLen ∧
      pub.requiredCapability = pub'.requiredCapability ∧ wit.budgetCents = wit'.budgetCents ∧ wit.nonce = wit'.nonce := by
  have hfit : ∀ (p : RequesterPublicInputs) (w : RequesterWitness), FieldsFit (List.replicate 153 (0 : UInt8)).length 0
      (requesterSlots p.round p.nodeId p.requiredCapability p.capabilityLen w.budgetCents w.nonce) := by
    intro p w
    rw [List.length_replicate]
    exact requesterSlots_fit ..
  unfold requesterPreimage at h
  rw [buildRequesterPreimage_eq, buildRequesterPreimage_eq] at h
  have hfields := writeFields_inj (hfit pub wit) (hfit pub' wit') (by simp [requesterSlots]) h
  simp only [requesterSlots, List.cons.injEq, Prod.mk.injEq, true_and, and_true] at hfields
  obtain ⟨hround, hnode, hlen, hcap, hbudget, hnonce⟩ := hfields
  exact ⟨RoundId.ext_bytes hround, List.Vector.toList_injective hnode, u32_ext_bytes hlen,
    List.Vector.toList_injective hcap, RoundId.ext_bytes hbudget, List.Vector.toList_injective hnonce⟩

/-- A provider preimage determines everything but threshold, published commitment and what stands in the inactive slots. -/
theorem providerPreimage_inj {pub pub' : ProviderPublicInputs} {wit wit' : ProviderWitness}
    (h : providerPreimage pub wit = providerPreimage pub' wit') :
    pub.round = pub'.round ∧ pub.nodeId = pub'.nodeId ∧ pub.nClaims = pub'.nClaims ∧
      (∀ i < 4, slotLen pub.claimLens pub.nClaims i = slotLen pub'.claimLens pub'.nClaims i ∧
        slotBytes pub.claimBytes pub.nClaims i = slotBytes pub'.claimBytes pub'.nClaims i) ∧
      wit.reservationCents = wit'.reservationCents ∧ wit.nonce = wit'.nonce := by
  have hfit : ∀ (p : ProviderPublicInputs) (w : ProviderWitness), FieldsFit (List.replicate 264 (0 : UInt8)).length 0
      (providerSlots p.round p.nodeId p.claimBytes p.claimLens p.nClaims w.reservationCents w.nonce) := by
    intro p w
    rw [List.length_replicate]
    exact providerSlots_fit ..
  have hrange : List.range 4 = [0, 1, 2, 3] := rfl
  unfold providerPreimage at h
  rw [buildProviderPreimage_eq, buildProviderPreimage_eq] at h
  have hfields := writeFields_inj (hfit pub wit) (hfit pub' wit') (by simp [providerSlots, slotFields, hrange]) h
  simp only [providerSlots, slotFields, hrange, List.flatMap_cons, List.flatMap_nil, List.cons_append, List.nil_append,
    List.cons.injEq, Prod.mk.injEq, true_and, and_true] at hfields
  obtain ⟨hround, hnode, hcount, hl0, hb0, hl1, hb1, hl2, hb2, hl3, hb3, hprice, hnonce⟩ := hfields
  refine ⟨RoundId.ext_bytes hround, List.Vector.toList_injective hnode, u32_ext_bytes hcount, ?_,
    RoundId.ext_bytes hprice, List.Vector.toList_injective hnonce⟩
  intro i hi
  match i, hi with
  | 0, _ => exact ⟨u32_ext_bytes hl0, List.Vector.toList_injective hb0⟩
  | 1, _ => exact ⟨u32_ext_bytes hl1, List.Vector.toList_injective hb1⟩
  | 2, _ => exact ⟨u32_ext_bytes hl2, List.Vector.toList_injective hb2⟩
  | 3, _ => exact ⟨u32_ext_bytes hl3, List.Vector.toList_injective hb3⟩

theorem length_requesterPreimage (pub : RequesterPublicInputs) (wit : RequesterWitness) :
    (requesterPreimage pub wit).length = 153 := by
  have hfit : FieldsFit (List.replicate 153 (0 : UInt8)).length 0 (requesterSlots pub.round pub.nodeId
      pub.requiredCapability pub.capabilityLen wit.budgetCents wit.nonce) := by
    rw [List.length_replicate]
    exact requesterSlots_fit ..
  unfold requesterPreimage
  rw [buildRequesterPreimage_eq, writeFields_length hfit, List.length_replicate]

theorem length_providerPreimage (pub : ProviderPublicInputs) (wit : ProviderWitness) :
    (providerPreimage pub wit).length = 264 := by
  have hfit : FieldsFit (List.replicate 264 (0 : UInt8)).length 0 (providerSlots pub.round pub.nodeId
      pub.claimBytes pub.claimLens pub.nClaims wit.reservationCents wit.nonce) := by
    rw [List.length_replicate]
    exact providerSlots_fit ..
  unfold providerPreimage
  rw [buildProviderPreimage_eq, writeFields_length hfit, List.length_replicate]

end Noir

end

end VertexVeil
