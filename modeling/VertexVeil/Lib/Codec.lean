import Mathlib.Data.Vector.Basic

/-!
# Byte strings: big-endian numbers, hexadecimal text, writes at an offset

A byte string is a list of bytes and a text a list of characters, so that both compute in proofs. Three codecs:
a number in `k` bytes, most significant first (`beBytes`, `ofBE`); bytes as hexadecimal text, written in lower case
and read in either case (`hexEncode`, `hexDecode`); and a fixed buffer that fields are written into at offsets
(`writeAt`, `sliceAt`). Nothing here knows what the bytes mean.
-/

namespace Codec

/-- A byte string of fixed length. -/
abbrev Bytes (n : Nat) : Type := List.Vector UInt8 n

/-- Text, as its characters. -/
abbrev Text : Type := List Char

/-! ## Big-endian numbers -/

/-- The low `8 * k` bits of `n` in `k` bytes, most significant byte first. -/
def beBytes : Nat → Nat → List UInt8
  | 0, _ => []
  | k + 1, n => UInt8.ofNat (n / 256 ^ k) :: beBytes k n

/-- The number a byte string spells, most significant byte first. -/
def ofBE : List UInt8 → Nat
  | [] => 0
  | b :: bs => b.toNat * 256 ^ bs.length + ofBE bs

@[simp] theorem beBytes_length (k n : Nat) : (beBytes k n).length = k := by
  induction k with
  | zero => rfl
  | succ k ih => simp [beBytes, ih]

/-- Writing a number in `k` bytes and reading it back gives its low `8 * k` bits. -/
theorem ofBE_beBytes (k n : Nat) : ofBE (beBytes k n) = n % 256 ^ k := by
  induction k with
  | zero => simp [beBytes, ofBE, Nat.mod_one]
  | succ k ih =>
    have hb : (UInt8.ofNat (n / 256 ^ k)).toNat = n / 256 ^ k % 256 := UInt8.toNat_ofNat'
    rw [beBytes, ofBE, beBytes_length, ih, hb, pow_succ, Nat.mod_mul, Nat.mul_comm, Nat.add_comm]

/-- A number that fits is read back unchanged. -/
theorem ofBE_beBytes_of_lt {k n : Nat} (h : n < 256 ^ k) : ofBE (beBytes k n) = n := by
  rw [ofBE_beBytes, Nat.mod_eq_of_lt h]

/-- A byte string spells a number below `256 ^ length`. -/
theorem ofBE_lt (bs : List UInt8) : ofBE bs < 256 ^ bs.length := by
  induction bs with
  | nil => simp [ofBE]
  | cons b bs ih =>
    have hb : b.toNat ≤ 255 := Nat.le_of_lt_succ b.toNat_lt
    have hm : b.toNat * 256 ^ bs.length ≤ 255 * 256 ^ bs.length := Nat.mul_le_mul_right _ hb
    simp only [ofBE, List.length_cons, pow_succ]
    omega

/-- The bytes of `n` are the bytes of its low part: what lies above `k` bytes is cut off. -/
theorem beBytes_mod (k n m : Nat) (h : k ≤ m) : beBytes k (n % 256 ^ m) = beBytes k n := by
  induction k with
  | zero => rfl
  | succ k ih =>
    have hk : k < m := h
    simp only [beBytes, ih hk.le, List.cons.injEq, and_true]
    have hd : 256 ^ m = 256 ^ k * (256 * 256 ^ (m - k - 1)) := by
      rw [← pow_succ', ← pow_add]
      congr 1
      omega
    apply UInt8.toNat_inj.1
    simp only [UInt8.toNat_ofNat']
    rw [hd, Nat.mod_mul_right_div_self, Nat.mod_mul_right_mod]

/-- Reading a byte string and writing it back in as many bytes gives the byte string. -/
theorem beBytes_ofBE (bs : List UInt8) : beBytes bs.length (ofBE bs) = bs := by
  induction bs with
  | nil => rfl
  | cons b bs ih =>
    have hlt := ofBE_lt bs
    have hpos : 0 < 256 ^ bs.length := Nat.pow_pos (by decide)
    simp only [List.length_cons, beBytes, ofBE, List.cons.injEq]
    constructor
    · rw [Nat.mul_comm, Nat.mul_add_div hpos, Nat.div_eq_of_lt hlt, Nat.add_zero]
      exact UInt8.ofNat_toNat
    · rw [← beBytes_mod _ _ _ (Nat.le_refl _), Nat.mul_comm, Nat.mul_add_mod, Nat.mod_eq_of_lt hlt]
      exact ih

/-- Two numbers that fit have the same bytes only if they are the same. -/
theorem beBytes_inj {k n m : Nat} (hn : n < 256 ^ k) (hm : m < 256 ^ k) (h : beBytes k n = beBytes k m) : n = m := by
  rw [← ofBE_beBytes_of_lt hn, h, ofBE_beBytes_of_lt hm]

/-! ## Hexadecimal text -/

/-- The lower-case digit of a number below sixteen. -/
def hexDigit (n : Nat) : Char :=
  if n < 10 then Char.ofNat (48 + n) else Char.ofNat (87 + n)

/-- Bytes as lower-case hexadecimal text, two digits a byte. -/
def hexEncode : List UInt8 → Text
  | [] => []
  | b :: bs => hexDigit (b.toNat / 16) :: hexDigit (b.toNat % 16) :: hexEncode bs

/-- The value of a hexadecimal digit, in either case. -/
def hexVal (c : Char) : Option Nat :=
  if 48 ≤ c.toNat ∧ c.toNat ≤ 57 then some (c.toNat - 48)
  else if 97 ≤ c.toNat ∧ c.toNat ≤ 102 then some (c.toNat - 87)
  else if 65 ≤ c.toNat ∧ c.toNat ≤ 70 then some (c.toNat - 55)
  else none

/-- The bytes a hexadecimal text spells; nothing for an odd length or a character that is no digit. -/
def hexDecode : Text → Option (List UInt8)
  | [] => some []
  | [_] => none
  | a :: b :: rest =>
    match hexVal a, hexVal b, hexDecode rest with
    | some x, some y, some bs => some (UInt8.ofNat (16 * x + y) :: bs)
    | _, _, _ => none

/-- The sixteen digits read back as their values. -/
theorem hexVal_hexDigit {n : Nat} (h : n < 16) : hexVal (hexDigit n) = some n := by
  have : ∀ m : Fin 16, hexVal (hexDigit m) = some m.val := by decide
  exact this ⟨n, h⟩

/-- Encoded bytes decode to themselves. -/
@[simp] theorem hexDecode_hexEncode (bs : List UInt8) : hexDecode (hexEncode bs) = some bs := by
  induction bs with
  | nil => rfl
  | cons b bs ih =>
    have hb := b.toNat_lt
    have hn : 16 * (b.toNat / 16) + b.toNat % 16 = b.toNat := Nat.div_add_mod _ _
    simp only [hexEncode, hexDecode, hexVal_hexDigit (show b.toNat / 16 < 16 by omega),
      hexVal_hexDigit (show b.toNat % 16 < 16 by omega), ih, hn, UInt8.ofNat_toNat]

/-- The encoding is injective. -/
theorem hexEncode_inj {a b : List UInt8} (h : hexEncode a = hexEncode b) : a = b := by
  have ha := hexDecode_hexEncode a
  rw [h, hexDecode_hexEncode] at ha
  exact (Option.some.inj ha).symm

@[simp] theorem hexEncode_length (bs : List UInt8) : (hexEncode bs).length = 2 * bs.length := by
  induction bs with
  | nil => rfl
  | cons b bs ih =>
    simp only [hexEncode, List.length_cons, ih]
    omega

/-! ## Fields in a fixed buffer -/

/-- Overwrite the bytes of `buf` from `off` on with `bytes`. -/
def writeAt (buf : List UInt8) (off : Nat) (bytes : List UInt8) : List UInt8 :=
  buf.take off ++ bytes ++ buf.drop (off + bytes.length)

/-- The `len` bytes of `buf` from `off` on. -/
def sliceAt (buf : List UInt8) (off len : Nat) : List UInt8 :=
  (buf.drop off).take len

theorem sliceAt_length {buf : List UInt8} {off len : Nat} (h : off + len ≤ buf.length) :
    (sliceAt buf off len).length = len := by
  simp only [sliceAt, List.length_take, List.length_drop]
  omega

/-- A write inside a buffer keeps its length. -/
theorem writeAt_length {buf : List UInt8} {off : Nat} {bytes : List UInt8} (h : off + bytes.length ≤ buf.length) :
    (writeAt buf off bytes).length = buf.length := by
  simp only [writeAt, List.length_append, List.length_take, List.length_drop]
  omega

/-- A field just written reads back. -/
theorem sliceAt_writeAt_self {buf : List UInt8} {off : Nat} {bytes : List UInt8} (h : off + bytes.length ≤ buf.length) :
    sliceAt (writeAt buf off bytes) off bytes.length = bytes := by
  have hl : (buf.take off).length = off := by simp only [List.length_take]; omega
  rw [sliceAt, writeAt, List.append_assoc, List.drop_left' hl, List.take_left]

/-- A write after a field leaves the field. -/
theorem sliceAt_writeAt_after {buf : List UInt8} {off o len : Nat} {bytes : List UInt8} (hb : off ≤ buf.length)
    (h : o + len ≤ off) : sliceAt (writeAt buf off bytes) o len = sliceAt buf o len := by
  have hl : (buf.take off).length = off := by simp only [List.length_take]; omega
  rw [sliceAt, writeAt, List.append_assoc, List.drop_append_of_le_length (by omega),
    List.take_append_of_le_length (by rw [List.length_drop]; omega), List.drop_take, List.take_take, sliceAt]
  congr 1
  omega

/-- Write a list of fields, each at its offset, in order. -/
def writeFields (buf : List UInt8) (fields : List (Nat × List UInt8)) : List UInt8 :=
  fields.foldl (fun b f => writeAt b f.1 f.2) buf

/-- The fields lie one after the other, from `pos` on, inside a buffer of `len` bytes. -/
def FieldsFit (len : Nat) : Nat → List (Nat × List UInt8) → Prop
  | pos, [] => pos ≤ len
  | pos, f :: fs => pos ≤ f.1 ∧ FieldsFit len (f.1 + f.2.length) fs

theorem FieldsFit.le {len pos : Nat} {fields : List (Nat × List UInt8)} (h : FieldsFit len pos fields) : pos ≤ len := by
  induction fields generalizing pos with
  | nil => exact h
  | cons f fs ih =>
    have := ih h.2
    have := h.1
    omega

theorem FieldsFit.mono {len pos pos' : Nat} {fields : List (Nat × List UInt8)} (h : FieldsFit len pos fields)
    (hle : pos' ≤ pos) : FieldsFit len pos' fields := by
  cases fields with
  | nil => exact hle.trans h
  | cons f fs => exact ⟨hle.trans h.1, h.2⟩

/-- Fields that fit leave the length of the buffer. -/
theorem writeFields_length {buf : List UInt8} {pos : Nat} {fields : List (Nat × List UInt8)}
    (h : FieldsFit buf.length pos fields) : (writeFields buf fields).length = buf.length := by
  induction fields generalizing buf pos with
  | nil => rfl
  | cons f fs ih =>
    have hl : (writeAt buf f.1 f.2).length = buf.length := writeAt_length h.2.le
    rw [writeFields, List.foldl_cons]
    have hfit : FieldsFit (writeAt buf f.1 f.2).length (f.1 + f.2.length) fs := by
      rw [hl]
      exact h.2
    have := ih hfit
    rw [writeFields] at this
    rw [this, hl]

/-- Fields that fit from `pos` on leave what lies before `pos`. -/
theorem sliceAt_writeFields_before {buf : List UInt8} {pos o len : Nat} {fields : List (Nat × List UInt8)}
    (h : FieldsFit buf.length pos fields) (ho : o + len ≤ pos) :
    sliceAt (writeFields buf fields) o len = sliceAt buf o len := by
  induction fields generalizing buf pos with
  | nil => rfl
  | cons f fs ih =>
    have hl : (writeAt buf f.1 f.2).length = buf.length := writeAt_length h.2.le
    have hle := h.2.le
    have h1 := h.1
    have hfit : FieldsFit (writeAt buf f.1 f.2).length (f.1 + f.2.length) fs := by
      rw [hl]
      exact h.2
    have := ih hfit (by omega)
    rw [writeFields, List.foldl_cons]
    rw [writeFields] at this
    rw [this, sliceAt_writeAt_after (by omega) (by omega)]

/-- Fields that fit all read back. -/
theorem sliceAt_writeFields {buf : List UInt8} {pos : Nat} {fields : List (Nat × List UInt8)}
    (h : FieldsFit buf.length pos fields) :
    ∀ f ∈ fields, sliceAt (writeFields buf fields) f.1 f.2.length = f.2 := by
  induction fields generalizing buf pos with
  | nil => intro f hf; exact absurd hf List.not_mem_nil
  | cons g fs ih =>
    have hl : (writeAt buf g.1 g.2).length = buf.length := writeAt_length h.2.le
    have hfit : FieldsFit (writeAt buf g.1 g.2).length (g.1 + g.2.length) fs := by rw [hl]; exact h.2
    intro f hf
    rcases List.mem_cons.mp hf with rfl | hf
    · have := sliceAt_writeFields_before hfit (Nat.le_refl _)
      rw [writeFields] at this
      rw [writeFields, List.foldl_cons, this, sliceAt_writeAt_self h.2.le]
    · have := ih hfit f hf
      rw [writeFields] at this
      rw [writeFields, List.foldl_cons, this]

/-- A buffer that reads back two byte strings of one length at one offset reads back the same one. -/
theorem eq_of_sliceAt {buf a b : List UInt8} {off : Nat} (hl : a.length = b.length) (ha : sliceAt buf off a.length = a)
    (hb : sliceAt buf off b.length = b) : a = b := by
  rw [← ha, hl, hb]

/-- Two lists of fields of the same shape that fit give the same buffer only if they are the same. -/
theorem writeFields_inj {buf : List UInt8} {pos : Nat} {fields fields' : List (Nat × List UInt8)}
    (h : FieldsFit buf.length pos fields) (h' : FieldsFit buf.length pos fields')
    (hshape : fields.map (fun f => (f.1, f.2.length)) = fields'.map (fun f => (f.1, f.2.length)))
    (he : writeFields buf fields = writeFields buf fields') : fields = fields' := by
  have hlen : fields.length = fields'.length := by simpa using congrArg List.length hshape
  refine List.ext_getElem hlen ?_
  intro i hi hi'
  have hi₂ := congrArg (·[i]?) hshape
  simp only [List.getElem?_map, List.getElem?_eq_getElem hi, List.getElem?_eq_getElem hi', Option.map_some,
    Option.some.injEq, Prod.mk.injEq] at hi₂
  have hread := sliceAt_writeFields h _ (List.getElem_mem hi)
  rw [he, hi₂.1, hi₂.2, sliceAt_writeFields h' _ (List.getElem_mem hi')] at hread
  exact Prod.ext hi₂.1 hread.symm

/-! ## Fields in a zeroed buffer -/

/-- The bytes from `pos` to `len`: each field at its offset, zeros before, between and after. -/
def packFields (len : Nat) : Nat → List (Nat × List UInt8) → List UInt8
  | pos, [] => List.replicate (len - pos) 0
  | pos, f :: fs => List.replicate (f.1 - pos) 0 ++ f.2 ++ packFields len (f.1 + f.2.length) fs

/-- Fields that fit after a written part of a zeroed buffer. -/
theorem writeFields_zeros {len : Nat} {pre : List UInt8} {fields : List (Nat × List UInt8)}
    (h : FieldsFit len pre.length fields) :
    writeFields (pre ++ List.replicate (len - pre.length) 0) fields = pre ++ packFields len pre.length fields := by
  induction fields generalizing pre with
  | nil => rfl
  | cons f fs ih =>
    have h1 := h.1
    have hle := h.2.le
    obtain ⟨d, hd⟩ := Nat.exists_eq_add_of_le h1
    have hl : (pre ++ List.replicate d 0 ++ f.2).length = f.1 + f.2.length := by
      simp only [List.length_append, List.length_replicate]
      omega
    have htake : (pre ++ List.replicate (len - pre.length) 0).take (pre.length + d) = pre ++ List.replicate d (0 : UInt8) := by
      rw [List.take_length_add_append, List.take_replicate, Nat.min_eq_left (by omega)]
    have hdrop : (pre ++ List.replicate (len - pre.length) 0).drop (pre.length + (d + f.2.length)) =
        List.replicate (len - (f.1 + f.2.length)) (0 : UInt8) := by
      rw [List.drop_length_add_append, List.drop_replicate]
      congr 1
      omega
    have hwrite : writeAt (pre ++ List.replicate (len - pre.length) 0) f.1 f.2 =
        (pre ++ List.replicate d 0 ++ f.2) ++ List.replicate (len - (f.1 + f.2.length)) 0 := by
      rw [writeAt, ← hdrop, hd, htake, Nat.add_assoc]
    have := @ih (pre ++ List.replicate d 0 ++ f.2) (hl ▸ h.2)
    rw [hl] at this
    have hsub : f.1 - pre.length = d := by omega
    rw [writeFields, List.foldl_cons, hwrite, packFields, hsub]
    rw [writeFields] at this
    rw [this]
    simp only [List.append_assoc]

/-- Fields that fit a zeroed buffer. -/
theorem writeFields_replicate {len : Nat} {fields : List (Nat × List UInt8)} (h : FieldsFit len 0 fields) :
    writeFields (List.replicate len 0) fields = packFields len 0 fields :=
  @writeFields_zeros len [] fields h

/-- Fields that fit before others: what they leave to the others depends on where these start only. -/
theorem packFields_congr {len q pos : Nat} (before : List (Nat × List UInt8)) {fields fields' : List (Nat × List UInt8)}
    (hfit : FieldsFit q pos before) (h : ∀ p, p ≤ q → packFields len p fields = packFields len p fields') :
    packFields len pos (before ++ fields) = packFields len pos (before ++ fields') := by
  induction before generalizing pos with
  | nil => exact h pos hfit
  | cons f fs ih =>
    rw [List.cons_append, List.cons_append, packFields, packFields, ih hfit.2]

/-- Zeros before fields that fit after them. -/
theorem packFields_skip {len pos k : Nat} {fields : List (Nat × List UInt8)} (h : FieldsFit len (pos + k) fields) :
    List.replicate k 0 ++ packFields len (pos + k) fields = packFields len pos fields := by
  cases fields with
  | nil =>
    have hle : pos + k ≤ len := h
    rw [packFields, packFields, List.replicate_append_replicate]
    congr 1
    omega
  | cons f fs =>
    have hle := h.1
    rw [packFields, packFields, ← List.append_assoc, ← List.append_assoc, List.replicate_append_replicate]
    congr 3
    omega

/-- A field padded with zeros is the field without them. -/
theorem packFields_pad {len pos off k : Nat} {bytes : List UInt8} {fields : List (Nat × List UInt8)}
    (h : FieldsFit len (off + bytes.length + k) fields) :
    packFields len pos ((off, bytes ++ List.replicate k 0) :: fields) = packFields len pos ((off, bytes) :: fields) := by
  have hl : off + (bytes ++ List.replicate k (0 : UInt8)).length = off + bytes.length + k := by
    rw [List.length_append, List.length_replicate, Nat.add_assoc]
  rw [packFields, packFields, hl, ← packFields_skip h]
  simp only [List.append_assoc]

/-- A field of zeros is no field. -/
theorem packFields_zero {len pos off k : Nat} {fields : List (Nat × List UInt8)} (hp : pos ≤ off)
    (h : FieldsFit len (off + k) fields) :
    packFields len pos ((off, List.replicate k 0) :: fields) = packFields len pos fields := by
  obtain ⟨d, rfl⟩ := Nat.exists_eq_add_of_le hp
  have hd : pos + d - pos = d := by omega
  rw [Nat.add_assoc] at h
  rw [packFields, List.length_replicate, hd, List.replicate_append_replicate, Nat.add_assoc, packFields_skip h]

/-- Fields that fit a shorter buffer: the longer one starts with it. -/
theorem packFields_take {len short pos : Nat} {fields : List (Nat × List UInt8)} (hle : short ≤ len)
    (h : FieldsFit short pos fields) : (packFields len pos fields).take (short - pos) = packFields short pos fields := by
  induction fields generalizing pos with
  | nil =>
    rw [packFields, packFields, List.take_replicate]
    congr 1
    omega
  | cons f fs ih =>
    have h1 := h.1
    have h2 := h.2.le
    have hl : (List.replicate (f.1 - pos) (0 : UInt8) ++ f.2).length = f.1 + f.2.length - pos := by
      rw [List.length_append, List.length_replicate]
      omega
    have hsplit : short - pos = (List.replicate (f.1 - pos) (0 : UInt8) ++ f.2).length + (short - (f.1 + f.2.length)) := by
      omega
    rw [packFields, packFields, hsplit, List.take_length_add_append, ih h.2]

/-! ## Writes in loops -/

/-- The assignment of one byte. -/
theorem set_eq_writeAt {buf : List UInt8} {off : Nat} {b : UInt8} (h : off < buf.length) :
    buf.set off b = writeAt buf off [b] := by
  rw [List.set_eq_take_append_cons_drop, if_pos h, writeAt, List.append_assoc]
  rfl

/-- A write where the one before it ends. -/
theorem writeAt_writeAt {buf : List UInt8} {off : Nat} {a b : List UInt8} (h : off + a.length ≤ buf.length) :
    writeAt (writeAt buf off a) (off + a.length) b = writeAt buf off (a ++ b) := by
  have hl : (buf.take off ++ a).length = off + a.length := by
    simp only [List.length_append, List.length_take]
    omega
  have htake : (writeAt buf off a).take (off + a.length) = buf.take off ++ a := by
    rw [writeAt, ← hl, List.take_left']
    rfl
  have hdrop : (writeAt buf off a).drop (off + a.length + b.length) = buf.drop (off + (a ++ b).length) := by
    rw [writeAt, ← hl, List.drop_length_add_append, List.drop_drop, hl, List.length_append, Nat.add_assoc]
  rw [writeAt, htake, hdrop, writeAt, List.append_assoc (buf.take off)]

/-- `for i in 0..n { buf[off + i] = value(i) }` -/
def fillLoop (n off : Nat) (value : Nat → UInt8) (buf : List UInt8) : List UInt8 :=
  (List.range n).foldl (fun buf i => buf.set (off + i) (value i)) buf

/-- A loop of assignments is one write. -/
theorem fillLoop_eq {n off : Nat} {value : Nat → UInt8} {buf : List UInt8} (h : off + n ≤ buf.length) :
    fillLoop n off value buf = writeAt buf off ((List.range n).map value) := by
  induction n with
  | zero => simp [fillLoop, writeAt]
  | succ n ih =>
    have hl : ((List.range n).map value).length = n := by simp
    have hstep : fillLoop (n + 1) off value buf = (fillLoop n off value buf).set (off + n) (value n) := by
      simp only [fillLoop, List.range_succ, List.foldl_append, List.foldl_cons, List.foldl_nil]
    have hw : (writeAt buf off ((List.range n).map value)).length = buf.length := writeAt_length (by omega)
    rw [hstep, ih (by omega), set_eq_writeAt (by omega), List.range_succ, List.map_append, List.map_singleton,
      ← writeAt_writeAt (by omega), hl]

/-- A loop that copies a byte string is one write of it. -/
theorem fillLoop_getD {n off : Nat} {src buf : List UInt8} (hs : src.length = n) (h : off + n ≤ buf.length) :
    fillLoop n off (fun i => src.getD i 0) buf = writeAt buf off src := by
  rw [fillLoop_eq h]
  congr 1
  refine List.ext_getElem (by simp [hs]) ?_
  intro i hi hi'
  simp [List.getD_eq_getElem?_getD, List.getElem?_eq_getElem hi']

end Codec
