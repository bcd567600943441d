import Mathlib.Data.Finset.Lattice.Lemmas
import VertexVeil.Config

/-!
# Helpers for `Theorems/Config.lean`: what the parsers and the loop over the nodes accept

Each step of the validation accepts exactly one description of its input, and returns what the description says.
-/

namespace VertexVeil

open Codec

/-! ## Hexadecimal keys -/

/-- A lower-case digit is the digit of its value. -/
theorem exists_hexVal {c : Char} (h : isLowerHexDigit c = true) : ∃ v < 16, hexVal c = some v ∧ hexDigit v = c := by
  simp only [isLowerHexDigit, Bool.or_eq_true, Bool.and_eq_true, decide_eq_true_eq] at h
  rcases h with ⟨hl, hu⟩ | ⟨hl, hu⟩
  · refine ⟨c.toNat - 48, by omega, ?_, ?_⟩
    · rw [hexVal, if_pos ⟨hl, hu⟩]
    · rw [hexDigit, if_pos (by omega), Nat.add_sub_of_le hl, Char.ofNat_toNat]
  · refine ⟨c.toNat - 87, by omega, ?_, ?_⟩
    · rw [hexVal, if_neg (by omega), if_pos ⟨hl, hu⟩]
    · rw [hexDigit, if_neg (by omega), Nat.add_sub_of_le (by omega), Char.ofNat_toNat]

/-- A lower-case text of even length spells bytes, and is their encoding. -/
theorem hexDecode_of_lower {s : Text} {k : Nat} (h : s.all isLowerHexDigit = true) (hl : s.length = 2 * k) :
    ∃ bs, hexDecode s = some bs ∧ bs.length = k ∧ hexEncode bs = s := by
  induction k generalizing s with
  | zero =>
    obtain rfl := List.length_eq_zero_iff.mp hl
    exact ⟨[], rfl, rfl, rfl⟩
  | succ k ih =>
    match s, h, hl with
    | a :: b :: rest, h, hl =>
      simp only [List.all_cons, Bool.and_eq_true] at h
      obtain ⟨ha, hb, hrest⟩ := h
      obtain ⟨x, hx, hxv, hxd⟩ := exists_hexVal ha
      obtain ⟨y, hy, hyv, hyd⟩ := exists_hexVal hb
      obtain ⟨bs, hbs, hlen, henc⟩ := ih hrest (by simp only [List.length_cons] at hl; omega)
      have hbyte : (UInt8.ofNat (16 * x + y)).toNat = 16 * x + y := by
        rw [UInt8.toNat_ofNat']
        omega
      refine ⟨UInt8.ofNat (16 * x + y) :: bs, by simp only [hexDecode, hxv, hyv, hbs], by simp only [List.length_cons, hlen], ?_⟩
      rw [hexEncode, hbyte, henc, show (16 * x + y) / 16 = x by omega, show (16 * x + y) % 16 = y by omega, hxd, hyd]

theorem utf8Len_cons (c : Char) (s : Text) : utf8Len (c :: s) = c.utf8Size + utf8Len s := by
  have hfold : ∀ (cs : Text) (len : Nat), cs.foldl (fun len c => len + c.utf8Size) len =
      len + cs.foldl (fun len c => len + c.utf8Size) 0 := by
    intro cs
    induction cs with
    | nil => exact fun len => rfl
    | cons d cs ih =>
      intro len
      rw [List.foldl_cons, List.foldl_cons, ih (len + d.utf8Size), ih (0 + d.utf8Size)]
      omega
  unfold utf8Len
  rw [List.foldl_cons, hfold, Nat.zero_add]

/-- A lower-case hexadecimal digit is one byte. -/
theorem utf8Size_of_lower {c : Char} (h : isLowerHexDigit c = true) : c.utf8Size = 1 := by
  obtain ⟨v, hv, -, rfl⟩ := exists_hexVal h
  have hall : ∀ m : Fin 16, (hexDigit m).utf8Size = 1 := by decide
  exact hall ⟨v, hv⟩

/-- A lower-case text has a byte a character. -/
theorem utf8Len_of_lower {s : Text} (h : s.all isLowerHexDigit = true) : utf8Len s = s.length := by
  induction s with
  | nil => rfl
  | cons c s ih =>
    rw [List.all_cons, Bool.and_eq_true] at h
    rw [utf8Len_cons, utf8Size_of_lower h.1, ih h.2, List.length_cons, Nat.add_comm]

/-- The checks of a key in hexadecimal: its length in bytes, its characters, and that it decodes. -/
theorem decodeToSlice_of_lower {s : Text} (hl : s.length = 64) (h : s.all isLowerHexDigit = true) :
    ∃ bytes : Bytes 32, decodeToSlice 32 s = some bytes ∧ hexEncode bytes.toList = s := by
  obtain ⟨bs, hbs, hlen, henc⟩ := hexDecode_of_lower (k := 32) h (by omega)
  refine ⟨⟨bs, hlen⟩, ?_, henc⟩
  simp only [decodeToSlice, hbs, hlen, dite_true]

/-- An identifier is parsed exactly from its hexadecimal form. -/
theorem NodeId.fromStr_eq_ok {s : Text} {n : NodeId} : fromStr s = .ok n ↔ s = n.toHex := by
  constructor
  · intro h
    unfold fromStr at h
    split at h
    · cases h
    · split at h
      · cases h
      · rename_i hlen
        split at h
        · cases h
        · rename_i hall
          rw [not_not] at hlen hall
          rw [utf8Len_of_lower hall] at hlen
          obtain ⟨bytes, hdec, henc⟩ := decodeToSlice_of_lower hlen hall
          rw [hdec] at h
          simp only [Except.ok.injEq] at h
          rw [← h]
          exact henc.symm
  · rintro rfl
    exact fromStr_toHex n

/-- A signing key is parsed exactly from the hexadecimal form of a point of the curve. -/
theorem SigningPublicKey.fromHex_eq_ok {Γ : Crypto} {s : Text} {pk : SigningPublicKey} :
    fromHex Γ s = .ok pk ↔ s = hexEncode pk.toList ∧ Γ.isVerifyingKey pk = true := by
  constructor
  · intro h
    refine ⟨?_, fromHex_ok h⟩
    unfold fromHex at h
    split at h
    · cases h
    · rename_i hlen
      split at h
      · cases h
      · rename_i hall
        rw [not_not] at hlen hall
        rw [utf8Len_of_lower hall] at hlen
        obtain ⟨bytes, hdec, henc⟩ := decodeToSlice_of_lower hlen hall
        rw [hdec] at h
        dsimp only at h
        split at h
        · simp only [Except.ok.injEq] at h
          rw [← h]
          exact henc.symm
        · cases h
  · intro h
    obtain ⟨rfl, hk⟩ := h
    obtain ⟨hplain, hutf8⟩ := hexEncode_plain pk.toList
    have hlen : pk.toList.length = 32 := pk.toList_length
    have hsize : utf8Len (hexEncode pk.toList) = 64 := (hutf8 0).trans (by omega)
    have hslice : decodeToSlice 32 (hexEncode pk.toList) = some pk := by
      simp only [decodeToSlice, hexDecode_hexEncode, hlen, dite_true]
      rfl
    unfold fromHex
    rw [if_neg (not_not.mpr hsize), if_neg (not_not.mpr hplain), hslice]
    exact if_pos hk

/-! ## Tags -/

/-- `[A-Z][A-Z0-9_]*` -/
def TagShape (s : Text) : Prop :=
  ∃ first chars, s = first :: chars ∧ ('A' ≤ first ∧ first ≤ 'Z') ∧
    ∀ c ∈ chars, ('A' ≤ c ∧ c ≤ 'Z') ∨ ('0' ≤ c ∧ c ≤ '9') ∨ c = '_'

theorem isAsciiUppercase_iff {c : Char} : isAsciiUppercase c = true ↔ 'A' ≤ c ∧ c ≤ 'Z' := by
  simp only [isAsciiUppercase, Bool.and_eq_true, decide_eq_true_eq, Char.le_def, UInt32.le_iff_toNat_le]
  rfl

theorem isTagChar_iff {c : Char} : isTagChar c = true ↔ ('A' ≤ c ∧ c ≤ 'Z') ∨ ('0' ≤ c ∧ c ≤ '9') ∨ c = '_' := by
  have hdigit : isAsciiDigit c = true ↔ '0' ≤ c ∧ c ≤ '9' := by
    simp only [isAsciiDigit, Bool.and_eq_true, decide_eq_true_eq, Char.le_def, UInt32.le_iff_toNat_le]
    rfl
  rw [isTagChar, Bool.or_eq_true, Bool.or_eq_true, isAsciiUppercase_iff, hdigit, beq_iff_eq, or_assoc]

/-- A tag is parsed exactly from a text of its shape, and is that text. -/
theorem CapabilityTag.parseShape_eq_ok {raw : Text} {tag : CapabilityTag} :
    parseShape raw = .ok tag ↔ TagShape raw ∧ tag = ⟨raw⟩ := by
  cases raw with
  | nil => simp [parseShape, TagShape]
  | cons first chars =>
    have hfind : chars.find? (fun c => ¬ isTagChar c) = none ↔ ∀ c ∈ chars, isTagChar c = true := by
      rw [List.find?_eq_none]
      simp
    have hshape : TagShape (first :: chars) ↔ isAsciiUppercase first = true ∧ ∀ c ∈ chars, isTagChar c = true := by
      simp only [TagShape, List.cons.injEq, isAsciiUppercase_iff, isTagChar_iff]
      constructor
      · intro h
        obtain ⟨_, _, ⟨rfl, rfl⟩, h⟩ := h
        exact h
      · intro h
        exact ⟨_, _, ⟨rfl, rfl⟩, h⟩
    rw [hshape, ← hfind]
    simp only [parseShape]
    by_cases hu : isAsciiUppercase first = true
    · cases hf : chars.find? (fun c => ¬ isTagChar c) with
      | none => simp [hu, eq_comm]
      | some c => simp [hu]
    · simp [hu]

theorem CapabilityTagSet.insertAll_eq_ok {raws : List Text} {out out' : Finset CapabilityTag} :
    insertAll raws out = .ok out' ↔
      (∀ s ∈ raws, TagShape s) ∧ out' = out ∪ (raws.map CapabilityTag.mk).toFinset := by
  induction raws generalizing out with
  | nil => simp [insertAll, eq_comm]
  | cons raw raws ih =>
    rw [List.forall_mem_cons]
    constructor
    · intro h
      obtain ⟨tag, ht, h⟩ := Except.bind_eq_ok h
      obtain ⟨hshape, rfl⟩ := CapabilityTag.parseShape_eq_ok.mp ht
      obtain ⟨hall, rfl⟩ := ih.mp h
      refine ⟨⟨hshape, hall⟩, ?_⟩
      rw [List.map_cons, List.toFinset_cons, Finset.insert_union, Finset.union_insert]
    · intro h
      obtain ⟨⟨hshape, hall⟩, rfl⟩ := h
      simp only [insertAll, CapabilityTag.parseShape_eq_ok.mpr ⟨hshape, rfl⟩, bind, Except.bind]
      refine ih.mpr ⟨hall, ?_⟩
      rw [List.map_cons, List.toFinset_cons, Finset.insert_union, Finset.union_insert]

/-- A tag set is built exactly from a nonempty list of texts of the shape, and holds them. -/
theorem CapabilityTagSet.new_eq_ok {raws : List Text} {tags : CapabilityTagSet} :
    new raws = .ok tags ↔
      raws ≠ [] ∧ (∀ s ∈ raws, TagShape s) ∧ tags = ⟨(raws.map CapabilityTag.mk).toFinset⟩ := by
  have hempty : (raws.map CapabilityTag.mk).toFinset = ∅ ↔ raws = [] := by
    rw [List.toFinset_eq_empty_iff, List.map_eq_nil_iff]
  constructor
  · intro h
    obtain ⟨out, hout, h⟩ := Except.bind_eq_ok h
    obtain ⟨hall, rfl⟩ := insertAll_eq_ok.mp hout
    rw [Finset.empty_union] at h
    split at h
    · cases h
    · rename_i hne
      exact ⟨fun h0 => hne (hempty.mpr h0), hall, (Except.ok.inj h).symm⟩
  · intro h
    obtain ⟨hne, hall, rfl⟩ := h
    simp only [new, insertAll_eq_ok.mpr ⟨hall, rfl⟩, bind, Except.bind, Finset.empty_union, hempty, hne, if_false]

/-- A label is normalized exactly when it has the shape and is in the set. -/
theorem CapabilityTagSet.normalize_eq_ok {tags : CapabilityTagSet} {raw : Text} {tag : CapabilityTag} :
    tags.normalize raw = .ok tag ↔ TagShape raw ∧ tag = ⟨raw⟩ ∧ tag ∈ tags.tags := by
  constructor
  · intro h
    obtain ⟨t, ht, h⟩ := Except.bind_eq_ok h
    obtain ⟨hshape, rfl⟩ := CapabilityTag.parseShape_eq_ok.mp ht
    split at h
    · rename_i hm
      obtain rfl := Except.ok.inj h
      exact ⟨hshape, rfl, hm⟩
    · cases h
  · intro h
    obtain ⟨hshape, rfl, hm⟩ := h
    simp only [normalize, CapabilityTag.parseShape_eq_ok.mpr ⟨hshape, rfl⟩, bind, Except.bind, if_pos hm]

theorem CapabilityTagSet.normalizeAll_eq_ok {tags : CapabilityTagSet} {raws : List Text} {out : List CapabilityTag} :
    tags.normalizeAll raws = .ok out ↔
      (∀ s ∈ raws, TagShape s ∧ CapabilityTag.mk s ∈ tags.tags) ∧ out = raws.map CapabilityTag.mk := by
  induction raws generalizing out with
  | nil => simp [normalizeAll, eq_comm]
  | cons raw raws ih =>
    rw [List.forall_mem_cons]
    constructor
    · intro h
      obtain ⟨tag, ht, h⟩ := Except.bind_eq_ok h
      obtain ⟨rest, hr, h⟩ := Except.bind_eq_ok h
      obtain ⟨hshape, rfl, hm⟩ := normalize_eq_ok.mp ht
      obtain ⟨hall, rfl⟩ := ih.mp hr
      exact ⟨⟨⟨hshape, hm⟩, hall⟩, (Except.ok.inj h).symm⟩
    · intro h
      obtain ⟨⟨⟨hshape, hm⟩, hall⟩, rfl⟩ := h
      simp only [normalizeAll, normalize_eq_ok.mpr ⟨hshape, rfl, hm⟩, ih.mpr ⟨hall, rfl⟩, bind, Except.bind]
      rfl

/-- A tag made of a text is the text. -/
theorem CapabilityTag.map_asStr_mk (raws : List Text) : (raws.map CapabilityTag.mk).map (·.asStr) = raws := by
  induction raws with
  | nil => rfl
  | cons s raws ih => rw [List.map_cons, List.map_cons, ih]

theorem CapabilityTag.map_mk_asStr (tags : List CapabilityTag) : (tags.map (·.asStr)).map CapabilityTag.mk = tags := by
  induction tags with
  | nil => rfl
  | cons tag tags ih => rw [List.map_cons, List.map_cons, ih]

/-! ## Nodes -/

/-- Every entry on the left of related lists has a related entry. -/
theorem exists_of_forall₂ {α β : Type} {R : α → β → Prop} {as : List α} {bs : List β} (h : List.Forall₂ R as bs)
    {a : α} (ha : a ∈ as) : ∃ b, R a b := by
  induction h with
  | nil => cases ha
  | cons hab _ ih =>
    rcases List.mem_cons.mp ha with rfl | hmem
    · exact ⟨_, hab⟩
    · exact ih hmem

/-- The required capability of a node is the declared one: of a requester a configured tag, of a provider none. -/
theorem NodeConfigRaw.requiredCapabilityIn_eq_ok {tags : CapabilityTagSet} {raw : NodeConfigRaw} {req : Option CapabilityTag} :
    raw.requiredCapabilityIn tags = .ok req ↔ req.map (·.asStr) = raw.requiredCapability ∧
      (raw.role = .requester → ∃ tag ∈ tags.tags, TagShape tag.asStr ∧ req = some tag) ∧ (raw.role = .provider → req = none) := by
  unfold requiredCapabilityIn
  cases raw.role with
  | requester =>
    cases raw.requiredCapability with
    | none =>
      refine iff_of_false (fun h => by cases h) ?_
      intro h
      obtain ⟨hmap, hreq, -⟩ := h
      obtain ⟨tag, -, -, rfl⟩ := hreq rfl
      cases hmap
    | some s =>
      constructor
      · intro h
        obtain ⟨tag, htag, h⟩ := Except.bind_eq_ok h
        obtain ⟨hshape, rfl, hm⟩ := CapabilityTagSet.normalize_eq_ok.mp htag
        obtain rfl := Except.ok.inj h
        exact ⟨rfl, fun _ => ⟨_, hm, hshape, rfl⟩, fun hp => (by cases hp)⟩
      · intro h
        obtain ⟨hmap, hreq, -⟩ := h
        obtain ⟨tag, hm, hshape, rfl⟩ := hreq rfl
        obtain rfl := Option.some.inj hmap
        simp only [CapabilityTagSet.normalize_eq_ok.mpr ⟨hshape, rfl, hm⟩, bind, Except.bind]
        rfl
  | provider =>
    cases raw.requiredCapability with
    | none =>
      constructor
      · intro h
        obtain rfl := Except.ok.inj h
        exact ⟨rfl, fun hr => (by cases hr), fun _ => rfl⟩
      · intro h
        obtain ⟨-, -, hreq⟩ := h
        rw [hreq rfl]
    | some s =>
      refine iff_of_false (fun h => by cases h) ?_
      intro h
      obtain ⟨hmap, -, hreq⟩ := h
      rw [hreq rfl] at hmap
      cases hmap

/-- The claims of a node are the declared ones: of a provider some configured tags, of a requester none. -/
theorem NodeConfigRaw.capabilityClaimsIn_eq_ok {tags : CapabilityTagSet} {raw : NodeConfigRaw} {claims : List CapabilityTag} :
    raw.capabilityClaimsIn tags = .ok claims ↔ claims.map (·.asStr) = raw.capabilityClaims.getD [] ∧
      (raw.role = .requester → raw.capabilityClaims = none) ∧
      (raw.role = .provider → claims ≠ [] ∧ ∀ tag ∈ claims, TagShape tag.asStr ∧ tag ∈ tags.tags) := by
  unfold capabilityClaimsIn
  cases raw.role with
  | requester =>
    cases raw.capabilityClaims with
    | none =>
      constructor
      · intro h
        obtain rfl := Except.ok.inj h
        exact ⟨rfl, fun _ => rfl, fun hp => (by cases hp)⟩
      · intro h
        obtain ⟨hmap, -, -⟩ := h
        rw [List.map_eq_nil_iff.mp hmap]
    | some raws =>
      refine iff_of_false (fun h => by cases h) ?_
      intro h
      obtain ⟨-, hnone, -⟩ := h
      cases hnone rfl
  | provider =>
    cases raw.capabilityClaims with
    | none =>
      refine iff_of_false (fun h => by cases h) ?_
      intro h
      obtain ⟨hmap, -, hclaims⟩ := h
      exact (hclaims rfl).1 (List.map_eq_nil_iff.mp hmap)
    | some raws =>
      dsimp only
      constructor
      · intro h
        split at h
        · cases h
        · rename_i hne
          obtain ⟨hall, rfl⟩ := CapabilityTagSet.normalizeAll_eq_ok.mp h
          refine ⟨CapabilityTag.map_asStr_mk raws, fun hr => (by cases hr), fun _ => ⟨?_, ?_⟩⟩
          · exact fun h0 => hne (List.map_eq_nil_iff.mp h0)
          · intro tag hm
            obtain ⟨s, hs, rfl⟩ := List.mem_map.mp hm
            exact hall s hs
      · intro h
        obtain ⟨hmap, -, hclaims⟩ := h
        obtain ⟨hne, hall⟩ := hclaims rfl
        obtain rfl : claims.map (·.asStr) = raws := hmap
        rw [if_neg (fun h0 => hne (List.map_eq_nil_iff.mp h0)), CapabilityTagSet.normalizeAll_eq_ok]
        refine ⟨?_, (CapabilityTag.map_mk_asStr claims).symm⟩
        intro s hs
        obtain ⟨tag, hm, rfl⟩ := List.mem_map.mp hs
        exact hall tag hm

/-- The signing key of a node is the declared one, a point of the curve. -/
theorem NodeConfigRaw.signingPublicKeyOf_eq_ok {Γ : Crypto} {id : NodeId} {raw : NodeConfigRaw} {key : Option SigningPublicKey} :
    raw.signingPublicKeyOf Γ id = .ok key ↔ key.map (fun pk => hexEncode pk.toList) = raw.signingPublicKey ∧
      ∀ pk, key = some pk → Γ.isVerifyingKey pk = true := by
  unfold signingPublicKeyOf
  cases raw.signingPublicKey with
  | none =>
    constructor
    · intro h
      obtain rfl := Except.ok.inj h
      exact ⟨rfl, fun pk he => (by cases he)⟩
    · intro h
      obtain ⟨hmap, -⟩ := h
      rw [Option.map_eq_none_iff.mp hmap]
  | some hex =>
    dsimp only
    constructor
    · intro h
      split at h
      · cases h
      · rename_i pk hpk
        obtain ⟨rfl, hv⟩ := SigningPublicKey.fromHex_eq_ok.mp hpk
        obtain rfl := Except.ok.inj h
        refine ⟨rfl, ?_⟩
        intro pk' he
        exact Option.some.inj he ▸ hv
    · intro h
      obtain ⟨hmap, hv⟩ := h
      obtain ⟨pk, rfl, henc⟩ := Option.map_eq_some_iff.mp hmap
      rw [SigningPublicKey.fromHex_eq_ok.mpr ⟨henc.symm, hv pk rfl⟩]

/-- The loop over the nodes makes a node of an entry. -/
structure NodeConfigRaw.Loads (Γ : Crypto) (tags : CapabilityTagSet) (raw : NodeConfigRaw) (n : NodeConfig) : Prop where
  id : NodeId.fromStr raw.id = .ok n.id
  role : n.role = raw.role
  requiredCapability : raw.requiredCapabilityIn tags = .ok n.requiredCapability
  capabilityClaims : raw.capabilityClaimsIn tags = .ok n.capabilityClaims
  signingPublicKey : raw.signingPublicKeyOf Γ n.id = .ok n.signingPublicKey

/-- The loop over the nodes returns exactly a node for each entry, all distinct and none seen before. -/
theorem TopologyConfig.nodesFromRaw_eq_ok {Γ : Crypto} {tags : CapabilityTagSet} {raws : List NodeConfigRaw}
    {seen : Finset NodeId} {nodes : List NodeConfig} : nodesFromRaw Γ tags raws seen = .ok nodes ↔
      List.Forall₂ (NodeConfigRaw.Loads Γ tags) raws nodes ∧ (nodes.map (·.id)).Nodup ∧ ∀ n ∈ nodes, n.id ∉ seen := by
  induction raws generalizing seen nodes with
  | nil =>
    simp only [nodesFromRaw, Except.ok.injEq, List.forall₂_nil_left_iff]
    constructor
    · rintro rfl
      simp
    · intro h
      obtain ⟨rfl, -⟩ := h
      rfl
  | cons raw raws ih =>
    constructor
    · intro h
      obtain ⟨id, hid, h⟩ := Except.bind_eq_ok h
      split at h
      · cases h
      · rename_i hnew
        obtain ⟨req, hreq, h⟩ := Except.bind_eq_ok h
        obtain ⟨claims, hclaims, h⟩ := Except.bind_eq_ok h
        obtain ⟨key, hkey, h⟩ := Except.bind_eq_ok h
        obtain ⟨rest, hrest, h⟩ := Except.bind_eq_ok h
        obtain rfl := Except.ok.inj h
        obtain ⟨hall, hnd, hseen⟩ := ih.mp hrest
        refine ⟨.cons ⟨hid, rfl, hreq, hclaims, hkey⟩ hall, ?_, ?_⟩
        · rw [List.map_cons, List.nodup_cons]
          refine ⟨?_, hnd⟩
          intro hm
          obtain ⟨n, hn, he⟩ := List.mem_map.mp hm
          exact hseen n hn (he ▸ Finset.mem_insert_self _ _)
        · rw [List.forall_mem_cons]
          exact ⟨hnew, fun n hn hm => hseen n hn (Finset.mem_insert_of_mem hm)⟩
    · intro h
      obtain ⟨hall, hnd, hseen⟩ := h
      cases hall with
      | @cons _ n _ rest hn hrest =>
        rw [List.map_cons, List.nodup_cons] at hnd
        rw [List.forall_mem_cons] at hseen
        have hih : nodesFromRaw Γ tags raws (insert n.id seen) = .ok rest := by
          refine ih.mpr ⟨hrest, hnd.2, ?_⟩
          intro k hk hm
          rcases Finset.mem_insert.mp hm with he | hm
          · exact hnd.1 (List.mem_map.mpr ⟨k, hk, he⟩)
          · exact hseen.2 k hk hm
        simp only [nodesFromRaw, hn.id, bind, Except.bind, if_neg hseen.1, hn.requiredCapability, hn.capabilityClaims,
          hn.signingPublicKey, hih]
        rw [← hn.role]
        rfl

/-- A topology is loaded exactly when the version is 1, the tags make a set, every entry makes a node, the nodes are distinct,
and there is one requester and a provider. -/
theorem TopologyConfig.fromRaw_eq_ok {Γ : Crypto} {raw : TopologyConfigRaw} {t : TopologyConfig} :
    fromRaw Γ raw = .ok t ↔ raw.version = 1 ∧ t.version = raw.version ∧
      CapabilityTagSet.new raw.capabilityTags = .ok t.capabilityTags ∧
      List.Forall₂ (NodeConfigRaw.Loads Γ t.capabilityTags) raw.nodes t.nodes ∧ (t.nodes.map (·.id)).Nodup ∧
      t.nodes.countP (fun n => n.role = .requester) = 1 ∧ t.nodes.countP (fun n => n.role = .provider) ≠ 0 := by
  constructor
  · intro h
    unfold fromRaw at h
    split at h
    · cases h
    · rename_i hversion
      obtain ⟨tags, htags, h⟩ := Except.bind_eq_ok h
      split at h
      · cases h
      · obtain ⟨nodes, hnodes, h⟩ := Except.bind_eq_ok h
        dsimp only at h
        split at h
        · cases h
        · rename_i hreq
          split at h
          · cases h
          · rename_i hprov
            obtain rfl := Except.ok.inj h
            obtain ⟨hall, hnd, -⟩ := nodesFromRaw_eq_ok.mp hnodes
            exact ⟨not_not.mp hversion, rfl, htags, hall, hnd, not_not.mp hreq, hprov⟩
  · intro h
    obtain ⟨hversion, hv, htags, hall, hnd, hreq, hprov⟩ := h
    have hnodes : nodesFromRaw Γ t.capabilityTags raw.nodes ∅ = .ok t.nodes :=
      nodesFromRaw_eq_ok.mpr ⟨hall, hnd, fun _ _ => Finset.notMem_empty _⟩
    have hne : raw.nodes ≠ [] := by
      intro h0
      rw [h0, List.forall₂_nil_left_iff] at hall
      rw [hall] at hreq
      simp at hreq
    simp only [fromRaw, hversion, ne_eq, not_true_eq_false, if_false, htags, bind, Except.bind, hne, hnodes, hreq, hprov]
    rw [← hversion, ← hv]
    rfl

/-- A loaded node has the capabilities of its role only. -/
theorem LoadedTopology.fields_of_role {Γ : Crypto} (T : LoadedTopology Γ) {n : NodeConfig} (hn : n ∈ T.config.nodes) :
    (n.role = .requester → n.capabilityClaims = []) ∧ (n.role = .provider → n.requiredCapability = none) := by
  obtain ⟨-, -, -, hall, -⟩ := TopologyConfig.fromRaw_eq_ok.mp T.loaded
  obtain ⟨raw, hraw⟩ := exists_of_forall₂ hall.flip hn
  obtain ⟨hclaims, hnone, -⟩ := NodeConfigRaw.capabilityClaimsIn_eq_ok.mp hraw.capabilityClaims
  obtain ⟨-, -, hreq⟩ := NodeConfigRaw.requiredCapabilityIn_eq_ok.mp hraw.requiredCapability
  rw [hraw.role]
  refine ⟨?_, hreq⟩
  intro hr
  rw [hnone hr] at hclaims
  exact List.map_eq_nil_iff.mp hclaims

end VertexVeil
