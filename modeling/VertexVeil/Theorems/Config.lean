import VertexVeil.Fixtures
import VertexVeil.Lemmas.Config

/-!
# Which topologies load

`AcceptableTopology` is what the documentation of the loader lists, over the text of the file; the loader accepts exactly that,
and what it returns lists the file's nodes.
-/

namespace VertexVeil

open Codec

/-! ## The topology validator -/

/-- 64 lower-case hexadecimal characters. -/
def HexKey (s : Text) : Prop := s.length = 64 ∧ ∀ c ∈ s, ('0' ≤ c ∧ c ≤ '9') ∨ ('a' ≤ c ∧ c ≤ 'f')

/-- A node as it may be declared: a requester requires a configured tag and claims nothing, a provider claims some configured
tags and requires none, and a signing key is a point of the curve. -/
structure AcceptableNode (Γ : Crypto) (tags : List Text) (raw : NodeConfigRaw) : Prop where
  id : HexKey raw.id
  requester : raw.role = .requester → (∃ tag ∈ tags, raw.requiredCapability = some tag) ∧ raw.capabilityClaims = none
  provider : raw.role = .provider → raw.requiredCapability = none ∧
    ∃ claims, raw.capabilityClaims = some claims ∧ claims ≠ [] ∧ ∀ tag ∈ claims, tag ∈ tags
  key : ∀ hex, raw.signingPublicKey = some hex →
    HexKey hex ∧ ∃ pk : SigningPublicKey, hex = hexEncode pk.toList ∧ Γ.isVerifyingKey pk = true

/-- A topology as it may be declared. -/
structure AcceptableTopology (Γ : Crypto) (raw : TopologyConfigRaw) : Prop where
  version : raw.version = 1
  tags : raw.capabilityTags ≠ [] ∧ ∀ tag ∈ raw.capabilityTags, TagShape tag
  nodes : ∀ n ∈ raw.nodes, AcceptableNode Γ raw.capabilityTags n
  distinct : (raw.nodes.map (·.id)).Nodup
  oneRequester : raw.nodes.countP (fun n => n.role = .requester) = 1
  someProvider : ∃ n ∈ raw.nodes, n.role = .provider

/-- A node has the data of its declaration. -/
structure NodeConfig.Of (raw : NodeConfigRaw) (n : NodeConfig) : Prop where
  id : n.id.toHex = raw.id
  role : n.role = raw.role
  requiredCapability : n.requiredCapability.map (·.asStr) = raw.requiredCapability
  capabilityClaims : n.capabilityClaims.map (·.asStr) = raw.capabilityClaims.getD []
  signingPublicKey : n.signingPublicKey.map (fun pk => hexEncode pk.toList) = raw.signingPublicKey

/-- A topology has the data of its declaration, the nodes in their order. -/
structure TopologyConfig.Of (raw : TopologyConfigRaw) (t : TopologyConfig) : Prop where
  version : t.version = raw.version
  tags : ∀ tag, tag ∈ t.capabilityTags.tags ↔ tag.asStr ∈ raw.capabilityTags
  nodes : List.Forall₂ NodeConfig.Of raw.nodes t.nodes

namespace ConfigAux

variable {Γ : Crypto} {tags : CapabilityTagSet} {texts : List Text} {raw : NodeConfigRaw} {n : NodeConfig}

theorem isLowerHexDigit_iff {c : Char} : isLowerHexDigit c = true ↔ ('0' ≤ c ∧ c ≤ '9') ∨ ('a' ≤ c ∧ c ≤ 'f') := by
  simp only [isLowerHexDigit, Bool.or_eq_true, Bool.and_eq_true, decide_eq_true_eq, Char.le_def, UInt32.le_iff_toNat_le]
  rfl

/-- The keys are the encodings of 32 bytes. -/
theorem hexKey_iff {s : Text} : HexKey s ↔ ∃ bytes : Bytes 32, s = hexEncode bytes.toList := by
  constructor
  · intro h
    obtain ⟨hl, hall⟩ := h
    have hlower : s.all isLowerHexDigit = true := List.all_eq_true.mpr (fun c hc => isLowerHexDigit_iff.mpr (hall c hc))
    obtain ⟨bytes, -, henc⟩ := decodeToSlice_of_lower hl hlower
    exact ⟨bytes, henc.symm⟩
  · intro h
    obtain ⟨bytes, rfl⟩ := h
    refine ⟨?_, ?_⟩
    · rw [hexEncode_length, bytes.toList_length]
    · intro c hc
      exact isLowerHexDigit_iff.mp (List.all_eq_true.mp (hexEncode_plain bytes.toList).1 c hc)

/-- An entry that makes a node is acceptable, and the node has its data. -/
theorem acceptable_of_loads (hmem : ∀ s, CapabilityTag.mk s ∈ tags.tags ↔ s ∈ texts) (h : raw.Loads Γ tags n) :
    AcceptableNode Γ texts raw ∧ n.Of raw := by
  have hid := NodeId.fromStr_eq_ok.mp h.id
  obtain ⟨hreq, hrequester, hnone⟩ := NodeConfigRaw.requiredCapabilityIn_eq_ok.mp h.requiredCapability
  obtain ⟨hclaims, hnoclaims, hprovider⟩ := NodeConfigRaw.capabilityClaimsIn_eq_ok.mp h.capabilityClaims
  obtain ⟨hkey, hverify⟩ := NodeConfigRaw.signingPublicKeyOf_eq_ok.mp h.signingPublicKey
  refine ⟨⟨hexKey_iff.mpr ⟨n.id.bytes, hid⟩, ?_, ?_, ?_⟩, ⟨hid.symm, h.role, hreq, hclaims, hkey⟩⟩
  · intro hr
    obtain ⟨tag, hm, -, htag⟩ := hrequester hr
    refine ⟨⟨tag.asStr, (hmem tag.asStr).mp hm, ?_⟩, hnoclaims hr⟩
    rw [← hreq, htag]
    rfl
  · intro hp
    obtain ⟨hne, hall⟩ := hprovider hp
    refine ⟨?_, n.capabilityClaims.map (·.asStr), ?_, fun h0 => hne (List.map_eq_nil_iff.mp h0), ?_⟩
    · rw [← hreq, hnone hp]
      rfl
    · cases hc : raw.capabilityClaims with
      | none =>
        rw [hc] at hclaims
        exact absurd (List.map_eq_nil_iff.mp hclaims) hne
      | some raws =>
        rw [hc] at hclaims
        exact congrArg some hclaims.symm
    · intro s hs
      obtain ⟨tag, hm, rfl⟩ := List.mem_map.mp hs
      exact (hmem tag.asStr).mp (hall tag hm).2
  · intro hex he
    rw [← hkey] at he
    obtain ⟨pk, hpk, rfl⟩ := Option.map_eq_some_iff.mp he
    exact ⟨hexKey_iff.mpr ⟨pk, rfl⟩, pk, rfl, hverify pk hpk⟩

/-- An acceptable entry makes a node. -/
theorem exists_loads (hmem : ∀ s, CapabilityTag.mk s ∈ tags.tags ↔ s ∈ texts) (hshape : ∀ s ∈ texts, TagShape s)
    (h : AcceptableNode Γ texts raw) : ∃ n, raw.Loads Γ tags n := by
  obtain ⟨bytes, hid⟩ := hexKey_iff.mp h.id
  have htag : ∀ s ∈ texts, TagShape s ∧ CapabilityTag.mk s ∈ tags.tags := fun s hs => ⟨hshape s hs, (hmem s).mpr hs⟩
  obtain ⟨key, hkey⟩ : ∃ key, raw.signingPublicKeyOf Γ ⟨bytes⟩ = .ok key := by
    cases hk : raw.signingPublicKey with
    | none => exact ⟨none, NodeConfigRaw.signingPublicKeyOf_eq_ok.mpr ⟨hk.symm, fun pk he => (by cases he)⟩⟩
    | some hex =>
      obtain ⟨-, pk, rfl, hv⟩ := h.key hex hk
      refine ⟨some pk, NodeConfigRaw.signingPublicKeyOf_eq_ok.mpr ⟨hk.symm, ?_⟩⟩
      intro pk' he
      exact Option.some.inj he ▸ hv
  obtain ⟨req, claims, hreq, hclaims⟩ :
      ∃ req claims, raw.requiredCapabilityIn tags = .ok req ∧ raw.capabilityClaimsIn tags = .ok claims := by
    simp only [NodeConfigRaw.requiredCapabilityIn_eq_ok, NodeConfigRaw.capabilityClaimsIn_eq_ok]
    cases hrole : raw.role with
    | requester =>
      obtain ⟨⟨s, hs, hr⟩, hc⟩ := h.requester hrole
      refine ⟨some ⟨s⟩, [], ⟨hr.symm, fun _ => ⟨⟨s⟩, (htag s hs).2, (htag s hs).1, rfl⟩, fun hp => (by cases hp)⟩,
        ?_, fun _ => hc, fun hp => (by cases hp)⟩
      rw [hc]
      rfl
    | provider =>
      obtain ⟨hr, raws, hc, hne, hall⟩ := h.provider hrole
      refine ⟨none, raws.map CapabilityTag.mk, ⟨hr.symm, fun hq => (by cases hq), fun _ => rfl⟩,
        ?_, fun hq => (by cases hq), fun _ => ⟨fun h0 => hne (List.map_eq_nil_iff.mp h0), ?_⟩⟩
      · rw [hc, CapabilityTag.map_asStr_mk]
        rfl
      · intro tag hm
        obtain ⟨s, hs, rfl⟩ := List.mem_map.mp hm
        exact htag s (hall s hs)
  exact ⟨⟨⟨bytes⟩, raw.role, req, claims, key⟩, NodeId.fromStr_eq_ok.mpr hid, rfl, hreq, hclaims, hkey⟩

/-- Acceptable entries make nodes, one each. -/
theorem exists_forall₂ {α β : Type} {R : α → β → Prop} {as : List α} (h : ∀ a ∈ as, ∃ b, R a b) :
    ∃ bs, List.Forall₂ R as bs := by
  induction as with
  | nil => exact ⟨[], .nil⟩
  | cons a as ih =>
    rw [List.forall_mem_cons] at h
    obtain ⟨b, hb⟩ := h.1
    obtain ⟨bs, hbs⟩ := ih h.2
    exact ⟨b :: bs, .cons hb hbs⟩

/-- Lists related entry by entry have as many entries of each kind. -/
theorem countP_of_forall₂ {α β : Type} {R : α → β → Prop} {p : α → Bool} {q : β → Bool} {as : List α} {bs : List β}
    (h : List.Forall₂ R as bs) (hpq : ∀ a b, R a b → p a = q b) : as.countP p = bs.countP q := by
  induction h with
  | nil => rfl
  | cons hab _ ih => rw [List.countP_cons, List.countP_cons, ih, hpq _ _ hab]

/-- The declared identifiers are distinct exactly when the nodes' are. -/
theorem ids_nodup_iff {raws : List NodeConfigRaw} {nodes : List NodeConfig} (h : List.Forall₂ NodeConfig.Of raws nodes) :
    (raws.map (·.id)).Nodup ↔ (nodes.map (·.id)).Nodup := by
  have hmap : raws.map (·.id) = (nodes.map (·.id)).map NodeId.toHex := by
    induction h with
    | nil => rfl
    | cons hab _ ih => rw [List.map_cons, List.map_cons, List.map_cons, ih, hab.id]
  rw [hmap]
  exact List.nodup_map_iff NodeId.toHex_injective

end ConfigAux

open ConfigAux

/-- **The topology validator.** A topology is loaded exactly when its declaration is acceptable, and then has its data. -/
theorem fromRaw_ok_iff (Γ : Crypto) (raw : TopologyConfigRaw) :
    ((∃ t, TopologyConfig.fromRaw Γ raw = .ok t) ↔ AcceptableTopology Γ raw) ∧
      ∀ t, TopologyConfig.fromRaw Γ raw = .ok t → t.Of raw := by
  have hset : ∀ s, CapabilityTag.mk s ∈ (raw.capabilityTags.map CapabilityTag.mk).toFinset ↔ s ∈ raw.capabilityTags := by
    intro s
    simp
  have hrole : ∀ (role : Role) (r : NodeConfigRaw) (n : NodeConfig), n.Of r →
      decide (r.role = role) = decide (n.role = role) := by
    intro role r n h
    rw [h.role]
  have hsound : ∀ t, TopologyConfig.fromRaw Γ raw = .ok t → AcceptableTopology Γ raw ∧ t.Of raw := by
    intro t ht
    obtain ⟨hversion, hv, htags, hall, hnd, hreq, hprov⟩ := TopologyConfig.fromRaw_eq_ok.mp ht
    obtain ⟨hne, hshape, hts⟩ := CapabilityTagSet.new_eq_ok.mp htags
    have hmem : ∀ s, CapabilityTag.mk s ∈ t.capabilityTags.tags ↔ s ∈ raw.capabilityTags := by
      rw [hts]
      exact hset
    have hof : List.Forall₂ NodeConfig.Of raw.nodes t.nodes := hall.imp (fun _ _ h => (acceptable_of_loads hmem h).2)
    refine ⟨⟨hversion, ⟨hne, hshape⟩, ?_, (ids_nodup_iff hof).mpr hnd, ?_, ?_⟩, hv, fun tag => hmem tag.asStr, hof⟩
    · intro r hr
      obtain ⟨n, hn⟩ := exists_of_forall₂ hall hr
      exact (acceptable_of_loads hmem hn).1
    · rw [countP_of_forall₂ hof (hrole .requester)]
      exact hreq
    · rw [← countP_of_forall₂ hof (hrole .provider)] at hprov
      obtain ⟨r, hr, hp⟩ := List.countP_pos_iff.mp (Nat.pos_of_ne_zero hprov)
      exact ⟨r, hr, by simpa using hp⟩
  refine ⟨⟨fun ⟨t, ht⟩ => (hsound t ht).1, ?_⟩, fun t ht => (hsound t ht).2⟩
  intro h
  obtain ⟨nodes, hnodes⟩ := exists_forall₂ (R := NodeConfigRaw.Loads Γ ⟨(raw.capabilityTags.map CapabilityTag.mk).toFinset⟩)
    (fun r hr => exists_loads hset h.tags.2 (h.nodes r hr))
  have hof : List.Forall₂ NodeConfig.Of raw.nodes nodes := hnodes.imp (fun _ _ hn => (acceptable_of_loads hset hn).2)
  refine ⟨⟨raw.version, _, nodes⟩, TopologyConfig.fromRaw_eq_ok.mpr ⟨h.version, rfl,
    CapabilityTagSet.new_eq_ok.mpr ⟨h.tags.1, h.tags.2, rfl⟩, hnodes, (ids_nodup_iff hof).mp h.distinct, ?_, ?_⟩⟩
  · rw [← countP_of_forall₂ hof (hrole .requester)]
    exact h.oneRequester
  · rw [← countP_of_forall₂ hof (hrole .provider)]
    obtain ⟨r, hr, hp⟩ := h.someProvider
    exact Nat.ne_of_gt (List.countP_pos_iff.mpr ⟨r, hr, by simpa using hp⟩)

end VertexVeil
