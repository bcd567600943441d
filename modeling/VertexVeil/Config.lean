import Mathlib.Data.List.Sort
import VertexVeil.Signing

/-!
# Topology configuration

A topology lists the nodes of a run: one requester and at least one provider. `TopologyConfig.fromRaw` is the load-time
validation, from what the TOML parser yields; a `LoadedTopology` is a topology with the proof that it passed. What later
modules need of a loaded topology is `TopologyConfig.WellFormed`.
-/

namespace VertexVeil

open Codec

/-- A node as parsed from TOML, before cross-field validation. -/
structure NodeConfigRaw where
  id : Text
  role : Role
  requiredCapability : Option Text
  capabilityClaims : Option (List Text)
  signingPublicKey : Option Text

/-- A validated node. -/
structure NodeConfig where
  id : NodeId
  role : Role
  requiredCapability : Option CapabilityTag
  capabilityClaims : List CapabilityTag
  signingPublicKey : Option SigningPublicKey
  deriving DecidableEq

/-- A topology as parsed from TOML. -/
structure TopologyConfigRaw where
  version : UInt32
  capabilityTags : List Text
  nodes : List NodeConfigRaw

/-- A topology. -/
structure TopologyConfig where
  version : UInt32
  capabilityTags : CapabilityTagSet
  nodes : List NodeConfig
  deriving DecidableEq

/-- The required capability of a node: a requester declares one, a provider none. -/
def NodeConfigRaw.requiredCapabilityIn (tags : CapabilityTagSet) (raw : NodeConfigRaw) :
    Except ConfigError (Option CapabilityTag) :=
  match raw.role, raw.requiredCapability with
  | .requester, some rawTag => do
    let tag ← tags.normalize rawTag
    return some tag
  | .requester, none => .error (.missingField "required_capability")
  | .provider, some _ => .error (.invalidTopology .providerRequiredCapability)
  | .provider, none => .ok none

/-- Normalize the claims of a provider, one after the other. -/
def CapabilityTagSet.normalizeAll (tags : CapabilityTagSet) : List Text → Except ConfigError (List CapabilityTag)
  | [] => .ok []
  | rawTag :: raws => do
    let tag ← tags.normalize rawTag
    let out ← tags.normalizeAll raws
    return tag :: out

/-- The capability claims of a node: a provider declares at least one, a requester none. -/
def NodeConfigRaw.capabilityClaimsIn (tags : CapabilityTagSet) (raw : NodeConfigRaw) :
    Except ConfigError (List CapabilityTag) :=
  match raw.role, raw.capabilityClaims with
  | .provider, some raws =>
    if raws = [] then .error (.invalidTopology .emptyCapabilityClaims) else tags.normalizeAll raws
  | .provider, none => .error (.missingField "capability_claims")
  | .requester, some _ => .error (.invalidTopology .requesterCapabilityClaims)
  | .requester, none => .ok []

/-- The signing key of a node, if it gives one. -/
def NodeConfigRaw.signingPublicKeyOf (Γ : Crypto) (id : NodeId) (raw : NodeConfigRaw) :
    Except ConfigError (Option SigningPublicKey) :=
  match raw.signingPublicKey with
  | none => .ok none
  | some hex =>
    match SigningPublicKey.fromHex Γ hex with
    | .error _ => .error (.invalidTopology (.invalidSigningPublicKey id.toHex))
    | .ok pk => .ok (some pk)

/-- The loop over the nodes: identifiers are parsed and kept distinct, the role's fields checked, the key parsed. -/
def TopologyConfig.nodesFromRaw (Γ : Crypto) (tags : CapabilityTagSet) :
    List NodeConfigRaw → Finset NodeId → Except ConfigError (List NodeConfig)
  | [], _ => .ok []
  | raw :: raws, seen => do
    let id ← NodeId.fromStr raw.id
    if id ∈ seen then .error (.duplicateNodeId id.toHex) else
      let requiredCapability ← raw.requiredCapabilityIn tags
      let capabilityClaims ← raw.capabilityClaimsIn tags
      let signingPublicKey ← raw.signingPublicKeyOf Γ id
      let nodes ← nodesFromRaw Γ tags raws (insert id seen)
      return { id, role := raw.role, requiredCapability, capabilityClaims, signingPublicKey } :: nodes

/-- Load-time validation of a topology. -/
def TopologyConfig.fromRaw (Γ : Crypto) (raw : TopologyConfigRaw) : Except ConfigError TopologyConfig :=
  if raw.version ≠ 1 then .error (.invalidTopology (.unsupportedVersion raw.version)) else do
    let capabilityTags ← CapabilityTagSet.new raw.capabilityTags
    if raw.nodes = [] then .error (.invalidTopology .emptyNodes) else
      let nodes ← nodesFromRaw Γ capabilityTags raw.nodes ∅
      let requesterCount := nodes.countP (fun n => n.role = .requester)
      let providerCount := nodes.countP (fun n => n.role = .provider)
      if requesterCount ≠ 1 then .error (.invalidTopology (.requesterCount requesterCount))
      else if providerCount = 0 then .error .emptyProviderList
      else return { version := raw.version, capabilityTags, nodes }

namespace TopologyConfig

/-- The node with an identifier, the first in file order. -/
def findNode (t : TopologyConfig) (id : NodeId) : Option NodeConfig :=
  t.nodes.find? (fun n => n.id = id)

/-- The requester node. `none` is the failed `expect`: a loaded topology has one. -/
def requester (t : TopologyConfig) : Option NodeConfig :=
  t.nodes.find? (fun n => n.role = .requester)

/-- The providers in stable key order: filtered, then sorted by identifier (a stable sort). -/
def providersStableOrder (t : TopologyConfig) : List NodeConfig :=
  (t.nodes.filter (fun n => n.role = .provider)).insertionSort (fun a b => a.id ≤ b.id)

/-- What load-time validation establishes. -/
structure WellFormed (Γ : Crypto) (t : TopologyConfig) : Prop where
  nodup : (t.nodes.map (·.id)).Nodup
  oneRequester : t.nodes.countP (fun n => n.role = .requester) = 1
  someProvider : t.nodes.countP (fun n => n.role = .provider) ≠ 0
  required : ∀ n ∈ t.nodes, n.role = .requester →
    ∃ tag ∈ t.capabilityTags.tags, n.requiredCapability = some tag ∧ tag.asStr ≠ []
  claims : ∀ n ∈ t.nodes, n.role = .provider → n.capabilityClaims ≠ [] ∧
    ∀ tag ∈ n.capabilityClaims, tag ∈ t.capabilityTags.tags ∧ tag.asStr ≠ []
  keys : ∀ n ∈ t.nodes, ∀ pk, n.signingPublicKey = some pk → Γ.isVerifyingKey pk = true

end TopologyConfig

/-! ## What the loader accepts is well-formed -/

/-- A step of a computation that succeeds succeeds, and so does the rest. -/
theorem Except.bind_eq_ok {ε α β : Type} {x : Except ε α} {f : α → Except ε β} {b : β} (h : x >>= f = .ok b) :
    ∃ a, x = .ok a ∧ f a = .ok b := by
  cases x with
  | error e => cases h
  | ok a => exact ⟨a, rfl, h⟩

theorem CapabilityTagSet.normalizeAll_ok {tags : CapabilityTagSet} {raws : List Text} {out : List CapabilityTag}
    (h : tags.normalizeAll raws = .ok out) :
    out.length = raws.length ∧ ∀ tag ∈ out, tag ∈ tags.tags ∧ tag.asStr ≠ [] := by
  induction raws generalizing out with
  | nil =>
    simp only [normalizeAll, Except.ok.injEq] at h
    subst h
    simp
  | cons raw raws ih =>
    obtain ⟨tag, ht, h⟩ := Except.bind_eq_ok h
    obtain ⟨rest, hr, h⟩ := Except.bind_eq_ok h
    simp only [pure, Except.pure, Except.ok.injEq] at h
    subst h
    obtain ⟨hl, hm⟩ := ih hr
    refine ⟨by simp [hl], ?_⟩
    intro x hx
    rcases List.mem_cons.mp hx with rfl | hx
    · exact ⟨(normalize_ok ht).1, (normalize_ok ht).2.2⟩
    · exact hm x hx

/-- What the loop over the nodes establishes of each node it accepts. -/
structure NodeConfig.Valid (Γ : Crypto) (tags : CapabilityTagSet) (n : NodeConfig) : Prop where
  required : n.role = .requester → ∃ tag ∈ tags.tags, n.requiredCapability = some tag ∧ tag.asStr ≠ []
  claims : n.role = .provider → n.capabilityClaims ≠ [] ∧
    ∀ tag ∈ n.capabilityClaims, tag ∈ tags.tags ∧ tag.asStr ≠ []
  keys : ∀ pk, n.signingPublicKey = some pk → Γ.isVerifyingKey pk = true

theorem NodeConfigRaw.requiredCapabilityIn_ok {tags : CapabilityTagSet} {raw : NodeConfigRaw}
    {out : Option CapabilityTag} (h : raw.requiredCapabilityIn tags = .ok out) (hr : raw.role = .requester) :
    ∃ tag ∈ tags.tags, out = some tag ∧ tag.asStr ≠ [] := by
  unfold requiredCapabilityIn at h
  rw [hr] at h
  cases hc : raw.requiredCapability with
  | none => simp [hc] at h
  | some rawTag =>
    simp only [hc] at h
    obtain ⟨tag, ht, h⟩ := Except.bind_eq_ok h
    simp only [pure, Except.pure, Except.ok.injEq] at h
    obtain ⟨hm, -, hne⟩ := CapabilityTagSet.normalize_ok ht
    exact ⟨tag, hm, h.symm, hne⟩

theorem NodeConfigRaw.capabilityClaimsIn_ok {tags : CapabilityTagSet} {raw : NodeConfigRaw}
    {out : List CapabilityTag} (h : raw.capabilityClaimsIn tags = .ok out) (hr : raw.role = .provider) :
    out ≠ [] ∧ ∀ tag ∈ out, tag ∈ tags.tags ∧ tag.asStr ≠ [] := by
  unfold capabilityClaimsIn at h
  rw [hr] at h
  cases hc : raw.capabilityClaims with
  | none => simp [hc] at h
  | some raws =>
    simp only [hc] at h
    split at h
    · cases h
    · rename_i hne
      obtain ⟨hl, hm⟩ := CapabilityTagSet.normalizeAll_ok h
      refine ⟨fun h0 => hne (List.length_eq_zero_iff.mp ?_), hm⟩
      rw [← hl, h0, List.length_nil]

theorem NodeConfigRaw.signingPublicKeyOf_ok {Γ : Crypto} {id : NodeId} {raw : NodeConfigRaw}
    {out : Option SigningPublicKey} (h : raw.signingPublicKeyOf Γ id = .ok out) :
    ∀ pk, out = some pk → Γ.isVerifyingKey pk = true := by
  rintro pk rfl
  unfold signingPublicKeyOf at h
  split at h
  · cases h
  · split at h
    · cases h
    · rename_i hk
      simp only [Except.ok.injEq, Option.some.injEq] at h
      subst h
      exact SigningPublicKey.fromHex_ok hk

namespace TopologyConfig

/-- The nodes the loop returns are valid, distinct, and distinct from those seen before. -/
theorem nodesFromRaw_ok {Γ : Crypto} {tags : CapabilityTagSet} {raws : List NodeConfigRaw} {seen : Finset NodeId}
    {nodes : List NodeConfig} (h : nodesFromRaw Γ tags raws seen = .ok nodes) :
    (nodes.map (·.id)).Nodup ∧ (∀ n ∈ nodes, n.id ∉ seen) ∧ ∀ n ∈ nodes, n.Valid Γ tags := by
  induction raws generalizing seen nodes with
  | nil =>
    simp only [nodesFromRaw, Except.ok.injEq] at h
    subst h
    simp
  | cons raw raws ih =>
    obtain ⟨id, -, h⟩ := Except.bind_eq_ok h
    split at h
    · cases h
    · rename_i hid
      obtain ⟨req, hreq, h⟩ := Except.bind_eq_ok h
      obtain ⟨claims, hclaims, h⟩ := Except.bind_eq_ok h
      obtain ⟨key, hkey, h⟩ := Except.bind_eq_ok h
      obtain ⟨rest, hrest, h⟩ := Except.bind_eq_ok h
      simp only [pure, Except.pure, Except.ok.injEq] at h
      subst h
      obtain ⟨hnd, hseen, hval⟩ := ih hrest
      refine ⟨?_, ?_, ?_⟩
      · rw [List.map_cons, List.nodup_cons]
        refine ⟨fun hm => ?_, hnd⟩
        obtain ⟨n, hn, he⟩ := List.mem_map.mp hm
        exact hseen n hn (he ▸ Finset.mem_insert_self _ _)
      · intro n hn
        rcases List.mem_cons.mp hn with rfl | hn
        · exact hid
        · exact fun hm => hseen n hn (Finset.mem_insert_of_mem hm)
      · intro n hn
        rcases List.mem_cons.mp hn with rfl | hn
        · exact ⟨NodeConfigRaw.requiredCapabilityIn_ok hreq, NodeConfigRaw.capabilityClaimsIn_ok hclaims,
            NodeConfigRaw.signingPublicKeyOf_ok hkey⟩
        · exact hval n hn

/-- Every topology the loader accepts is well-formed. -/
theorem fromRaw_wellFormed {Γ : Crypto} {raw : TopologyConfigRaw} {t : TopologyConfig} (h : fromRaw Γ raw = .ok t) :
    t.WellFormed Γ := by
  unfold fromRaw at h
  split at h
  · cases h
  · obtain ⟨tags, -, h⟩ := Except.bind_eq_ok h
    split at h
    · cases h
    · obtain ⟨nodes, hn, h⟩ := Except.bind_eq_ok h
      dsimp only at h
      split at h
      · cases h
      · rename_i hreq
        split at h
        · cases h
        · rename_i hprov
          simp only [pure, Except.pure, Except.ok.injEq] at h
          subst h
          obtain ⟨hnd, -, hval⟩ := nodesFromRaw_ok hn
          exact ⟨hnd, not_not.mp hreq, hprov, fun n hm => (hval n hm).required, fun n hm => (hval n hm).claims,
            fun n hm => (hval n hm).keys⟩

end TopologyConfig

/-- A topology that load-time validation accepted. -/
structure LoadedTopology (Γ : Crypto) where
  raw : TopologyConfigRaw
  config : TopologyConfig
  loaded : TopologyConfig.fromRaw Γ raw = .ok config

theorem LoadedTopology.wellFormed {Γ : Crypto} (t : LoadedTopology Γ) : t.config.WellFormed Γ :=
  TopologyConfig.fromRaw_wellFormed t.loaded

/-! ## Looking up nodes -/

namespace TopologyConfig

variable {Γ : Crypto} {t : TopologyConfig}

theorem findNode_some {id : NodeId} {n : NodeConfig} (h : t.findNode id = some n) : n ∈ t.nodes ∧ n.id = id :=
  ⟨List.mem_of_find?_eq_some h, by simpa using List.find?_some h⟩

/-- In a well-formed topology a node is found under its identifier. -/
theorem WellFormed.findNode_self (h : t.WellFormed Γ) {n : NodeConfig} (hn : n ∈ t.nodes) :
    t.findNode n.id = some n := by
  obtain ⟨m, hm⟩ : ∃ m, t.findNode n.id = some m := by
    rw [← Option.isSome_iff_exists, findNode, List.find?_isSome]
    exact ⟨n, hn, by simp⟩
  obtain ⟨hmem, hid⟩ := findNode_some hm
  rw [hm, Option.some.injEq]
  exact List.inj_on_of_nodup_map h.nodup hmem hn hid

/-- In a well-formed topology two nodes with the same identifier are the same. -/
theorem WellFormed.node_eq (h : t.WellFormed Γ) {n m : NodeConfig} (hn : n ∈ t.nodes) (hm : m ∈ t.nodes)
    (he : n.id = m.id) : n = m :=
  List.inj_on_of_nodup_map h.nodup hn hm he

/-- A well-formed topology has a requester, and every node in the requester role is that one. -/
theorem WellFormed.requester_unique (h : t.WellFormed Γ) :
    ∃ n, t.requester = some n ∧ n ∈ t.nodes ∧ n.role = .requester ∧ ∀ m ∈ t.nodes, m.role = .requester → m = n := by
  have hc := h.oneRequester
  rw [List.countP_eq_length_filter, List.length_eq_one_iff] at hc
  obtain ⟨n, hn⟩ := hc
  have hall : ∀ m, m ∈ t.nodes ∧ m.role = .requester ↔ m = n := by
    intro m
    have : m ∈ t.nodes.filter (fun n => n.role = .requester) ↔ m = n := by rw [hn, List.mem_singleton]
    simpa using this
  obtain ⟨hmem, hrole⟩ := (hall n).mpr rfl
  have hs : t.requester.isSome := by
    rw [requester, List.find?_isSome]
    exact ⟨n, hmem, by simpa using hrole⟩
  obtain ⟨m, hm⟩ := Option.isSome_iff_exists.mp hs
  have hmn : m = n := (hall m).mp ⟨List.mem_of_find?_eq_some hm, by simpa using List.find?_some hm⟩
  exact ⟨n, hmn ▸ hm, hmem, hrole, fun k hk hr => (hall k).mp ⟨hk, hr⟩⟩

/-- The sorted provider list holds the providers. -/
theorem mem_providersStableOrder {n : NodeConfig} :
    n ∈ t.providersStableOrder ↔ n ∈ t.nodes ∧ n.role = .provider := by
  simp [providersStableOrder, List.mem_insertionSort]

/-- The identifiers of the sorted providers are distinct. -/
theorem WellFormed.providers_nodup (h : t.WellFormed Γ) : (t.providersStableOrder.map (·.id)).Nodup := by
  have hp := (List.perm_insertionSort (fun a b : NodeConfig => a.id ≤ b.id)
    (t.nodes.filter (fun n => n.role = .provider))).map (·.id)
  rw [providersStableOrder, hp.nodup_iff]
  exact h.nodup.sublist (List.filter_sublist.map _)

/-- A well-formed topology has a provider. -/
theorem WellFormed.providers_ne_nil (h : t.WellFormed Γ) : t.providersStableOrder ≠ [] := by
  intro h0
  apply h.someProvider
  rw [List.countP_eq_zero]
  intro n hn hr
  have : n ∈ t.providersStableOrder := mem_providersStableOrder.mpr ⟨hn, by simpa using hr⟩
  rw [h0] at this
  exact List.not_mem_nil this

end TopologyConfig

end VertexVeil
