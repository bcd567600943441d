import VertexVeil.Lemmas.Config
import VertexVeil.PrivateIntents

/-!
# Helpers for the theorems about the private-intent loader

Which agents a list of entries gives, and when it gives any: the loop takes its entries one after the other.
-/

namespace VertexVeil

open Codec

variable {Γ : Crypto} {t : TopologyConfig} {raw : RawAgent} {raws : List RawAgent} {out agents : Agents} {id : NodeId}
  {a : AgentState}

/-- An entry gives one agent, of one node. -/
theorem RawAgent.Gives.unique {id' : NodeId} {a' : AgentState} (h : raw.Gives Γ t id a) (h' : raw.Gives Γ t id' a') :
    id' = id ∧ a' = a := by
  obtain rfl : id' = id := Except.ok.inj (h'.parses.symm.trans h.parses)
  obtain ⟨node, seed, hnode, -, hseed, ha⟩ := h.agent
  obtain ⟨node', seed', hnode', -, hseed', ha'⟩ := h'.agent
  obtain rfl : node' = node := Option.some.inj (hnode'.symm.trans hnode)
  obtain rfl : seed' = seed := Except.ok.inj (hseed'.symm.trans hseed)
  exact ⟨rfl, Except.ok.inj (ha'.symm.trans ha)⟩

/-- The agents that the loop returns are those it started with and those its entries give. -/
theorem getElem?_of_loadAgents (h : loadAgents Γ t raws out = .ok agents) :
    agents[id]? = some a ↔ out[id]? = some a ∨ ∃ raw ∈ raws, raw.Gives Γ t id a := by
  induction raws generalizing out with
  | nil =>
    obtain rfl := Except.ok.inj h
    simp
  | cons raw raws ih =>
    obtain ⟨k, b, hgives, hk, h⟩ := loadAgents_cons_eq_ok.mp h
    rw [ih h, Std.TreeMap.getElem?_insert, List.exists_mem_cons_iff, ← or_assoc]
    refine or_congr_left ?_
    split
    · rename_i he
      obtain rfl : k = id := compare_eq_iff_eq.mp he
      have hnone : out[k]? = none := Std.TreeMap.getElem?_eq_none hk
      rw [hnone, Option.some.injEq]
      constructor
      · rintro rfl
        exact Or.inr hgives
      · rintro (h0 | h')
        · simp at h0
        · exact (hgives.unique h').2.symm
    · rename_i hne
      refine (or_iff_left ?_).symm
      intro h'
      exact hne (compare_eq_iff_eq.mpr (hgives.unique h').1.symm)

/-- Entries that give agents give them to one node exactly when they name one node. -/
theorem RawAgent.Gives.node_eq_iff {raw' : RawAgent} {id' : NodeId} {a' : AgentState} (h : raw.Gives Γ t id a)
    (h' : raw'.Gives Γ t id' a') : raw'.node = raw.node ↔ id' = id := by
  rw [NodeId.fromStr_eq_ok.mp h.parses, NodeId.fromStr_eq_ok.mp h'.parses]
  exact NodeId.toHex_injective.eq_iff

/-- Entries load exactly when each gives an agent and no two name one node. -/
theorem loadAgents_isOk_iff : (∃ agents, loadAgents Γ t raws out = .ok agents) ↔
    (∀ raw ∈ raws, ∃ id a, raw.Gives Γ t id a ∧ id ∉ out) ∧ (raws.map (·.node)).Nodup := by
  induction raws generalizing out with
  | nil => simp [loadAgents]
  | cons raw raws ih =>
    rw [List.forall_mem_cons, List.map_cons, List.nodup_cons]
    constructor
    · rintro ⟨agents, h⟩
      obtain ⟨id, a, hgives, hid, h⟩ := loadAgents_cons_eq_ok.mp h
      obtain ⟨hall, hnd⟩ := ih.mp ⟨agents, h⟩
      refine ⟨⟨⟨id, a, hgives, hid⟩, ?_⟩, ?_, hnd⟩
      · intro raw' hraw'
        obtain ⟨id', a', hgives', hid'⟩ := hall raw' hraw'
        exact ⟨id', a', hgives', fun hm => hid' (Std.TreeMap.mem_insert.mpr (Or.inr hm))⟩
      · intro hm
        obtain ⟨raw', hraw', hnode⟩ := List.mem_map.mp hm
        obtain ⟨id', a', hgives', hid'⟩ := hall raw' hraw'
        obtain rfl := (hgives.node_eq_iff hgives').mp hnode
        exact hid' (Std.TreeMap.mem_insert.mpr (Or.inl (compare_eq_iff_eq.mpr rfl)))
    · rintro ⟨⟨⟨id, a, hgives, hid⟩, hall⟩, hfresh, hnd⟩
      have hrest : ∀ raw' ∈ raws, ∃ id' a', raw'.Gives Γ t id' a' ∧ id' ∉ out.insert id a := by
        intro raw' hraw'
        obtain ⟨id', a', hgives', hid'⟩ := hall raw' hraw'
        refine ⟨id', a', hgives', ?_⟩
        intro hm
        rcases Std.TreeMap.mem_insert.mp hm with he | hm
        · have hsame : id' = id := (compare_eq_iff_eq.mp he).symm
          exact hfresh (List.mem_map.mpr ⟨raw', hraw', (hgives.node_eq_iff hgives').mpr hsame⟩)
        · exact hid' hm
      obtain ⟨agents, h⟩ := ih.mpr ⟨hrest, hnd⟩
      exact ⟨agents, loadAgents_cons_eq_ok.mpr ⟨id, a, hgives, hid, h⟩⟩

/-- The entries of a loaded bundle give agents, and name each node once. -/
theorem LoadedAgents.entries (L : LoadedAgents Γ t) :
    (∀ raw ∈ L.bundle.agents, ∃ id a, raw.Gives Γ t id a) ∧ (L.bundle.agents.map (·.node)).Nodup := by
  obtain ⟨hall, hnd⟩ := loadAgents_isOk_iff.mp ⟨_, (agentsFromBundle_eq_ok.mp L.loaded).2.1⟩
  refine ⟨?_, hnd⟩
  intro raw hraw
  obtain ⟨id, a, hgives, -⟩ := hall raw hraw
  exact ⟨id, a, hgives⟩

/-- The agents of a loaded bundle are those its entries give. -/
theorem LoadedAgents.getElem?_iff (L : LoadedAgents Γ t) :
    L.agents[id]? = some a ↔ ∃ raw ∈ L.bundle.agents, raw.Gives Γ t id a := by
  rw [getElem?_of_loadAgents (agentsFromBundle_eq_ok.mp L.loaded).2.1]
  simp

end VertexVeil
