import Mathlib.Order.Interval.Finset.Nat
import VertexVeil.Fixtures
import VertexVeil.Lemmas.Archive
import VertexVeil.Lemmas.Verifier

/-!
# The rotation of proposers

Every provider has its turn once in as many rounds as there are providers, whatever the order of the file and whichever of the
two entry points derives the proposer.
-/

namespace VertexVeil

open Codec RoundMachine

/-! ## The rotation is fair -/

/-- The number of providers of a topology. -/
def TopologyConfig.providerCount (t : TopologyConfig) : Nat := t.nodes.countP (fun n => n.role = .provider)

namespace RotationAux

variable {Γ : Crypto} {t t' : TopologyConfig}

/-- The rotation goes over the providers, all of them and no others. -/
theorem length_providersStable (t : TopologyConfig) : t.providersStable.length = t.providerCount := by
  rw [TopologyConfig.providersStable, List.length_map, TopologyConfig.providersStableOrder, List.length_insertionSort,
    TopologyConfig.providerCount, List.countP_eq_length_filter]

/-- Among as many rounds in a row as there are places in the rotation, exactly one has a given place. -/
theorem existsUnique_round {k i : Nat} (hi : i < k) {r : RoundId} (hr : r.toNat + k ≤ 2 ^ 64) :
    ∃! q : RoundId, (r.toNat ≤ q.toNat ∧ q.toNat < r.toNat + k) ∧ q.toNat % k = i := by
  have himage : i ∈ (Finset.Ico r.toNat (r.toNat + k)).image (· % k) := by
    rw [Nat.image_Ico_mod]
    exact Finset.mem_range.mpr hi
  obtain ⟨q, hq, hmod⟩ := Finset.mem_image.mp himage
  have hlt : q < 2 ^ 64 := lt_of_lt_of_le (Finset.mem_Ico.mp hq).2 hr
  have hqn : (UInt64.ofNat q).toNat = q := UInt64.toNat_ofNat_of_lt' hlt
  refine ⟨UInt64.ofNat q, ⟨?_, ?_⟩, ?_⟩
  · rw [hqn]
    exact Finset.mem_Ico.mp hq
  · rw [hqn]
    exact hmod
  · intro q' h
    obtain ⟨hin, hmod'⟩ := h
    rw [← UInt64.toNat_inj, hqn]
    exact Nat.mod_injOn_Ico r.toNat k (Finset.mem_coe.mpr (Finset.mem_Ico.mpr hin)) (Finset.mem_coe.mpr hq)
      (hmod'.trans hmod.symm)

/-- A provider has one place in the rotation, and proposes in the rounds that come to it. -/
theorem exists_place (ht : t.WellFormed Γ) {n : NodeConfig} (hn : n ∈ t.nodes) (hrole : n.role = .provider) :
    ∃ i < t.providerCount, ∀ q, deterministicProposer t q = .ok n.id ↔ q.toNat % t.providerCount = i := by
  have hmem : n.id ∈ t.providersStable :=
    List.mem_map.mpr ⟨n, TopologyConfig.mem_providersStableOrder.mpr ⟨hn, hrole⟩, rfl⟩
  have hnd : t.providersStable.Nodup := ht.providers_nodup
  obtain ⟨i, hi, hget⟩ := List.getElem_of_mem hmem
  refine ⟨i, (length_providersStable t) ▸ hi, fun q => ?_⟩
  have hq : q.toNat % t.providersStable.length < t.providersStable.length := Nat.mod_lt _ (Nat.zero_lt_of_lt hi)
  rw [VerifierAux.deterministicProposer_iff ht, List.getElem?_eq_getElem hq, Option.some.injEq, ← hget,
    hnd.getElem_inj_iff, length_providersStable]

/-- The providers in key order do not depend on the order in which the nodes are listed. -/
theorem providersStable_congr (h : t'.nodes.Perm t.nodes) : t'.providersStable = t.providersStable := by
  have hsorted : ∀ u : TopologyConfig, u.providersStable =
      ((u.nodes.filter (fun n => n.role = .provider)).map (·.id)).insertionSort (· ≤ ·) := by
    intro u
    exact List.map_insertionSort _ (· ≤ ·) _ _ (fun _ _ _ _ => Iff.rfl)
  rw [hsorted, hsorted]
  refine List.Perm.eq_of_pairwise' (r := (· ≤ ·)) (List.pairwise_insertionSort _ _) (List.pairwise_insertionSort _ _) ?_
  exact (List.perm_insertionSort _ _).trans (((h.filter _).map _).trans (List.perm_insertionSort _ _).symm)

end RotationAux

open RotationAux

/-- **Fair rotation.** In a loaded topology every round has a proposer, and a machine of the topology, such as every reachable
one, has the same at its round. Each provider proposes in exactly one of any `k` rounds in a row, `k` being the number of
providers, and a topology that lists the same nodes in another order has the same proposers. -/
theorem proposer_rotation {Γ : Crypto} (T : LoadedTopology Γ) :
    (∀ round, ∃ p, deterministicProposer T.config round = .ok p ∧
      ∀ m : RoundMachine, m.topology = T.config → m.current = round → m.currentProposer = .ok p) ∧
    (∀ m, (machine T.config).Reachable m → m.topology = T.config) ∧
    (∀ r : RoundId, r.toNat + T.config.providerCount ≤ 2 ^ 64 → ∀ n ∈ T.config.nodes, n.role = .provider →
      ∃! q : RoundId, (r.toNat ≤ q.toNat ∧ q.toNat < r.toNat + T.config.providerCount) ∧
        deterministicProposer T.config q = .ok n.id) ∧
    ∀ T' : LoadedTopology Γ, T'.config.nodes.Perm T.config.nodes →
      ∀ round, deterministicProposer T'.config round = deterministicProposer T.config round := by
  refine ⟨fun round => ?_, fun m hm => (inv_of_reachable hm).topology, fun r hr n hn hrole => ?_, fun T' hperm round => ?_⟩
  · obtain ⟨p, -, hp⟩ := T.wellFormed.deterministicProposer_eq round
    refine ⟨p, hp, fun m ht hc => ?_⟩
    rw [currentProposer_eq_ok, ht, hc]
    exact hp
  · obtain ⟨i, hi, hplace⟩ := exists_place T.wellFormed hn hrole
    simp only [hplace]
    exact existsUnique_round hi hr
  · rw [deterministicProposer, deterministicProposer, providersStable_congr hperm]

/-- Each provider of the sample topology proposes once in the last three rounds. -/
theorem proposer_rotation_sample : ∀ n ∈ Sample.topology.config.nodes, n.role = .provider →
    ∃! q : RoundId, (2 ^ 64 - 3 ≤ q.toNat ∧ q.toNat < 2 ^ 64) ∧ deterministicProposer Sample.topology.config q = .ok n.id := by
  have hk : Sample.topology.config.providerCount = 3 := by decide
  have hr : (UInt64.ofNat (2 ^ 64 - 3)).toNat = 2 ^ 64 - 3 := by decide
  have h := (proposer_rotation Sample.topology).2.2.1 (UInt64.ofNat (2 ^ 64 - 3)) (by rw [hk, hr]; decide)
  rw [hk, hr] at h
  exact h

end VertexVeil
