import VertexVeil.Fixtures
import VertexVeil.Lemmas.Panics
import VertexVeil.Lemmas.PrivateIntents
import VertexVeil.Redaction

/-!
# Panics of the private-intent loader

The loader runs its checks entry by entry, so it panics at the first entry whose name cannot be shown, if it comes to one.
-/

namespace VertexVeil

open Codec

/-! ## On which texts the loader panics -/

/-- Byte `n` of the text lies inside a character. -/
def Straddles (s : Text) (n : Nat) : Prop :=
  ∃ before c after, s = before ++ c :: after ∧ utf8Len before < n ∧ n < utf8Len before + c.utf8Size

/-- The loader comes to an entry, past entries that it takes, whose name has its twelfth byte inside a character. -/
def ReachesStraddling (Γ : Crypto) (t : TopologyConfig) (bundle : RawBundle) : Prop :=
  bundle.version = 1 ∧ ∃ before raw after, bundle.agents = before ++ raw :: after ∧
    (∀ e ∈ before, ∃ id a, e.Gives Γ t id a) ∧ (before.map (·.node)).Nodup ∧ Straddles (trim raw.node) 12

namespace LoaderPanicsAux

variable {Γ : Crypto} {t : TopologyConfig} {raw : RawAgent} {raws : List RawAgent} {out : Agents}

theorem straddles_cons {c : Char} {s : Text} {n : Nat} :
    Straddles (c :: s) n ↔ 0 < n ∧ (n < c.utf8Size ∨ c.utf8Size ≤ n ∧ Straddles s (n - c.utf8Size)) := by
  constructor
  · intro h
    obtain ⟨before, d, after, he, hlt, hgt⟩ := h
    refine ⟨by omega, ?_⟩
    cases before with
    | nil =>
      obtain ⟨rfl, rfl⟩ := List.cons.inj he
      exact Or.inl (by rw [show utf8Len [] = 0 from rfl] at hgt; omega)
    | cons b before =>
      obtain ⟨rfl, rfl⟩ := List.cons.inj he
      rw [utf8Len_cons] at hlt hgt
      exact Or.inr ⟨by omega, before, d, after, rfl, by omega, by omega⟩
  · intro h
    obtain ⟨hpos, hlt | ⟨hle, before, d, after, rfl, hlt, hgt⟩⟩ := h
    · exact ⟨[], c, s, rfl, hpos, by rw [show utf8Len [] = 0 from rfl]; omega⟩
    · refine ⟨c :: before, d, after, rfl, ?_, ?_⟩
      · rw [utf8Len_cons]
        omega
      · rw [utf8Len_cons]
        omega

/-- A slice fails past the end of the text, and inside a character. -/
theorem sliceTo_eq_none {s : Text} {n : Nat} : sliceTo s n = none ↔ utf8Len s < n ∨ Straddles s n := by
  induction s generalizing n with
  | nil =>
    have hnot : ¬ Straddles [] n := by
      intro h
      obtain ⟨before, c, after, he, -⟩ := h
      simp at he
    rw [or_iff_left hnot, show utf8Len [] = 0 from rfl, sliceTo]
    split
    · simp_all
    · exact iff_of_true rfl (by omega)
  | cons c s ih =>
    rw [straddles_cons, utf8Len_cons, sliceTo]
    split
    · rename_i h0
      simp [h0]
    · split
      · rename_i h0 hle
        rw [Option.map_eq_none_iff, ih]
        constructor
        · rintro (hlt | hs)
          · exact Or.inl (by omega)
          · exact Or.inr ⟨by omega, Or.inr ⟨hle, hs⟩⟩
        · rintro (hlt | ⟨-, hlt | ⟨-, hs⟩⟩)
          · exact Or.inl (by omega)
          · omega
          · exact Or.inr hs
      · rename_i h0 hlt
        exact iff_of_true rfl (Or.inr ⟨by omega, Or.inl (by omega)⟩)

/-- A byte inside a character is inside the text. -/
theorem lt_utf8Len {s : Text} {n : Nat} (h : Straddles s n) : n < utf8Len s := by
  induction s generalizing n with
  | nil =>
    obtain ⟨before, c, after, he, -⟩ := h
    simp at he
  | cons c s ih =>
    rw [utf8Len_cons]
    obtain ⟨-, hlt | ⟨hle, hs⟩⟩ := straddles_cons.mp h
    · omega
    · have hrest := ih hs
      omega

/-- What straddles a byte is no ASCII. -/
theorem exists_wide {s : Text} {n : Nat} (h : Straddles s n) : ∃ c ∈ s, 1 < c.utf8Size := by
  obtain ⟨before, c, after, rfl, hlt, hgt⟩ := h
  exact ⟨c, by simp, by omega⟩

theorem mem_of_mem_trim {s : Text} {c : Char} (h : c ∈ trim s) : c ∈ s := by
  unfold trim at h
  rw [List.mem_reverse] at h
  have h₁ := (List.dropWhile_sublist _).subset h
  rw [List.mem_reverse] at h₁
  exact (List.dropWhile_sublist _).subset h₁

/-- What is shown of a name panics exactly when its twelfth byte is inside a character. -/
theorem noPanic_redactTail {s : Text} : NoPanic (redactTail s) ↔ ¬ Straddles (trim s) 12 := by
  unfold redactTail
  dsimp only
  split
  · rename_i hle
    refine iff_of_true (.ok _) ?_
    intro hs
    have hlong := lt_utf8Len hs
    omega
  · rename_i hlong
    split
    · rename_i hnone
      refine iff_of_false (fun h => h _ rfl) (not_not.mpr ?_)
      exact (sliceTo_eq_none.mp hnone).resolve_left (by omega)
    · rename_i shown hshown
      refine iff_of_true (.ok _) ?_
      intro hs
      rw [sliceTo_eq_none.mpr (Or.inr hs)] at hshown
      simp at hshown

/-- The name of a node is hexadecimal. -/
theorem not_straddles_of_fromStr {s : Text} {id : NodeId} (h : NodeId.fromStr s = .ok id) (n : Nat) :
    ¬ Straddles (trim s) n := by
  intro hs
  obtain ⟨c, hc, hwide⟩ := exists_wide hs
  have hlower : s.all isLowerHexDigit = true := by
    rw [NodeId.fromStr_eq_ok.mp h]
    exact (hexEncode_plain id.bytes.toList).1
  have hsize := utf8Size_of_lower (List.all_eq_true.mp hlower c (mem_of_mem_trim hc))
  omega

theorem noPanic_seedFor (raw : RawAgent) (node : NodeConfig) : NoPanic (raw.seedFor Γ node) := by
  unfold RawAgent.seedFor
  split
  · exact .ok _
  · split
    · exact .error _
    · split
      · split
        · exact .error _
        · exact .ok _
      · exact .ok _

theorem noPanic_parseClaims (id : NodeId) (claims : List Text) : NoPanic (parseClaims id claims) := by
  induction claims with
  | nil => exact .ok _
  | cons s claims ih =>
    unfold parseClaims
    split
    · exact .error _
    · exact ih.bind fun _ _ => .ok _

/-- The capability of a requester's node is there: the topology was validated. -/
theorem noPanic_agentFor {raw : RawAgent} {node : NodeConfig} {seed : Option SigningSecretSeed}
    (hreq : node.role = .requester → ∃ cap, node.requiredCapability = some cap) : NoPanic (raw.agentFor node seed) := by
  unfold RawAgent.agentFor
  split
  · rename_i hrole
    obtain ⟨topoCap, htopo⟩ := hreq hrole
    unfold RawAgent.requesterAgent
    split
    · exact .error _
    · split
      · exact .error _
      · rw [htopo]
        dsimp only
        split
        · exact .error _
        · split
          · exact .error _
          · exact .ok _
  · unfold RawAgent.providerAgent
    split
    · exact .error _
    · refine (noPanic_parseClaims _ _).bind ?_
      intro claims _
      split
      · exact .error _
      · split
        · exact .error _
        · exact .ok _

/-- An entry that is not taken ends the loop, with a panic exactly when its name cannot be shown. -/
theorem noPanic_loadAgents_of_not_gives (ht : t.WellFormed Γ) (hnot : ¬ ∃ id a, raw.Gives Γ t id a ∧ id ∉ out) :
    NoPanic (loadAgents Γ t (raw :: raws) out) ↔ ¬ Straddles (trim raw.node) 12 := by
  unfold loadAgents
  split
  · rw [NoPanic.bind_iff fun _ => .error _, noPanic_redactTail]
  · rename_i id hid
    refine iff_of_true ?_ (not_straddles_of_fromStr hid 12)
    split
    · exact .error _
    · rename_i node hnode
      split
      · exact .error _
      · rename_i hcont
        split
        · exact .error _
        · rename_i role hrole
          split
          · exact .error _
          · rename_i hsame
            obtain rfl := not_not.mp hsame
            refine (noPanic_seedFor raw node).bind ?_
            intro seed hseed
            have hreq : node.role = .requester → ∃ cap, node.requiredCapability = some cap := by
              intro hr
              obtain ⟨tag, -, htag, -⟩ := ht.required node (TopologyConfig.findNode_some hnode).1 hr
              exact ⟨tag, htag⟩
            refine (noPanic_agentFor hreq).bind ?_
            intro a ha
            refine absurd ⟨id, a, ⟨hid, node, seed, hnode, hrole, hseed, ha⟩, ?_⟩ hnot
            intro hm
            exact hcont (Std.TreeMap.contains_iff_mem.mpr hm)

/-- The loop panics exactly when it comes to an entry whose name cannot be shown. -/
theorem noPanic_loadAgents (ht : t.WellFormed Γ) : NoPanic (loadAgents Γ t raws out) ↔
    ∀ before raw after, raws = before ++ raw :: after → (∃ agents, loadAgents Γ t before out = .ok agents) →
      ¬ Straddles (trim raw.node) 12 := by
  induction raws generalizing out with
  | nil =>
    refine iff_of_true (.ok _) ?_
    intro before raw after he
    simp at he
  | cons raw raws ih =>
    by_cases hgives : ∃ id a, raw.Gives Γ t id a ∧ id ∉ out
    · obtain ⟨id, a, hgives, hid⟩ := hgives
      rw [loadAgents_cons_of_gives hgives hid, ih]
      constructor
      · intro hall before raw' after he hbefore
        cases before with
        | nil =>
          obtain ⟨rfl, rfl⟩ := List.cons.inj he
          exact not_straddles_of_fromStr hgives.parses 12
        | cons b before =>
          obtain ⟨rfl, rfl⟩ := List.cons.inj he
          rw [loadAgents_cons_of_gives hgives hid] at hbefore
          exact hall before raw' after rfl hbefore
      · intro hall before raw' after he hbefore
        refine hall (raw :: before) raw' after (by rw [he, List.cons_append]) ?_
        rw [loadAgents_cons_of_gives hgives hid]
        exact hbefore
    · rw [noPanic_loadAgents_of_not_gives ht hgives]
      constructor
      · rintro hplain before raw' after he ⟨agents, hbefore⟩
        cases before with
        | nil =>
          obtain ⟨rfl, rfl⟩ := List.cons.inj he
          exact hplain
        | cons b before =>
          obtain ⟨rfl, rfl⟩ := List.cons.inj he
          obtain ⟨id, a, hb, hid, -⟩ := loadAgents_cons_eq_ok.mp hbefore
          exact absurd ⟨id, a, hb, hid⟩ hgives
      · intro hall
        exact hall [] raw raws rfl ⟨out, rfl⟩

/-- So does the loader. -/
theorem noPanic_agentsFromBundle (ht : t.WellFormed Γ) {bundle : RawBundle} :
    NoPanic (agentsFromBundle Γ t bundle) ↔ ¬ ReachesStraddling Γ t bundle := by
  unfold agentsFromBundle
  split
  · rename_i hversion
    exact iff_of_true (.error _) fun h => hversion h.1
  · rename_i hversion
    rw [NoPanic.bind_iff ?_, noPanic_loadAgents ht]
    · constructor
      · rintro hall ⟨-, before, raw, after, he, hgives, hnd, hs⟩
        refine hall before raw after he (loadAgents_isOk_iff.mpr ⟨?_, hnd⟩) hs
        intro e hm
        obtain ⟨id, a, h⟩ := hgives e hm
        exact ⟨id, a, h, Std.TreeMap.not_mem_emptyc⟩
      · intro hnot before raw after he hbefore hs
        obtain ⟨hgives, hnd⟩ := loadAgents_isOk_iff.mp hbefore
        refine hnot ⟨not_not.mp hversion, before, raw, after, he, ?_, hnd, hs⟩
        intro e hm
        obtain ⟨id, a, h, -⟩ := hgives e hm
        exact ⟨id, a, h⟩
    · intro out
      split
      · exact .error _
      · exact .ok _

end LoaderPanicsAux

open LoaderPanicsAux

namespace Sample

/-- A name with an accent: its twelfth byte is the second one of a character. -/
def accented : Text := "aaaaaaaaaaaé".toList

def accentedText : Text := "version = 1\n\n[[agents]]\nnode = \"".toList ++ accented ++ "\"\nrole = \"requester\"\n".toList

def accentedEntry : RawAgent :=
  { node := accented, role := "requester".toList, requiredCapability := none, capabilityClaims := none, budgetCents := none,
    reservationCents := none, signingSecretKey := none }

def accentedBundle : RawBundle where
  version := 1
  agents := [accentedEntry]

/-- A parser for this text. -/
def parseAccented (text : Text) : Except Text RawBundle :=
  if text = accentedText then .ok accentedBundle else .error "TOML parse error".toList

end Sample

/-- The loader panics where it should report a name that is no identifier. -/
theorem loader_panics : ¬ ∀ (Γ : Crypto) (T : LoadedTopology Γ) (parse : Text → Except Text RawBundle) (text : Text),
    NoPanic (fromTomlStr parse Γ T.config text) := by
  intro h
  have hparse : Sample.parseAccented Sample.accentedText = .ok Sample.accentedBundle := if_pos rfl
  have hload := h Sample.crypto Sample.topology Sample.parseAccented Sample.accentedText
  rw [fromTomlStr, hparse] at hload
  refine (noPanic_agentsFromBundle Sample.topology.wellFormed).mp hload ⟨rfl, [], Sample.accentedEntry, [], rfl, ?_, List.nodup_nil, ?_⟩
  · intro e he
    simp at he
  · exact ⟨"aaaaaaaaaaa".toList, 'é', [], by decide, by decide, by decide⟩

/-- **On which texts the loader panics.** Whatever the parser makes of a text, loading it panics exactly when the loader comes to
an entry, past entries that it takes, whose name has its twelfth byte inside a character. -/
theorem loader_no_panic_iff {Γ : Crypto} (T : LoadedTopology Γ) (parse : Text → Except Text RawBundle) (text : Text) :
    NoPanic (fromTomlStr parse Γ T.config text) ↔
      ∀ bundle, parse text = .ok bundle → ¬ ReachesStraddling Γ T.config bundle := by
  unfold fromTomlStr
  split
  · rename_i e he
    refine iff_of_true (.error _) ?_
    intro bundle hparse
    rw [he] at hparse
    simp at hparse
  · rename_i bundle hbundle
    rw [noPanic_agentsFromBundle T.wellFormed]
    constructor
    · intro hnot bundle' hparse
      obtain rfl := Except.ok.inj (hbundle.symm.trans hparse)
      exact hnot
    · intro hall
      exact hall bundle hbundle

end VertexVeil
