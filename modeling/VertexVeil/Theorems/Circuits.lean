import VertexVeil.Fixtures
import VertexVeil.Matching
import VertexVeil.Lemmas.Circuits

/-!
# Circuits and runtime

Both sides build the same preimages, so a circuit opens the commitment that the runtime published and nothing else. What the
circuits check of a pair is less than what the match predicate decides.
-/

namespace VertexVeil

open Codec

/-! ## Predicate and circuits -/

/-- For some thresholds that the private values satisfy, both circuits accept the public inputs built for a round against the
published commitments. -/
def CircuitsAccept (Γ : Crypto) (req : PrivateRequesterIntent) (prov : PrivateProviderIntent) (nonce nonce' : Bytes 32)
    (commit commit' : Bytes 32) (round : RoundId) : Prop :=
  ∃ threshold threshold' out out',
    threshold ≤ req.budgetCents ∧ prov.reservationCents ≤ threshold' ∧
    RequesterCircuit.publicInputsFromIntent Γ req nonce round threshold = .ok out ∧
    ProviderCircuit.publicInputsFromIntent Γ prov nonce' round threshold' = .ok out' ∧
    Noir.requesterMain Γ { out.1 with commitmentHash := commit } ⟨req.budgetCents, nonce⟩ = true ∧
    Noir.providerMain Γ { out'.1 with commitmentHash := commit' } ⟨prov.reservationCents, nonce'⟩ = true

/-- The predicate and the circuits decide a pair alike, the requester's intent published for round `rr`, the provider's for
`rp`. -/
def PredicateParity (Γ : Crypto) (req : PrivateRequesterIntent) (prov : PrivateProviderIntent) (nonce nonce' : Bytes 32)
    (commit commit' : Bytes 32) (rr rp round : RoundId) : Prop :=
  matchPredicate (.requester req.nodeId rr req.requiredCapability) (.provider prov.nodeId rp prov.capabilityClaims) round =
    .ok () ↔ CircuitsAccept Γ req prov nonce nonce' commit commit' round

namespace CircuitsAux

variable {Γ : Crypto}

theorem commitRequester_eq_ok {intent : PrivateRequesterIntent} {nonce c : Bytes 32} {round : RoundId} :
    commitRequester Γ intent nonce round = .ok c ↔
      ∃ p, buildRequesterPreimage intent nonce round = .ok p ∧ Γ.blake2s256 p = c := by
  unfold commitRequester
  cases buildRequesterPreimage intent nonce round with
  | error e => simp [bind, Except.bind]
  | ok p => simp [bind, Except.bind, pure, Except.pure]

theorem commitProvider_eq_ok {intent : PrivateProviderIntent} {nonce c : Bytes 32} {round : RoundId} :
    commitProvider Γ intent nonce round = .ok c ↔
      ∃ p, buildProviderPreimage intent nonce round = .ok p ∧ Γ.blake2s256 p = c := by
  unfold commitProvider
  cases buildProviderPreimage intent nonce round with
  | error e => simp [bind, Except.bind]
  | ok p => simp [bind, Except.bind, pure, Except.pure]

/-- Whether a requester preimage is built does not depend on the round. -/
theorem buildRequesterPreimage_round {intent : PrivateRequesterIntent} {nonce : Bytes 32} {r : RoundId} {p : List UInt8}
    (h : buildRequesterPreimage intent nonce r = .ok p) (r' : RoundId) :
    ∃ q, buildRequesterPreimage intent nonce r' = .ok q := by
  obtain ⟨hne, hl, -⟩ := buildRequesterPreimage_eq_ok.mp h
  exact ⟨_, buildRequesterPreimage_eq_ok.mpr ⟨hne, hl, rfl⟩⟩

/-- Whether a provider preimage is built does not depend on the round. -/
theorem buildProviderPreimage_round {intent : PrivateProviderIntent} {nonce : Bytes 32} {r : RoundId} {p : List UInt8}
    (h : buildProviderPreimage intent nonce r = .ok p) (r' : RoundId) :
    ∃ q, buildProviderPreimage intent nonce r' = .ok q := by
  obtain ⟨hne, hn, hc, -⟩ := buildProviderPreimage_eq_ok.mp h
  exact ⟨_, buildProviderPreimage_eq_ok.mpr ⟨hne, hn, hc, rfl⟩⟩

/-- The preimages of one intent for two rounds agree when the rounds do. -/
theorem requesterPreimage_round_iff {intent : PrivateRequesterIntent} {nonce : Bytes 32} {r r' : RoundId} {p q : List UInt8}
    (hp : buildRequesterPreimage intent nonce r = .ok p) (hq : buildRequesterPreimage intent nonce r' = .ok q) :
    q = p ↔ r = r' := by
  constructor
  · rintro rfl
    have h := (buildRequesterPreimage_spells hp).2.1
    rw [(buildRequesterPreimage_spells hq).2.1] at h
    exact (RoundId.ext_bytes h).symm
  · rintro rfl
    rw [hp] at hq
    exact (Except.ok.inj hq).symm

/-- The preimages of one intent for two rounds agree when the rounds do. -/
theorem providerPreimage_round_iff {intent : PrivateProviderIntent} {nonce : Bytes 32} {r r' : RoundId} {p q : List UInt8}
    (hp : buildProviderPreimage intent nonce r = .ok p) (hq : buildProviderPreimage intent nonce r' = .ok q) :
    q = p ↔ r = r' := by
  constructor
  · rintro rfl
    have h := (buildProviderPreimage_spells hp).2.1
    rw [(buildProviderPreimage_spells hq).2.1] at h
    exact (RoundId.ext_bytes h).symm
  · rintro rfl
    rw [hp] at hq
    exact (Except.ok.inj hq).symm

/-- A computation that returns exactly what another one does, seen through `f`. -/
theorem toOption_eq_map {α β δ ε : Type} {a : Except ε α} {b : Except δ β} {f : β → α} {g : α → β}
    (h : ∀ {out}, b = .ok out ↔ ∃ p, a = .ok p ∧ out = g p) (hf : ∀ p, a = .ok p → p = f (g p)) :
    a.toOption = b.toOption.map f := by
  cases a with
  | ok p =>
    rw [h.mpr ⟨p, rfl, rfl⟩]
    exact congrArg some (hf p rfl)
  | error e =>
    cases b with
    | error e' => rfl
    | ok out =>
      obtain ⟨p, hp, -⟩ := h.mp rfl
      cases hp

/-- What the circuits see of a pair: the digests of its preimages for the round. -/
theorem circuitsAccept_iff {req : PrivateRequesterIntent} {prov : PrivateProviderIntent} {nonce nonce' commit commit' : Bytes 32}
    {round : RoundId} {p q : List UInt8} (hp : buildRequesterPreimage req nonce round = .ok p)
    (hq : buildProviderPreimage prov nonce' round = .ok q) :
    CircuitsAccept Γ req prov nonce nonce' commit commit' round ↔ Γ.blake2s256 p = commit ∧ Γ.blake2s256 q = commit' := by
  constructor
  · rintro ⟨threshold, threshold', out, out', -, -, hout, hout', hacc, hacc'⟩
    obtain ⟨p', hp', rfl⟩ := RequesterCircuit.publicInputsFromIntent_eq_ok.mp hout
    obtain ⟨q', hq', rfl⟩ := ProviderCircuit.publicInputsFromIntent_eq_ok.mp hout'
    exact ⟨((RequesterCircuit.accepts_inputs hp commit threshold).mp hacc).2,
      ((ProviderCircuit.accepts_inputs hq commit' threshold').mp hacc').2⟩
  · rintro ⟨hc, hc'⟩
    exact ⟨req.budgetCents, prov.reservationCents, _, _, UInt64.le_refl _, UInt64.le_refl _,
      RequesterCircuit.publicInputsFromIntent_eq_ok.mpr ⟨p, hp, rfl⟩,
      ProviderCircuit.publicInputsFromIntent_eq_ok.mpr ⟨q, hq, rfl⟩,
      (RequesterCircuit.accepts_inputs hp commit _).mpr ⟨UInt64.le_refl _, hc⟩,
      (ProviderCircuit.accepts_inputs hq commit' _).mpr ⟨UInt64.le_refl _, hc'⟩⟩

end CircuitsAux

open CircuitsAux

namespace Sample

/-- What the requester wants, for a budget. -/
def requesterIntent (budget : UInt64) : PrivateRequesterIntent :=
  { nodeId := requester, requiredCapability := gpu, budgetCents := budget, signingSecretKey := none }

/-- What the third provider offers, for a reservation. -/
def providerIntent (reservation : UInt64) : PrivateProviderIntent :=
  { nodeId := provider₃, capabilityClaims := [cpu], reservationCents := reservation, signingSecretKey := none }

theorem requesterIntent_builds (budget : UInt64) (nonce : Bytes 32) (round : RoundId) :
    ∃ p, buildRequesterPreimage (requesterIntent budget) nonce round = .ok p := by
  have hshape : asBytes gpu.asStr ≠ [] ∧ (asBytes gpu.asStr).length ≤ maxCapabilityBytes := by decide
  exact ⟨_, buildRequesterPreimage_eq_ok.mpr ⟨hshape.1, hshape.2, rfl⟩⟩

theorem providerIntent_builds (reservation : UInt64) (nonce : Bytes 32) (round : RoundId) :
    ∃ p, buildProviderPreimage (providerIntent reservation) nonce round = .ok p := by
  have hshape : ∀ c ∈ [cpu], asBytes c.asStr ≠ [] ∧ (asBytes c.asStr).length ≤ maxCapabilityBytes := by decide
  exact ⟨_, buildProviderPreimage_eq_ok.mpr ⟨List.cons_ne_nil _ _, Nat.le_of_ble_eq_true rfl, hshape, rfl⟩⟩

end Sample

/-- The circuits accept a pair whose provider does not claim what the requester needs. -/
theorem predicate_parity_fails : ¬ ∀ (Γ : Crypto) (req : PrivateRequesterIntent) (prov : PrivateProviderIntent)
    (nonce nonce' commit commit' : Bytes 32) (rr rp round : RoundId),
    commitRequester Γ req nonce rr = .ok commit → commitProvider Γ prov nonce' rp = .ok commit' →
    (∀ p q, buildRequesterPreimage req nonce round = .ok p → buildRequesterPreimage req nonce rr = .ok q → Γ.NoCollision p q) →
    (∀ p q, buildProviderPreimage prov nonce' round = .ok p → buildProviderPreimage prov nonce' rp = .ok q →
      Γ.NoCollision p q) → PredicateParity Γ req prov nonce nonce' commit commit' rr rp round := by
  intro h
  obtain ⟨p, hp⟩ := Sample.requesterIntent_builds 250 Sample.salt 0
  obtain ⟨q, hq⟩ := Sample.providerIntent_builds 200 Sample.salt 0
  have hpar := h Sample.crypto (Sample.requesterIntent 250) (Sample.providerIntent 200) Sample.salt Sample.salt _ _ 0 0 0
    (commitRequester_eq_ok.mpr ⟨p, hp, rfl⟩) (commitProvider_eq_ok.mpr ⟨q, hq, rfl⟩)
    (fun a b ha hb _ => Except.ok.inj (ha.symm.trans hb)) (fun a b ha hb _ => Except.ok.inj (ha.symm.trans hb))
  exact absurd (hpar.mpr ((circuitsAccept_iff hp hq).mpr ⟨rfl, rfl⟩)) (by decide)

/-- **Predicate parity.** The predicate and the circuits decide a pair alike exactly when one of the intents is of another round
or the provider claims what the requester needs: the circuits never compare the two capabilities. -/
theorem predicate_parity_iff (Γ : Crypto) (req : PrivateRequesterIntent) (prov : PrivateProviderIntent)
    (nonce nonce' commit commit' : Bytes 32) (rr rp round : RoundId) (hc : commitRequester Γ req nonce rr = .ok commit)
    (hc' : commitProvider Γ prov nonce' rp = .ok commit')
    (hnc : ∀ p q, buildRequesterPreimage req nonce round = .ok p → buildRequesterPreimage req nonce rr = .ok q →
      Γ.NoCollision p q)
    (hnc' : ∀ p q, buildProviderPreimage prov nonce' round = .ok p → buildProviderPreimage prov nonce' rp = .ok q →
      Γ.NoCollision p q) :
    PredicateParity Γ req prov nonce nonce' commit commit' rr rp round ↔
      rr ≠ round ∨ rp ≠ round ∨ req.requiredCapability ∈ prov.capabilityClaims := by
  obtain ⟨p, hp, rfl⟩ := commitRequester_eq_ok.mp hc
  obtain ⟨q, hq, rfl⟩ := commitProvider_eq_ok.mp hc'
  obtain ⟨p₀, hp₀⟩ := buildRequesterPreimage_round hp round
  obtain ⟨q₀, hq₀⟩ := buildProviderPreimage_round hq round
  have hreq : Γ.blake2s256 p₀ = Γ.blake2s256 p ↔ rr = round := by
    rw [← requesterPreimage_round_iff hp hp₀]
    exact ⟨hnc p₀ p hp₀ hp, congrArg _⟩
  have hprov : Γ.blake2s256 q₀ = Γ.blake2s256 q ↔ rp = round := by
    rw [← providerPreimage_round_iff hq hq₀]
    exact ⟨hnc' q₀ q hq₀ hq, congrArg _⟩
  unfold PredicateParity
  rw [matchPredicate_eq_ok, feasible_iff, circuitsAccept_iff hp₀ hq₀, hreq, hprov]
  by_cases hr : rr = round
  · by_cases hr' : rp = round
    · simp [hr, hr']
    · simp [hr, hr']
  · simp [hr]

/-- The third provider of the deployment does not offer what the requester needs: no parity in a round of both. -/
theorem predicate_parity_iff_sample : ∃ commit commit',
    commitRequester Sample.crypto (Sample.requesterIntent 250) Sample.salt 0 = .ok commit ∧
    commitProvider Sample.crypto (Sample.providerIntent 200) Sample.salt 0 = .ok commit' ∧
    ¬ PredicateParity Sample.crypto (Sample.requesterIntent 250) (Sample.providerIntent 200) Sample.salt Sample.salt
      commit commit' 0 0 0 := by
  obtain ⟨p, hp⟩ := Sample.requesterIntent_builds 250 Sample.salt 0
  obtain ⟨q, hq⟩ := Sample.providerIntent_builds 200 Sample.salt 0
  have hc := (commitRequester_eq_ok (Γ := Sample.crypto)).mpr ⟨p, hp, rfl⟩
  have hc' := (commitProvider_eq_ok (Γ := Sample.crypto)).mpr ⟨q, hq, rfl⟩
  refine ⟨_, _, hc, hc', ?_⟩
  rw [predicate_parity_iff _ _ _ _ _ _ _ _ _ _ hc hc' (fun a b ha hb _ => Except.ok.inj (ha.symm.trans hb))
    (fun a b ha hb _ => Except.ok.inj (ha.symm.trans hb))]
  decide

/-! ## One preimage on both sides -/

/-- **The preimages agree.** The Rust builder accepts a private intent exactly within the limits. It does so exactly when the bridge
does, and then returns the bytes the Noir builder makes of the bridge's arrays, for every nonce and every round. -/
theorem preimages_agree (Γ : Crypto) (nonce : Bytes 32) (round : RoundId) (threshold : UInt64) :
    (∀ intent : PrivateRequesterIntent,
      ((∃ p, buildRequesterPreimage intent nonce round = .ok p) ↔
        1 ≤ (asBytes intent.requiredCapability.asStr).length ∧ (asBytes intent.requiredCapability.asStr).length ≤ 32) ∧
      (buildRequesterPreimage intent nonce round).toOption =
        (RequesterCircuit.publicInputsFromIntent Γ intent nonce round threshold).toOption.map fun out =>
          Noir.buildRequesterPreimage round intent.nodeId.bytes out.1.requiredCapability out.1.capabilityLen
            intent.budgetCents nonce) ∧
    ∀ intent : PrivateProviderIntent,
      ((∃ p, buildProviderPreimage intent nonce round = .ok p) ↔
        (1 ≤ intent.capabilityClaims.length ∧ intent.capabilityClaims.length ≤ 4) ∧
        ∀ c ∈ intent.capabilityClaims, 1 ≤ (asBytes c.asStr).length ∧ (asBytes c.asStr).length ≤ 32) ∧
      (buildProviderPreimage intent nonce round).toOption =
        (ProviderCircuit.publicInputsFromIntent Γ intent nonce round threshold).toOption.map fun out =>
          Noir.buildProviderPreimage round intent.nodeId.bytes out.1.claimBytes out.1.claimLens out.1.nClaims
            intent.reservationCents nonce := by
  refine ⟨?_, ?_⟩
  · intro intent
    constructor
    · simp only [buildRequesterPreimage_eq_ok, exists_and_left, exists_eq, and_true]
      rw [← List.length_pos_iff]
      rfl
    · refine toOption_eq_map RequesterCircuit.publicInputsFromIntent_eq_ok ?_
      intro p hp
      exact buildRequesterPreimage_noir hp (Γ.blake2s256 p) threshold
  · intro intent
    constructor
    · simp only [buildProviderPreimage_eq_ok, exists_and_left, exists_eq, and_true, ← List.length_pos_iff, and_assoc]
      rfl
    · refine toOption_eq_map ProviderCircuit.publicInputsFromIntent_eq_ok ?_
      intro p hp
      exact buildProviderPreimage_noir hp (Γ.blake2s256 p) threshold

/-! ## What a circuit opens -/

/-- An accepted instance of the requester circuit shows the committed intent, nonce and round, and a threshold it meets. -/
structure RequesterOpens (intent : PrivateRequesterIntent) (nonce : Bytes 32) (round : RoundId) (pub : RequesterPublicInputs)
    (wit : RequesterWitness) : Prop where
  round : pub.round = round
  nodeId : pub.nodeId = intent.nodeId.bytes
  capabilityLen : pub.capabilityLen.toNat = (asBytes intent.requiredCapability.asStr).length
  requiredCapability : pub.requiredCapability = padded (asBytes intent.requiredCapability.asStr)
  budgetCents : wit.budgetCents = intent.budgetCents
  nonce : wit.nonce = nonce
  threshold : pub.threshold ≤ intent.budgetCents

/-- An accepted instance of the provider circuit shows the committed intent, nonce and round, and a threshold it keeps. -/
structure ProviderOpens (intent : PrivateProviderIntent) (nonce : Bytes 32) (round : RoundId) (pub : ProviderPublicInputs)
    (wit : ProviderWitness) : Prop where
  round : pub.round = round
  nodeId : pub.nodeId = intent.nodeId.bytes
  nClaims : pub.nClaims.toNat = intent.capabilityClaims.length
  claimLens : ∀ i claim, intent.capabilityClaims[i]? = some claim →
    (pub.claimLens.toList.getD i 0).toNat = (asBytes claim.asStr).length
  claimBytes : ∀ i claim, intent.capabilityClaims[i]? = some claim →
    pub.claimBytes.toList.getD i (List.Vector.replicate 32 0) = padded (asBytes claim.asStr)
  reservationCents : wit.reservationCents = intent.reservationCents
  nonce : wit.nonce = nonce
  threshold : intent.reservationCents ≤ pub.threshold

namespace CircuitsAux

variable {Γ : Crypto}

theorem requesterOpens {intent : PrivateRequesterIntent} {nonce : Bytes 32} {round : RoundId} {p : List UInt8}
    {pub : RequesterPublicInputs} {wit : RequesterWitness} (hp : buildRequesterPreimage intent nonce round = .ok p)
    (hcommit : pub.commitmentHash = Γ.blake2s256 p) (hnc : Γ.NoCollision (Noir.requesterPreimage pub wit) p)
    (hacc : Noir.requesterMain Γ pub wit = true) : RequesterOpens intent nonce round pub wit := by
  obtain ⟨-, hl, -⟩ := buildRequesterPreimage_eq_ok.mp hp
  obtain ⟨-, -, hthreshold, hhash⟩ := Noir.requesterMain_iff.mp hacc
  have heq := hnc (hhash.trans hcommit)
  rw [buildRequesterPreimage_noir hp (Γ.blake2s256 p) 0] at heq
  obtain ⟨hround, hnode, hlen, hcap, hbudget, hnonce⟩ := Noir.requesterPreimage_inj heq
  refine ⟨hround, hnode, ?_, hcap, hbudget, hnonce, ?_⟩
  · rw [hlen]
    exact toNat_length hl
  · rwa [hbudget] at hthreshold

theorem providerOpens {intent : PrivateProviderIntent} {nonce : Bytes 32} {round : RoundId} {p : List UInt8}
    {pub : ProviderPublicInputs} {wit : ProviderWitness} (hp : buildProviderPreimage intent nonce round = .ok p)
    (hcommit : pub.commitmentHash = Γ.blake2s256 p) (hnc : Γ.NoCollision (Noir.providerPreimage pub wit) p)
    (hacc : Noir.providerMain Γ pub wit = true) : ProviderOpens intent nonce round pub wit := by
  obtain ⟨-, hn, hc, -⟩ := buildProviderPreimage_eq_ok.mp hp
  obtain ⟨-, -, -, hthreshold, hhash⟩ := Noir.providerMain_iff.mp hacc
  have heq := hnc (hhash.trans hcommit)
  rw [buildProviderPreimage_noir hp (Γ.blake2s256 p) 0] at heq
  obtain ⟨hround, hnode, hcount, hslots, hprice, hnonce⟩ := Noir.providerPreimage_inj heq
  have hcount' : pub.nClaims = UInt32.ofNat intent.capabilityClaims.length := hcount
  have hslot : ∀ i claim, intent.capabilityClaims[i]? = some claim →
      (pub.claimLens.toList.getD i 0).toNat = (asBytes claim.asStr).length ∧
        pub.claimBytes.toList.getD i (List.Vector.replicate 32 0) = padded (asBytes claim.asStr) := by
    intro i claim hi
    have hlt : i < intent.capabilityClaims.length := (List.getElem?_eq_some_iff.mp hi).1
    have hi4 : i < 4 := Nat.lt_of_lt_of_le hlt hn
    have hactive := (active_iff hn hi4).mpr hlt
    obtain ⟨hlen, hbytes⟩ := hslots i hi4
    unfold Noir.slotLen at hlen
    unfold Noir.slotBytes at hbytes
    rw [hcount', if_pos hactive] at hlen hbytes
    change _ = if UInt32.ofNat i < UInt32.ofNat intent.capabilityClaims.length then
      (claimLensOf intent.capabilityClaims).toList.getD i 0 else 0 at hlen
    change _ = if UInt32.ofNat i < UInt32.ofNat intent.capabilityClaims.length then
      (claimBytesOf intent.capabilityClaims).toList.getD i (List.Vector.replicate 32 0) else _ at hbytes
    rw [if_pos hactive, claimLensOf, getD_slots hi4, List.getElem?_map, hi, Option.map_some, Option.getD_some] at hlen
    rw [if_pos hactive, claimBytesOf, getD_slots hi4, List.getElem?_map, hi, Option.map_some, Option.getD_some] at hbytes
    refine ⟨?_, hbytes⟩
    rw [hlen]
    exact toNat_length (hc claim (List.mem_of_getElem? hi)).2
  refine ⟨hround, hnode, ?_, fun i claim hi => (hslot i claim hi).1, fun i claim hi => (hslot i claim hi).2, hprice, hnonce, ?_⟩
  · rw [hcount']
    exact toNat_count hn
  · rwa [hprice] at hthreshold

/-- No instance of the provider circuit opens a requester's commitment. -/
theorem provider_refuses {intent : PrivateRequesterIntent} {nonce : Bytes 32} {round : RoundId} {p : List UInt8}
    {pub : ProviderPublicInputs} {wit : ProviderWitness} (hp : buildRequesterPreimage intent nonce round = .ok p)
    (hcommit : pub.commitmentHash = Γ.blake2s256 p) (hnc : Γ.NoCollision (Noir.providerPreimage pub wit) p) :
    Noir.providerMain Γ pub wit = false := by
  refine Bool.eq_false_iff.mpr ?_
  intro hacc
  obtain ⟨-, -, -, -, hhash⟩ := Noir.providerMain_iff.mp hacc
  have hl := congrArg List.length (hnc (hhash.trans hcommit))
  rw [Noir.length_providerPreimage, (buildRequesterPreimage_spells hp).1] at hl
  cases hl

/-- No instance of the requester circuit opens a provider's commitment. -/
theorem requester_refuses {intent : PrivateProviderIntent} {nonce : Bytes 32} {round : RoundId} {p : List UInt8}
    {pub : RequesterPublicInputs} {wit : RequesterWitness} (hp : buildProviderPreimage intent nonce round = .ok p)
    (hcommit : pub.commitmentHash = Γ.blake2s256 p) (hnc : Γ.NoCollision (Noir.requesterPreimage pub wit) p) :
    Noir.requesterMain Γ pub wit = false := by
  refine Bool.eq_false_iff.mpr ?_
  intro hacc
  obtain ⟨-, -, -, hhash⟩ := Noir.requesterMain_iff.mp hacc
  have hl := congrArg List.length (hnc (hhash.trans hcommit))
  rw [Noir.length_requesterPreimage, (buildProviderPreimage_spells hp).1] at hl
  cases hl

end CircuitsAux

/-- **What the circuits open.** Let `p` be the preimage of a private intent. Its circuit accepts the bridge's public inputs with the
intent's own witness exactly when the price meets the threshold. Whatever public inputs and witness an instance accepts against the
commitment to `p` are those of the intent, unless the hash collides on `p` and what the instance hashed; and the circuit of the
other role accepts nothing. -/
theorem circuits_open_commitments (Γ : Crypto) (nonce : Bytes 32) (round : RoundId) :
    (∀ (intent : PrivateRequesterIntent) p, buildRequesterPreimage intent nonce round = .ok p →
      commitRequester Γ intent nonce round = .ok (Γ.blake2s256 p) ∧
      (∀ threshold, ∃ pub,
        RequesterCircuit.publicInputsFromIntent Γ intent nonce round threshold = .ok (pub, Γ.blake2s256 p) ∧
        (Noir.requesterMain Γ pub ⟨intent.budgetCents, nonce⟩ = true ↔ threshold ≤ intent.budgetCents)) ∧
      (∀ pub wit, pub.commitmentHash = Γ.blake2s256 p → Γ.NoCollision (Noir.requesterPreimage pub wit) p →
        Noir.requesterMain Γ pub wit = true → RequesterOpens intent nonce round pub wit) ∧
      ∀ pub wit, pub.commitmentHash = Γ.blake2s256 p → Γ.NoCollision (Noir.providerPreimage pub wit) p →
        Noir.providerMain Γ pub wit = false) ∧
    ∀ (intent : PrivateProviderIntent) p, buildProviderPreimage intent nonce round = .ok p →
      commitProvider Γ intent nonce round = .ok (Γ.blake2s256 p) ∧
      (∀ threshold, ∃ pub,
        ProviderCircuit.publicInputsFromIntent Γ intent nonce round threshold = .ok (pub, Γ.blake2s256 p) ∧
        (Noir.providerMain Γ pub ⟨intent.reservationCents, nonce⟩ = true ↔ intent.reservationCents ≤ threshold)) ∧
      (∀ pub wit, pub.commitmentHash = Γ.blake2s256 p → Γ.NoCollision (Noir.providerPreimage pub wit) p →
        Noir.providerMain Γ pub wit = true → ProviderOpens intent nonce round pub wit) ∧
      ∀ pub wit, pub.commitmentHash = Γ.blake2s256 p → Γ.NoCollision (Noir.requesterPreimage pub wit) p →
        Noir.requesterMain Γ pub wit = false := by
  refine ⟨?_, ?_⟩
  · intro intent p hp
    refine ⟨commitRequester_eq_ok.mpr ⟨p, hp, rfl⟩, ?_, ?_, ?_⟩
    · intro threshold
      refine ⟨_, RequesterCircuit.publicInputsFromIntent_eq_ok.mpr ⟨p, hp, rfl⟩, ?_⟩
      rw [RequesterCircuit.accepts_inputs hp]
      exact and_iff_left rfl
    · intro pub wit hcommit hnc hacc
      exact requesterOpens hp hcommit hnc hacc
    · intro pub wit hcommit hnc
      exact provider_refuses hp hcommit hnc
  · intro intent p hp
    refine ⟨commitProvider_eq_ok.mpr ⟨p, hp, rfl⟩, ?_, ?_, ?_⟩
    · intro threshold
      refine ⟨_, ProviderCircuit.publicInputsFromIntent_eq_ok.mpr ⟨p, hp, rfl⟩, ?_⟩
      rw [ProviderCircuit.accepts_inputs hp]
      exact and_iff_left rfl
    · intro pub wit hcommit hnc hacc
      exact providerOpens hp hcommit hnc hacc
    · intro pub wit hcommit hnc
      exact requester_refuses hp hcommit hnc

/-- A requester with 250 cents: its circuit accepts the threshold 250 and not 251, and the accepted instance opens the intent. -/
theorem circuits_open_commitments_sample : ∃ p pub,
    buildRequesterPreimage (Sample.requesterIntent 250) Sample.salt 7 = .ok p ∧
    Noir.requesterMain Sample.crypto pub ⟨250, Sample.salt⟩ = true ∧
    RequesterOpens (Sample.requesterIntent 250) Sample.salt 7 pub ⟨250, Sample.salt⟩ ∧
    ∃ pub', RequesterCircuit.publicInputsFromIntent Sample.crypto (Sample.requesterIntent 250) Sample.salt 7 251 =
        .ok (pub', Sample.crypto.blake2s256 p) ∧ ¬ Noir.requesterMain Sample.crypto pub' ⟨250, Sample.salt⟩ = true := by
  obtain ⟨p, hp⟩ := Sample.requesterIntent_builds 250 Sample.salt 7
  obtain ⟨-, hcomplete, hsound, -⟩ :=
    (circuits_open_commitments Sample.crypto Sample.salt 7).1 (Sample.requesterIntent 250) p hp
  obtain ⟨pub, hpub, hacc⟩ := hcomplete 250
  obtain ⟨pub', hpub', hrej⟩ := hcomplete 251
  have hin : pub = RequesterCircuit.inputs (Sample.requesterIntent 250) (Sample.crypto.blake2s256 p) 7 250 := by
    obtain ⟨q, hq, he⟩ := RequesterCircuit.publicInputsFromIntent_eq_ok.mp hpub
    rw [hp, Except.ok.injEq] at hq
    exact hq ▸ congrArg Prod.fst he
  have hopen : pub.commitmentHash = Sample.crypto.blake2s256 p := congrArg _ hin
  have hnoir : Noir.requesterPreimage pub ⟨250, Sample.salt⟩ = p := by
    rw [hin]
    exact (buildRequesterPreimage_noir hp _ _).symm
  have haccept : Noir.requesterMain Sample.crypto pub ⟨250, Sample.salt⟩ = true := hacc.mpr (by decide)
  exact ⟨p, pub, hp, haccept, hsound pub _ hopen (fun _ => hnoir) haccept, pub', hpub', mt hrej.mp (by decide)⟩

end VertexVeil
