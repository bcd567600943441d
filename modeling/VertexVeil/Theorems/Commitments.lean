import VertexVeil.Fixtures

/-!
# What a commitment is about

Variable content is preceded by its length, so the lengths are read back first and then the content: the bytes of a preimage
determine everything that went into them.
-/

namespace VertexVeil

open Codec

/-! ## Preimages are injective and domain separated -/

/-- What is committed to: a private intent with a nonce, for a round. -/
inductive CommitInput where
  | requester (intent : PrivateRequesterIntent) (nonce : Bytes 32) (round : RoundId)
  | provider (intent : PrivateProviderIntent) (nonce : Bytes 32) (round : RoundId)

namespace CommitInput

/-- The preimage the builder of the role makes. -/
def preimage : CommitInput → Except CommitmentError (List UInt8)
  | requester intent nonce round => buildRequesterPreimage intent nonce round
  | provider intent nonce round => buildProviderPreimage intent nonce round

/-- The commitment of the role. -/
def commitment (Γ : Crypto) : CommitInput → Except CommitmentError (Bytes 32)
  | requester intent nonce round => commitRequester Γ intent nonce round
  | provider intent nonce round => commitProvider Γ intent nonce round

end CommitInput

/-- What a commitment determines: the role, the round, the node, the capabilities in order, the price and the nonce. -/
structure CommitContent where
  role : Role
  round : RoundId
  nodeId : NodeId
  capabilities : List CapabilityTag
  price : UInt64
  nonce : Bytes 32

/-- The content of what is committed to: a requester's tag and budget, or a provider's claims and reservation. -/
def CommitInput.content : CommitInput → CommitContent
  | requester intent nonce round =>
    ⟨.requester, round, intent.nodeId, [intent.requiredCapability], intent.budgetCents, nonce⟩
  | provider intent nonce round =>
    ⟨.provider, round, intent.nodeId, intent.capabilityClaims, intent.reservationCents, nonce⟩

namespace CommitmentsAux

/-- Tags with the same bytes are the same. -/
theorem tag_of_asBytes {c d : CapabilityTag} (h : asBytes c.asStr = asBytes d.asStr) : c = d := by
  cases c
  cases d
  exact congrArg CapabilityTag.mk (asBytes_injective h)

/-- Lengths within the limits are determined by their four bytes. -/
theorem length_of_beBytes {k l : Nat} (hk : k ≤ maxCapabilityBytes) (hl : l ≤ maxCapabilityBytes)
    (h : beBytes 4 k = beBytes 4 l) : k = l := by
  have hm : maxCapabilityBytes = 32 := rfl
  exact beBytes_inj (by omega) (by omega) h

/-- The claims are read back from their slots, one after the other. -/
theorem claims_of_slots {p : List UInt8} {idx : Nat} {claims claims' : List CapabilityTag}
    (hlen : claims.length = claims'.length) (hc : ∀ c ∈ claims, (asBytes c.asStr).length ≤ maxCapabilityBytes)
    (hc' : ∀ c ∈ claims', (asBytes c.asStr).length ≤ maxCapabilityBytes)
    (h : ∀ f ∈ claimFields idx claims, sliceAt p f.1 f.2.length = f.2)
    (h' : ∀ f ∈ claimFields idx claims', sliceAt p f.1 f.2.length = f.2) : claims = claims' := by
  induction claims generalizing idx claims' with
  | nil =>
    cases claims' with
    | nil => rfl
    | cons c' cs' => simp at hlen
  | cons c cs ih =>
    cases claims' with
    | nil => simp at hlen
    | cons c' cs' =>
      simp only [claimFields, List.forall_mem_cons] at h h' hc hc'
      obtain ⟨hl, hb, hrest⟩ := h
      obtain ⟨hl', hb', hrest'⟩ := h'
      have hcount := length_of_beBytes hc.1 hc'.1 (eq_of_sliceAt (by simp) hl hl')
      have htag := tag_of_asBytes (eq_of_sliceAt hcount hb hb')
      rw [htag, ih (Nat.succ.inj hlen) hc.2 hc'.2 hrest hrest']

/-- A requester preimage determines its content. -/
theorem requester_content {i i' : PrivateRequesterIntent} {nonce nonce' : Bytes 32} {round round' : RoundId} {p : List UInt8}
    (h : buildRequesterPreimage i nonce round = .ok p) (h' : buildRequesterPreimage i' nonce' round' = .ok p) :
    (CommitInput.requester i nonce round).content = (CommitInput.requester i' nonce' round').content := by
  obtain ⟨hl, hp⟩ := buildRequesterPreimage_ok h
  obtain ⟨hl', hp'⟩ := buildRequesterPreimage_ok h'
  have hread := sliceAt_writeFields (requesterFields_fit i nonce round hl)
  have hread' := sliceAt_writeFields (requesterFields_fit i' nonce' round' hl')
  rw [← hp] at hread
  rw [← hp'] at hread'
  simp only [requesterFields, List.forall_mem_cons] at hread hread'
  obtain ⟨-, -, -, hround, hnode, -, hlen, hcap, hbudget, hnonce, -⟩ := hread
  obtain ⟨-, -, -, hround', hnode', -, hlen', hcap', hbudget', hnonce', -⟩ := hread'
  have hcount := length_of_beBytes hl hl' (eq_of_sliceAt (by simp) hlen hlen')
  have hr : round = round' := RoundId.ext_bytes (eq_of_sliceAt (by simp) hround hround')
  have hn : i.nodeId = i'.nodeId := NodeId.ext_bytes (eq_of_sliceAt (by simp) hnode hnode')
  have ht := tag_of_asBytes (eq_of_sliceAt hcount hcap hcap')
  have hb : i.budgetCents = i'.budgetCents := RoundId.ext_bytes (eq_of_sliceAt (by simp) hbudget hbudget')
  have hs : nonce = nonce' := List.Vector.toList_injective (eq_of_sliceAt (by simp) hnonce hnonce')
  simp only [CommitInput.content, hr, hn, ht, hb, hs]

/-- A provider preimage determines its content. -/
theorem provider_content {i i' : PrivateProviderIntent} {nonce nonce' : Bytes 32} {round round' : RoundId} {p : List UInt8}
    (h : buildProviderPreimage i nonce round = .ok p) (h' : buildProviderPreimage i' nonce' round' = .ok p) :
    (CommitInput.provider i nonce round).content = (CommitInput.provider i' nonce' round').content := by
  obtain ⟨hn, hc, hp⟩ := buildProviderPreimage_ok h
  obtain ⟨hn', hc', hp'⟩ := buildProviderPreimage_ok h'
  have hread := sliceAt_writeFields (providerFields_fit i nonce round hn hc)
  have hread' := sliceAt_writeFields (providerFields_fit i' nonce' round' hn' hc')
  rw [← hp] at hread
  rw [← hp'] at hread'
  simp only [providerFields, List.forall_mem_append, List.forall_mem_cons] at hread hread'
  obtain ⟨⟨⟨-, -, -, hround, hnode, -, hcount, -⟩, hslots⟩, hprice, hnonce, -⟩ := hread
  obtain ⟨⟨⟨-, -, -, hround', hnode', -, hcount', -⟩, hslots'⟩, hprice', hnonce', -⟩ := hread'
  have hk : maxCapabilityClaims = 4 := rfl
  have hlen := beBytes_inj (by omega) (by omega) (eq_of_sliceAt (by simp) hcount hcount')
  have hr : round = round' := RoundId.ext_bytes (eq_of_sliceAt (by simp) hround hround')
  have hid : i.nodeId = i'.nodeId := NodeId.ext_bytes (eq_of_sliceAt (by simp) hnode hnode')
  have hcl := claims_of_slots hlen hc hc' hslots hslots'
  have hres : i.reservationCents = i'.reservationCents := RoundId.ext_bytes (eq_of_sliceAt (by simp) hprice hprice')
  have hs : nonce = nonce' := List.Vector.toList_injective (eq_of_sliceAt (by simp) hnonce hnonce')
  simp only [CommitInput.content, hr, hid, hcl, hres, hs]

/-- No preimage is a requester's and a provider's. -/
theorem preimages_separate {i : PrivateRequesterIntent} {i' : PrivateProviderIntent} {nonce nonce' : Bytes 32}
    {round round' : RoundId} {p : List UInt8} (h : buildRequesterPreimage i nonce round = .ok p) :
    buildProviderPreimage i' nonce' round' ≠ .ok p := by
  intro h'
  have hl := (buildRequesterPreimage_spells h).1
  rw [(buildProviderPreimage_spells h').1] at hl
  cases hl

/-- Inputs with one preimage have one content. -/
theorem content_of_preimage {a b : CommitInput} {p : List UInt8} (ha : a.preimage = .ok p) (hb : b.preimage = .ok p) :
    a.content = b.content := by
  cases a with
  | requester i nonce round =>
    cases b with
    | requester i' nonce' round' => exact requester_content ha hb
    | provider i' nonce' round' => exact absurd hb (preimages_separate ha)
  | provider i nonce round =>
    cases b with
    | requester i' nonce' round' => exact absurd ha (preimages_separate hb)
    | provider i' nonce' round' => exact provider_content ha hb

/-- A commitment is the digest of the preimage. -/
theorem commitment_eq_ok {Γ : Crypto} {a : CommitInput} {c : Bytes 32} (h : a.commitment Γ = .ok c) :
    ∃ p, a.preimage = .ok p ∧ Γ.blake2s256 p = c := by
  cases a with
  | requester i nonce round =>
    obtain ⟨p, hp, hc⟩ := Except.bind_eq_ok h
    exact ⟨p, hp, Except.ok.inj hc⟩
  | provider i nonce round =>
    obtain ⟨p, hp, hc⟩ := Except.bind_eq_ok h
    exact ⟨p, hp, Except.ok.inj hc⟩

end CommitmentsAux

open CommitmentsAux

/-- **Commitments determine what they commit to.** The preimage that a builder returns determines the role, the round, the node,
the capabilities in order, the price and the nonce it was built from; and so does the commitment, unless the hash collides on
the two preimages. -/
theorem preimages_determine_content :
    (∀ (a b : CommitInput) (p : List UInt8), a.preimage = .ok p → b.preimage = .ok p → a.content = b.content) ∧
    ∀ (Γ : Crypto) (a b : CommitInput) (c : Bytes 32), a.commitment Γ = .ok c → b.commitment Γ = .ok c →
      (∀ p q, a.preimage = .ok p → b.preimage = .ok q → Γ.NoCollision p q) → a.content = b.content := by
  refine ⟨?_, ?_⟩
  · intro a b p ha hb
    exact content_of_preimage ha hb
  · intro Γ a b c ha hb hnc
    obtain ⟨p, hp, hpc⟩ := commitment_eq_ok ha
    obtain ⟨q, hq, hqc⟩ := commitment_eq_ok hb
    obtain rfl := hnc p q hp hq (hpc.trans hqc.symm)
    exact content_of_preimage hp hq

/-- What a requester with a budget commits to. -/
def Sample.commitInput (budget : UInt64) : CommitInput :=
  .requester ⟨Sample.requester, Sample.gpu, budget, none⟩ (List.Vector.replicate 32 0) 0

/-- Two budgets have two preimages. -/
theorem preimages_determine_sample : ∃ p q, (Sample.commitInput 250).preimage = .ok p ∧ (Sample.commitInput 251).preimage = .ok q ∧
    p ≠ q := by
  refine ⟨_, _, rfl, rfl, ?_⟩
  intro h
  have hsame := preimages_determine_content.1 (Sample.commitInput 250) (Sample.commitInput 251) _ rfl (congrArg Except.ok h.symm)
  exact absurd (congrArg CommitContent.price hsame) (by decide)

end VertexVeil
