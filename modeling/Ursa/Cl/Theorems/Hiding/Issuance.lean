import Ursa.Cl.Theorems.Hiding.Predicate

namespace Ursa

open BigNumber UrsaCryptoResult StatDist

-- What the blinded secrets and their proof are made of, besides the draws and the challenge.
structure BlindingRun where
  pPubKey : CredentialPrimaryPublicKey
  values : CredentialValues

namespace Prover.BlindingDraws

-- The same draws, but for one blinding.
def withVDashTilde (draws : BlindingDraws) (x : BnRand largeVPrimeTilde) : BlindingDraws :=
  { draws with vDashTilde := x }

def withMTilde (draws : BlindingDraws) (a : String) (x : BnRand largeMTilde) : BlindingDraws :=
  { draws with mTilde := Function.update draws.mTilde a x }

end Prover.BlindingDraws

namespace BlindingRun

open Prover

variable {B B' : BlindingRun} {draws draws' : BlindingDraws} {c : ℤ} {a : String}
variable {pk : CredentialPrimaryPublicKey} {vals : CredentialValues} {val : CredentialValue}

def prove (B : BlindingRun) (draws : BlindingDraws) (c : BigNumber) :
    UrsaCryptoResult BlindedCredentialSecretsCorrectnessProof := do
  let secrets ← generateBlindedPrimaryCredentialSecretsFactors B.pPubKey B.values draws
  let st ← commitSecrets B.pPubKey secrets B.values draws
  respondSecrets secrets B.values draws st c

def Total (B : BlindingRun) (c : ℤ) : Prop :=
  ∀ draws, ∃ proof, B.prove draws c = .ok proof

-- The attributes whose values only the prover knows.
def secretValue (B : BlindingRun) (a : String) : Option BigNumber :=
  (B.values.attrsValues.lookup a).bind fun value =>
    if value.isHidden || value.isCommitment then some value.value else none

theorem secretValue_eq_some (h : B.secretValue a = some x) :
    ∃ value, B.values.attrsValues.lookup a = some value ∧ value.value = x ∧
      (value.isHidden || value.isCommitment) := by
  obtain ⟨value, hv, hx⟩ := Option.bind_eq_some_iff.mp h
  split at hx
  case isTrue hsecret => exact ⟨value, hv, Option.some.inj hx, hsecret⟩
  case isFalse => cases hx

theorem commitSecret_eq_ok
    (h : commitSecret pk secrets draws st entry = .ok st') :
    st'.mTildes = st.mTildes.insert entry.1 (draws.mTilde entry.1).value := by
  obtain ⟨attr, value⟩ := entry
  cases value <;>
    simp only [commitSecret, bind_eq_ok_iff, okOrElse_eq_ok_iff, pure_eq_ok_iff] at h
  case known =>
    obtain ⟨_, -, rfl⟩ := h
    rfl
  case hidden =>
    obtain ⟨_, -, _, -, _, -, rfl⟩ := h
    rfl
  case commitment =>
    obtain ⟨_, -, _, -, _, -, rfl⟩ := h
    rfl

theorem lookup_commitSecrets (ha : B.secretValue a = some x)
    (h : commitSecrets B.pPubKey secrets B.values draws = .ok st) :
    st.mTildes.lookup a = some ((draws.mTilde a).value : ℤ) := by
  obtain ⟨value, hv, -, hsecret⟩ := secretValue_eq_some ha
  simp only [commitSecrets, bind_eq_ok_iff] at h
  obtain ⟨uTilde, -, h⟩ := h
  have hmem : (a, value) ∈ B.values.attrsValues.iter.filter fun entry =>
      entry.2.isHidden || entry.2.isCommitment :=
    List.mem_filter.mpr ⟨BTreeMap.mem_iter.mpr hv, hsecret⟩
  refine foldlM_assigns (P := fun entry => entry.1 = a) (·.mTildes.lookup a)
    (fun entry _ st st' hb => ?_) (.inl ⟨_, hmem, rfl⟩) h
  rw [commitSecret_eq_ok hb]
  split
  case isTrue hab => rw [hab, Finmap.lookup_insert]
  case isFalse hab => exact Finmap.lookup_insert_of_ne _ (Ne.symm hab)

theorem respondSecret_eq_ok (hv : vals.attrsValues.lookup entry.1 = some val)
    (hsecret : val.isHidden || val.isCommitment)
    (h : respondSecret vals c rTildes caps entry = .ok caps') :
    caps'.1 = caps.1.insert entry.1 (entry.2 + c * val.value) := by
  obtain ⟨attr, mTilde⟩ := entry
  obtain ⟨mCaps, rCaps⟩ := caps
  simp only [respondSecret, bind_eq_ok_iff, okOrElse_eq_ok_iff] at h
  obtain ⟨val', hv', h⟩ := h
  obtain rfl := Option.some.inj <| hv.symm.trans hv'
  cases val <;> simp only [bind_eq_ok_iff, okOrElse_eq_ok_iff, pure_eq_ok_iff] at h
  case known => cases hsecret
  case hidden => rw [← h]; rfl
  case commitment =>
    obtain ⟨_, -, rfl⟩ := h
    rfl

theorem respondSecret_of_ne (hne : entry.1 ≠ a)
    (h : respondSecret vals c rTildes caps entry = .ok caps') :
    caps'.1.lookup a = caps.1.lookup a := by
  obtain ⟨attr, mTilde⟩ := entry
  obtain ⟨mCaps, rCaps⟩ := caps
  simp only [respondSecret, bind_eq_ok_iff, okOrElse_eq_ok_iff] at h
  obtain ⟨val, -, h⟩ := h
  cases val <;> simp only [bind_eq_ok_iff, okOrElse_eq_ok_iff, pure_eq_ok_iff] at h
  case known => rw [← h]
  case hidden =>
    rw [← h]
    exact Finmap.lookup_insert_of_ne _ (Ne.symm hne)
  case commitment =>
    obtain ⟨_, -, rfl⟩ := h
    exact Finmap.lookup_insert_of_ne _ (Ne.symm hne)

-- The responses: challenge times secret, plus the draw that blinds it.
theorem prove_eq_ok (h : B.prove draws c = .ok proof) :
    proof.vDashCap = c * draws.vPrime.value + draws.vDashTilde.value ∧
      ∀ a x, B.secretValue a = some x →
        proof.mCaps.lookup a = some (c * x + (draws.mTilde a).value) := by
  simp only [prove, bind_eq_ok_iff] at h
  obtain ⟨secrets, hsecrets, st, hst, h⟩ := h
  simp only [respondSecrets, bind_eq_ok_iff, pure_eq_ok_iff] at h
  obtain ⟨⟨mCaps, rCaps⟩, hcaps, rfl⟩ := h
  simp only [generateBlindedPrimaryCredentialSecretsFactors, bind_eq_ok_iff,
    pure_eq_ok_iff] at hsecrets
  obtain ⟨u, -, committed, -, rfl⟩ := hsecrets
  refine ⟨rfl, fun a x ha => ?_⟩
  have hlookup := lookup_commitSecrets ha hst
  obtain ⟨value, hv, rfl, hsecret⟩ := secretValue_eq_some ha
  refine foldlM_assigns (P := fun entry => entry.1 = a) (·.1.lookup a)
    (fun entry hentry caps caps' hb => ?_) (.inl ⟨_, BTreeMap.mem_iter.mpr hlookup, rfl⟩) hcaps
  split
  case isTrue hab =>
    subst hab
    have hmTilde := BTreeMap.mem_iter.mp hentry
    obtain hval := Option.some.inj <| hlookup.symm.trans hmTilde
    rw [respondSecret_eq_ok hv hsecret hb, Finmap.lookup_insert, ← hval, add_comm]
  case isFalse hab => exact respondSecret_of_ne hab hb

section Distributions

variable (B : BlindingRun) (draws : BlindingDraws) (c : ℤ)

noncomputable def vDashDist : PMF (UrsaCryptoResult BigNumber) :=
  drawn fun x => (·.vDashCap) <$> B.prove (draws.withVDashTilde x) c

noncomputable def mDist (a : String) : PMF (UrsaCryptoResult (Option BigNumber)) :=
  drawn fun x => (·.mCaps.lookup a) <$> B.prove (draws.withMTilde a x) c

end Distributions

theorem map_prove {f : BlindedCredentialSecretsCorrectnessProof → α} (hok : B.Total c)
    (hf : ∀ proof, B.prove draws c = .ok proof → f proof = x) :
    f <$> B.prove draws c = .ok x := by
  obtain ⟨proof, h⟩ := hok draws
  rw [h, ← hf proof h]
  rfl

theorem vDashDist_eq (hok : B.Total c) :
    B.vDashDist draws c = drawn fun x : BnRand largeVPrimeTilde =>
      .ok (c * draws.vPrime.value + x.value) := by
  rw [vDashDist]
  congr 1
  funext x
  exact map_prove hok fun proof h => (prove_eq_ok h).1

theorem mDist_eq (hok : B.Total c) (ha : B.secretValue a = some m) :
    B.mDist draws c a = drawn fun x : BnRand largeMTilde =>
      .ok (some (c * m + x.value)) := by
  rw [mDist]
  congr 1
  funext x
  refine map_prove hok fun proof h => ?_
  rw [(prove_eq_ok h).2 a m ha]
  simp [BlindingDraws.withMTilde]

-- The secret values are those of attributes, 256 bits long.
def InRange (B : BlindingRun) : Prop :=
  ∀ a x, B.secretValue a = some x → (x : ℤ).natAbs < 2 ^ 256

-- No response tells two choices of the secrets apart with a probability of more than `2 ^ -78`.
structure Hides (B B' : BlindingRun) (draws draws' : BlindingDraws) (c : ℤ) : Prop where
  vDash : statDist (B.vDashDist draws c) (B'.vDashDist draws' c) ≤ 1 / 2 ^ 78
  m : ∀ a x x', B.secretValue a = some x → B'.secretValue a = some x' →
    statDist (B.mDist draws c a) (B'.mDist draws' c a) ≤ 1 / 2 ^ 78

-- The two `v_prime` differ by little enough for a blinding of 673 bits.
def Masked (draws draws' : BlindingDraws) (c : ℤ) : Prop :=
  2 ^ 78 * (c * draws.vPrime.value - c * draws'.vPrime.value).natAbs ≤ 2 ^ largeVPrimeTilde

theorem hides_iff (hc₀ : 0 ≤ c) (hc : c < 2 ^ 256) (hB : B.InRange) (hB' : B'.InRange)
    (hok : B.Total c) (hok' : B'.Total c) :
    Hides B B' draws draws' c ↔ Masked draws draws' c := by
  have hcabs : c.natAbs ≤ 2 ^ 256 := by omega
  have hreveal : Function.Injective fun x : ℤ => (.ok (some x) : UrsaCryptoResult (Option ℤ)) :=
    ok_injective.comp <| Option.some_injective _
  have hvDash : statDist (B.vDashDist draws c) (B'.vDashDist draws' c) ≤ 1 / 2 ^ 78 ↔
      Masked draws draws' c := by
    rw [vDashDist_eq hok, vDashDist_eq hok', BnRand.mask_le_iff ok_injective, Masked]
  constructor
  case mp => exact fun h => hvDash.mp h.vDash
  case mpr =>
    intro h
    refine ⟨hvDash.mpr h, fun a x x' hx hx' => ?_⟩
    rw [mDist_eq hok hx, mDist_eq hok' hx', BnRand.mask_le_iff hreveal]
    have hxabs := hB a x hx
    have hxabs' := hB' a x' hx'
    refine two_pow_mul_natAbs_le hcabs (j := 257) ?_ (by decide)
    omega

-- When the run ends with a proof: every secret attribute has a base, and no exponent is negative.
structure Provable (B : BlindingRun) : Prop where
  n : B.pPubKey.n ≠ 0
  base : ∀ a x, B.secretValue a = some x → a ∈ B.pPubKey.r
  value : ∀ a x, B.secretValue a = some x → (0 : ℤ) ≤ x
  blindingFactor : ∀ a x b, B.values.attrsValues.lookup a = some (.commitment x b) → (0 : ℤ) ≤ b

theorem secretValue_of_hidden (ha : B.values.attrsValues.lookup a = some (.hidden x)) :
    B.secretValue a = some x := by
  simp [secretValue, ha, CredentialValue.isHidden, CredentialValue.value]

theorem secretValue_of_commitment (ha : B.values.attrsValues.lookup a = some (.commitment x b)) :
    B.secretValue a = some x := by
  simp [secretValue, ha, CredentialValue.isCommitment, CredentialValue.value]

theorem Provable.blindHiddenAttr_ok (h : B.Provable)
    (ha : B.values.attrsValues.lookup a = some (.hidden x)) (y : BigNumber) :
    ∃ y', blindHiddenAttr B.pPubKey B.values (.ok y) a = .ok y' := by
  have hsecret := secretValue_of_hidden ha
  obtain ⟨r, hr⟩ := Finmap.mem_iff.mp <| h.base a x hsecret
  obtain ⟨power, hpower⟩ : ∃ y, modExp r x B.pPubKey.n = .ok y :=
    modExp_ok_iff.mpr ⟨h.n, .inl <| h.value a x hsecret⟩
  obtain ⟨y', hy'⟩ := modMul_ok h.n y power
  exact ⟨y', by
    simpa [blindHiddenAttr, okOrElse, hr, ha, CredentialValue.value, hpower] using hy'⟩

theorem Provable.commitAttr_ok (h : B.Provable) (hentry : entry ∈ B.values.attrsValues.iter)
    (m : BTreeMap BigNumber) : ∃ m', commitAttr B.pPubKey m entry = .ok m' := by
  obtain ⟨a, value⟩ := entry
  have ha := BTreeMap.mem_iter.mp hentry
  cases value
  case known x => exact ⟨m, rfl⟩
  case hidden x => exact ⟨m, rfl⟩
  case commitment x b =>
    obtain ⟨y, hy⟩ := getPedersenCommitment_ok h.n
      (.inl <| h.blindingFactor a x b ha : PowDefined B.pPubKey.s b B.pPubKey.n)
      (.inl <| h.value a x <| secretValue_of_commitment ha : PowDefined B.pPubKey.z x B.pPubKey.n)
    exact ⟨m.insert a y, by simp [commitAttr, hy]⟩

theorem Provable.secrets_ok (h : B.Provable) (draws : BlindingDraws) : ∃ secrets,
    generateBlindedPrimaryCredentialSecretsFactors B.pPubKey B.values draws = .ok secrets := by
  obtain ⟨u₀, hu₀⟩ : ∃ y, modExp B.pPubKey.s draws.vPrime.value B.pPubKey.n = .ok y :=
    modExp_ok_iff.mpr ⟨h.n, .inl draws.vPrime.value_nonneg⟩
  have hblind : ∀ a ∈ BTreeSet.iter
      ((B.values.attrsValues.iter.filter (·.2.isHidden)).map Prod.fst).toFinset,
      ∀ y, ∃ y', blindHiddenAttr B.pPubKey B.values (.ok y) a = .ok y' := by
    intro a ha
    simp only [BTreeSet.mem_iter, List.mem_toFinset, List.mem_map, List.mem_filter] at ha
    obtain ⟨⟨a, value⟩, ⟨hentry, hhidden⟩, rfl⟩ := ha
    cases value <;> cases hhidden
    exact h.blindHiddenAttr_ok <| BTreeMap.mem_iter.mp hentry
  obtain ⟨u, hu⟩ := foldResult_ok hblind u₀
  obtain ⟨committed, hcommitted⟩ := foldlM_ok (fun _ hentry m => h.commitAttr_ok hentry m) ∅
  exact ⟨_, by
    simp only [generateBlindedPrimaryCredentialSecretsFactors, hu₀, hu, hcommitted, ok_bind]
    rfl⟩

-- Every committed attribute has its commitment among the factors.
theorem lookup_committedAttributes
    (h : generateBlindedPrimaryCredentialSecretsFactors B.pPubKey B.values draws = .ok secrets)
    (ha : B.values.attrsValues.lookup a = some (.commitment x b)) :
    a ∈ secrets.committedAttributes := by
  simp only [generateBlindedPrimaryCredentialSecretsFactors, bind_eq_ok_iff, pure_eq_ok_iff] at h
  obtain ⟨u, -, committed, hcommitted, rfl⟩ := h
  have hinv := foldlM_invariant
    (I := fun l m => (a, CredentialValue.commitment x b) ∈ l ∨ a ∈ m)
    (fun entry l m m' hI hm => ?_) (.inl <| BTreeMap.mem_iter.mpr ha) hcommitted
  · exact hinv.resolve_left List.not_mem_nil
  · obtain ⟨k, value⟩ := entry
    cases value <;>
      simp only [commitAttr, bind_eq_ok_iff, pure_eq_ok_iff] at hm
    case known y => simpa [hm] using hI
    case hidden y => simpa [hm] using hI
    case commitment y b' =>
      obtain ⟨commitment, -, rfl⟩ := hm
      rw [Finmap.mem_insert]
      obtain hmem | hmem := hI
      · obtain heq | hmem := List.mem_cons.mp hmem
        · exact .inr <| .inl <| congrArg Prod.fst heq
        · exact .inl hmem
      · exact .inr <| .inr hmem

theorem Provable.commitSecret_ok (h : B.Provable)
    (hsecrets : generateBlindedPrimaryCredentialSecretsFactors B.pPubKey B.values draws =
      .ok secrets) (hentry : entry ∈ B.values.attrsValues.iter)
    (hsecret : entry.2.isHidden || entry.2.isCommitment) (st : SecretsCommitments) :
    ∃ st', commitSecret B.pPubKey secrets draws st entry = .ok st' := by
  obtain ⟨a, value⟩ := entry
  have ha := BTreeMap.mem_iter.mp hentry
  have hm₀ := (draws.mTilde a).value_nonneg
  cases value
  case known x => cases hsecret
  case hidden x =>
    obtain ⟨r, hr⟩ := Finmap.mem_iff.mp <| h.base a x <| secretValue_of_hidden ha
    obtain ⟨power, hpower⟩ : ∃ y, modExp r (draws.mTilde a).value B.pPubKey.n = .ok y :=
      modExp_ok_iff.mpr ⟨h.n, .inl hm₀⟩
    obtain ⟨uTilde, huTilde⟩ := modMul_ok h.n st.uTilde power
    exact ⟨_, by
      simp only [commitSecret, okOrElse, hr, hpower, huTilde, ok_bind]
      rfl⟩
  case commitment x b =>
    obtain ⟨r, hr⟩ := Finmap.mem_iff.mp <| h.base a x <| secretValue_of_commitment ha
    obtain ⟨y, hy⟩ := getPedersenCommitment_ok h.n
      (.inl hm₀ : PowDefined B.pPubKey.z (draws.mTilde a).value B.pPubKey.n)
      (.inl (draws.rTilde a).value_nonneg : PowDefined B.pPubKey.s _ B.pPubKey.n)
    obtain ⟨ca, hca⟩ := Finmap.mem_iff.mp <| lookup_committedAttributes hsecrets ha
    exact ⟨_, by
      simp only [commitSecret, okOrElse, hr, hy, hca, ok_bind]
      rfl⟩

theorem Provable.commitSecrets_ok (h : B.Provable)
    (hsecrets : generateBlindedPrimaryCredentialSecretsFactors B.pPubKey B.values draws =
      .ok secrets) : ∃ st, commitSecrets B.pPubKey secrets B.values draws = .ok st := by
  obtain ⟨uTilde, huTilde⟩ : ∃ y, modExp B.pPubKey.s draws.vDashTilde.value B.pPubKey.n = .ok y :=
    modExp_ok_iff.mpr ⟨h.n, .inl draws.vDashTilde.value_nonneg⟩
  obtain ⟨st, hst⟩ := foldlM_ok (fun entry hentry st => by
    obtain ⟨hentry, hsecret⟩ := List.mem_filter.mp hentry
    exact h.commitSecret_ok hsecrets hentry hsecret st)
    ({ uTilde, mTildes := ∅, rTildes := ∅, values := [] } : SecretsCommitments)
  exact ⟨st, by simpa only [commitSecrets, huTilde, ok_bind] using hst⟩

theorem commitSecret_rTildes (h : commitSecret pk secrets draws st entry = .ok st') :
    (∀ a ∈ st.rTildes, a ∈ st'.rTildes) ∧ (entry.2.isCommitment → entry.1 ∈ st'.rTildes) := by
  obtain ⟨attr, value⟩ := entry
  cases value <;>
    simp only [commitSecret, bind_eq_ok_iff, okOrElse_eq_ok_iff, pure_eq_ok_iff] at h
  case known =>
    obtain ⟨_, -, rfl⟩ := h
    exact ⟨fun _ => id, fun hc => absurd hc Bool.false_ne_true⟩
  case hidden =>
    obtain ⟨_, -, _, -, _, -, rfl⟩ := h
    exact ⟨fun _ => id, fun hc => absurd hc Bool.false_ne_true⟩
  case commitment =>
    obtain ⟨_, -, _, -, _, -, rfl⟩ := h
    exact ⟨fun a ha => Finmap.mem_insert.mpr <| .inr ha, fun _ => Finmap.mem_insert.mpr <| .inl rfl⟩

-- What `respondSecret` looks up.
def Responds (B : BlindingRun) (st : SecretsCommitments) (a : String) : Prop :=
  ∃ value, B.values.attrsValues.lookup a = some value ∧ (value.isCommitment → a ∈ st.rTildes)

theorem responds_commitSecrets (h : commitSecrets B.pPubKey secrets B.values draws = .ok st) :
    ∀ a ∈ st.mTildes, B.Responds st a := by
  simp only [commitSecrets, bind_eq_ok_iff] at h
  obtain ⟨uTilde, -, h⟩ := h
  refine (foldlM_invariant
    (I := fun l st => (∀ entry ∈ l, entry ∈ B.values.attrsValues.iter) ∧
      ∀ a ∈ st.mTildes, B.Responds st a) ?_ ⟨?_, ?_⟩ h).2
  · rintro entry l st st' ⟨hl, hst⟩ hb
    refine ⟨fun entry hentry => hl entry <| .tail _ hentry, fun a ha => ?_⟩
    obtain ⟨hmono, hentry⟩ := commitSecret_rTildes hb
    rw [commitSecret_eq_ok hb, Finmap.mem_insert] at ha
    obtain rfl | ha := ha
    · exact ⟨entry.2, BTreeMap.mem_iter.mp <| hl entry <| .head _, hentry⟩
    · obtain ⟨value, hv, hr⟩ := hst a ha
      exact ⟨value, hv, fun hc => hmono a <| hr hc⟩
  · exact fun entry hentry => (List.mem_filter.mp hentry).1
  · exact fun a ha => absurd ha Finmap.notMem_empty

theorem Responds.respondSecret_ok (h : B.Responds st entry.1)
    (caps : BTreeMap BigNumber × BTreeMap BigNumber) :
    ∃ caps', respondSecret B.values c st.rTildes caps entry = .ok caps' := by
  obtain ⟨attr, mTilde⟩ := entry
  obtain ⟨value, hv, hr⟩ := h
  cases value
  case known => exact ⟨_, by simp only [respondSecret, hv, okOrElse, ok_bind]; rfl⟩
  case hidden => exact ⟨_, by simp only [respondSecret, hv, okOrElse, ok_bind]; rfl⟩
  case commitment =>
    obtain ⟨rTilde, hrTilde⟩ := Finmap.mem_iff.mp <| hr rfl
    exact ⟨_, by simp only [respondSecret, hv, hrTilde, okOrElse, ok_bind]; rfl⟩

theorem Provable.total (h : B.Provable) (c : ℤ) : B.Total c := by
  intro draws
  obtain ⟨secrets, hsecrets⟩ := h.secrets_ok draws
  obtain ⟨st, hst⟩ := h.commitSecrets_ok hsecrets
  have hresponds := responds_commitSecrets hst
  obtain ⟨caps, hcaps⟩ := foldlM_ok (f := respondSecret B.values c st.rTildes)
    (l := st.mTildes.iter) (fun entry hentry caps =>
      (hresponds _ <| Finmap.mem_of_lookup_eq_some <|
        BTreeMap.mem_iter.mp hentry).respondSecret_ok caps) (∅, ∅)
  exact ⟨_, by
    simp only [prove, hsecrets, hst, respondSecrets, hcaps, ok_bind]
    rfl⟩

end BlindingRun

theorem PredicateRun.masked_self (draws : NeProofDraws) (c : ℤ) : Masked draws draws c where
  r i _ := by rw [sub_self]; exact Nat.zero_le _
  rDelta := by rw [sub_self]; exact Nat.zero_le _

theorem BlindingRun.masked_self (draws : Prover.BlindingDraws) (c : ℤ) : Masked draws draws c := by
  rw [Masked, sub_self]
  exact Nat.zero_le _

-- A draw of `size` bits does not mask as many bits.
theorem not_masked {draw draw' : BnRand largeVPrime} (h : 2 ^ size ≤ draw.val)
    (h' : draw'.val = 0) :
    ¬2 ^ 78 * (1 * draw.value - 1 * draw'.value : ℤ).natAbs ≤ 2 ^ size := by
  rw [BnRand.value, BnRand.value, h', one_mul, one_mul, Nat.cast_zero, sub_zero,
    Int.natAbs_natCast, not_le]
  exact h.trans_lt <| lt_mul_of_one_lt_left (lt_of_lt_of_le (by positivity) h) (by decide)

-- The predicate proofs of a presentation and the blinded secrets of an issuance hide their secrets
-- exactly when the secrets of 2128 bits happen to be close to each other.
theorem responses_hide_iff {P P' : PredicateRun} {B B' : BlindingRun}
    {neDraws neDraws' : NeProofDraws} {draws draws' : Prover.BlindingDraws} {c : ℤ} (hc₀ : 0 ≤ c)
    (hc : c < 2 ^ 256) (hP : P.Total c) (hP' : P'.Total c) (hB : B.Total c) (hB' : B'.Total c)
    (hrange : B.InRange) (hrange' : B'.InRange) :
    PredicateRun.Hides P P' neDraws neDraws' c ∧ BlindingRun.Hides B B' draws draws' c ↔
      PredicateRun.Masked neDraws neDraws' c ∧ BlindingRun.Masked draws draws' c :=
  and_congr (PredicateRun.hides_iff hc₀ hc hP hP')
    (BlindingRun.hides_iff hc₀ hc hrange hrange' hB hB')

section MasterSecret

def issuancePubKey : CredentialPrimaryPublicKey where
  n := 77
  s := 15
  r := ((∅ : HashMap BigNumber).insert "age" 16).insert "master_secret" 4
  rctxt := 9
  z := 37

-- Blinds a master secret.
def masterSecretRun (m : ℤ) : BlindingRun where
  pPubKey := issuancePubKey
  values := ⟨(∅ : BTreeMap CredentialValue).insert "master_secret" (.hidden m)⟩

-- Proves of the age 20 that it is at least 18.
def agePredicateRun : PredicateRun where
  pPubKey := issuancePubKey
  mTilde := (∅ : HashMap BigNumber).insert "age" 7
  values := ⟨(∅ : BTreeMap CredentialValue).insert "age" (.known 20)⟩
  predicate := ⟨"age", .GE, 18⟩
  eqProof :=
    { revealedAttrs := ∅, aPrime := 36, e := 0, v := 0, m := (∅ : HashMap BigNumber).insert "age" 7
      m2 := 0 }

-- One of the numbers of 2128 bits that are drawn.
def powerDraw (bits : ℕ) (h : bits < largeVPrime) : BnRand largeVPrime :=
  ⟨2 ^ bits, Nat.pow_lt_pow_right (by decide) h⟩

def wideDraw : BnRand largeVPrime :=
  powerDraw 673 (by decide)

def zeroDraw : BnRand largeVPrime :=
  ⟨0, Nat.two_pow_pos _⟩

theorem zeroDraw_val : zeroDraw.val = 0 :=
  rfl

theorem two_pow_le_powerDraw (hbits : bits < largeVPrime) (h : size ≤ bits) :
    2 ^ size ≤ (powerDraw bits hbits).val :=
  Nat.pow_le_pow_right (by decide) h

def blindingOf (x : BnRand largeVPrime) : Prover.BlindingDraws where
  vPrime := x
  vDashTilde := 0
  mTilde _ := 0
  rTilde _ := 0

def neDrawsOf (x : BnRand largeVPrime) : NeProofDraws where
  r _ := x
  rDelta := x
  uTilde _ := 0
  rTilde _ := 0
  rTildeDelta := 0
  alphaTilde := 0

theorem blindingOf_vPrime (x : BnRand largeVPrime) : (blindingOf x).vPrime = x :=
  rfl

theorem neDrawsOf_rDelta (x : BnRand largeVPrime) : (neDrawsOf x).rDelta = x :=
  rfl

theorem lookup_masterSecretRun
    (h : (masterSecretRun m).values.attrsValues.lookup a = some value) :
    a = "master_secret" ∧ value = .hidden m := by
  by_cases ha : a = "master_secret"
  case pos =>
    subst ha
    exact ⟨rfl, Option.some.inj <| h.symm.trans rfl⟩
  case neg => simp [masterSecretRun, Finmap.lookup_insert_of_ne, ha] at h

theorem secretValue_masterSecretRun (h : (masterSecretRun m).secretValue a = some x) :
    a = "master_secret" ∧ x = m := by
  obtain ⟨value, hv, rfl, -⟩ := BlindingRun.secretValue_eq_some h
  obtain ⟨ha, rfl⟩ := lookup_masterSecretRun hv
  exact ⟨ha, rfl⟩

theorem masterSecretRun_inRange (h : m.natAbs < 2 ^ 256) : (masterSecretRun m).InRange :=
  fun _ _ hx => (secretValue_masterSecretRun hx).2 ▸ h

theorem masterSecretRun_provable (hm : 0 ≤ m) : (masterSecretRun m).Provable where
  n := show (77 : ℤ) ≠ 0 by decide
  base a x hx := by
    obtain ⟨rfl, -⟩ := secretValue_masterSecretRun hx
    exact Finmap.mem_insert.mpr <| .inl rfl
  value a x hx := (secretValue_masterSecretRun hx).2 ▸ hm
  blindingFactor a x b hx := by cases (lookup_masterSecretRun hx).2

theorem agePredicateRun_provable : agePredicateRun.Provable where
  n := by decide
  s := by decide
  value := ⟨.known 20, 20, rfl, rfl, by decide⟩
  mTilde := ⟨7, rfl, by decide⟩
  response := Finmap.mem_insert.mpr <| .inl rfl

theorem responses_hide_iff_same :
    PredicateRun.Hides agePredicateRun agePredicateRun (neDrawsOf wideDraw) (neDrawsOf wideDraw)
        (2 ^ 255) ∧
      BlindingRun.Hides (masterSecretRun 5) (masterSecretRun 6) (blindingOf wideDraw)
        (blindingOf wideDraw) (2 ^ 255) := by
  have hP := agePredicateRun_provable.total (2 ^ 255)
  exact (responses_hide_iff (by decide) (by decide) hP hP
    ((masterSecretRun_provable (by decide)).total _)
    ((masterSecretRun_provable (by decide)).total _) (masterSecretRun_inRange (by decide))
    (masterSecretRun_inRange (by decide))).mpr
      ⟨PredicateRun.masked_self _ _, BlindingRun.masked_self _ _⟩

-- The blindings of 672 and 673 bits are too short for randomness of 2128 bits.
theorem not_responses_hide :
    agePredicateRun.Total 1 ∧ (masterSecretRun 5).Total 1 ∧ (masterSecretRun 5).InRange ∧
      ¬PredicateRun.Hides agePredicateRun agePredicateRun (neDrawsOf wideDraw) (neDrawsOf zeroDraw)
        1 ∧
      ¬BlindingRun.Hides (masterSecretRun 5) (masterSecretRun 5) (blindingOf wideDraw)
        (blindingOf zeroDraw) 1 := by
  have hP := agePredicateRun_provable.total 1
  have hB := (masterSecretRun_provable (m := 5) (by decide)).total 1
  have hrange := masterSecretRun_inRange (m := 5) (by decide)
  refine ⟨hP, hB, hrange, fun h => ?_, fun h => ?_⟩
  · have hmasked := ((PredicateRun.hides_iff (by decide) (by decide) hP hP).mp h).rDelta
    rw [neDrawsOf_rDelta, neDrawsOf_rDelta] at hmasked
    have hwide : 2 ^ largeRTilde ≤ wideDraw.val := two_pow_le_powerDraw _ (by decide)
    exact not_masked hwide zeroDraw_val hmasked
  · have hmasked := (BlindingRun.hides_iff (by decide) (by decide) hrange hrange hB hB).mp h
    rw [BlindingRun.Masked, blindingOf_vPrime, blindingOf_vPrime] at hmasked
    have hwide : 2 ^ largeVPrimeTilde ≤ wideDraw.val := two_pow_le_powerDraw _ (by decide)
    exact not_masked hwide zeroDraw_val hmasked

end MasterSecret
end Ursa
