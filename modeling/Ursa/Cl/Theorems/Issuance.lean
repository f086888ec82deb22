import Ursa.Cl.Issuer
import Ursa.Cl.Theorems.Helpers

namespace Ursa

open BigNumber UrsaCryptoResult

variable {C : Curve} {env : Env} {nonce issuanceNonce : Nonce} {proverId : String}
variable {pubKey : CredentialPublicKey C} {privKey : CredentialPrivateKey C}
variable {values : CredentialValues} {secrets : BlindedCredentialSecrets C}
variable {proof : BlindedCredentialSecretsCorrectnessProof} {draws : SignDraws}

namespace CredentialValues

-- The issuer signs the value `x` for the attribute `a`.
def Knows (values : CredentialValues) (a : String) (x : BigNumber) : Prop :=
  values.attrsValues.lookup a = some (.known x)

theorem Knows.mem_names (h : values.Knows a x) : a ∈ values.names (·.isKnown) :=
  CredentialValues.mem_names.mpr ⟨_, h, rfl⟩

theorem Knows.exponents_eq (h : values.Knows a x) : values.exponents a = x :=
  CredentialValues.exponents_eq h

end CredentialValues

namespace Issuer

section Sign

theorem mem_knownAttrs :
    (a, attr) ∈ knownAttrs values ↔ ∃ x, attr = .known x ∧ values.Knows a x := by
  rw [knownAttrs, List.mem_filter, BTreeMap.mem_iter]
  cases attr <;> simp [CredentialValue.isKnown, CredentialValues.Knows]

-- A base that is there, with a power that has an inverse.
def SignsAttr (pPubKey : CredentialPrimaryPublicKey) (entry : String × CredentialValue) : Prop :=
  ∃ r, pPubKey.r.lookup entry.1 = some r ∧ PowUnit r entry.2.value pPubKey.n

theorem signKnownAttr_eq_ok {pPubKey : CredentialPrimaryPublicKey} (hn : 1 < pPubKey.n.natAbs)
    (h : signKnownAttr pPubKey rx entry = .ok rx')
    (hunit : IsUnit ((rx' : ℤ) : ZMod pPubKey.n.natAbs)) :
    IsUnit ((rx : ℤ) : ZMod pPubKey.n.natAbs) ∧ SignsAttr pPubKey entry := by
  simp only [signKnownAttr, bind_eq_ok_iff, okOrElse_eq_ok_iff] at h
  obtain ⟨r, hr, power, hpower, h⟩ := h
  rw [modMul_cast h, IsUnit.mul_iff] at hunit
  exact ⟨hunit.2, r, hr, (isUnit_modExp_iff hn hpower).mp hunit.1⟩

theorem signKnownAttr_ok {pPubKey : CredentialPrimaryPublicKey} (hn : 1 < pPubKey.n.natAbs)
    (h : SignsAttr pPubKey entry) (hunit : IsUnit ((rx : ℤ) : ZMod pPubKey.n.natAbs)) :
    ∃ rx', signKnownAttr pPubKey rx entry = .ok rx' ∧
      IsUnit ((rx' : ℤ) : ZMod pPubKey.n.natAbs) := by
  obtain ⟨r, hr, hpow⟩ := h
  obtain ⟨power, hpower, hpowerUnit⟩ := modExp_ok_of_powUnit hn hpow
  obtain ⟨rx', hok⟩ := modMul_ok (ne_zero_of_one_lt hn) power rx
  refine ⟨rx', by simpa [signKnownAttr, hr, okOrElse, hpower] using hok, ?_⟩
  rw [modMul_cast hok]
  exact hpowerUnit.mul hunit

-- What the data of the signer must be like for a primary signature to come out.
structure CanSignPrimary (pubKey : CredentialPublicKey C) (privKey : CredentialPrivateKey C)
    (credContext : BigNumber) (values : CredentialValues) (v e : BigNumber) : Prop where
  s : PowUnit pubKey.pKey.s v pubKey.pKey.n
  rctxt : PowUnit pubKey.pKey.rctxt credContext pubKey.pKey.n
  known : ∀ entry ∈ knownAttrs values, SignsAttr pubKey.pKey entry
  order : 1 < (privKey.pKey.p * privKey.pKey.q : ℤ).natAbs
  e : Int.gcd e (privKey.pKey.p * privKey.pKey.q) = 1

variable {credContext v e : BigNumber}

theorem signBlinded_eq_ok {n : ℤ} (hn : 1 < n.natAbs) (hu : IsUnit ((u : ℤ) : ZMod n.natAbs))
    (h : signBlinded rx u n = .ok rx') :
    ((rx' : ℤ) : ZMod n.natAbs) = (rx : ℤ) * (u : ℤ) := by
  have hu₀ : u ≠ 0 := by
    rintro rfl
    have hgcd := ModArith.isUnit_cast_iff.mp hu
    rw [Int.gcd_zero_left] at hgcd
    omega
  rw [signBlinded, if_pos hu₀] at h
  exact modMul_cast h

theorem canSignPrimary_of_eq_ok (hn : 1 < pubKey.pKey.n.natAbs)
    (hu : IsUnit ((secrets.u : ℤ) : ZMod pubKey.pKey.n.natAbs))
    (h : signPrimaryCredential pubKey privKey credContext values v secrets e = .ok aq) :
    CanSignPrimary pubKey privKey credContext values v e := by
  simp only [signPrimaryCredential, bind_eq_ok_iff] at h
  obtain ⟨rx₁, hs, rx₂, hblinded, power, hpower, rx₃, hrx₃, rx, hknown, q, hq, eInverse, he, -⟩ := h
  obtain ⟨w, hw, -⟩ := modDiv_eq_ok hq
  obtain ⟨hunit, hknown⟩ := foldlM_backward
    (fun entry _ _ _ hok hunit => signKnownAttr_eq_ok hn hok hunit) hknown (hw ▸ w.isUnit)
  rw [modMul_cast hrx₃, signBlinded_eq_ok hn hu hblinded, IsUnit.mul_iff, IsUnit.mul_iff] at hunit
  obtain ⟨horder, he, -⟩ := inverse_eq_ok he
  exact ⟨(isUnit_modExp_iff hn hs).mp hunit.1.1, (isUnit_modExp_iff hn hpower).mp hunit.2, hknown,
    horder, he⟩

theorem signPrimaryCredential_ok (hn : 1 < pubKey.pKey.n.natAbs)
    (hu : IsUnit ((secrets.u : ℤ) : ZMod pubKey.pKey.n.natAbs))
    (h : CanSignPrimary pubKey privKey credContext values v e) :
    ∃ aq, signPrimaryCredential pubKey privKey credContext values v secrets e = .ok aq := by
  have hn₀ := ne_zero_of_one_lt hn
  obtain ⟨rx₁, hs, hsUnit⟩ := modExp_ok_of_powUnit hn h.s
  obtain ⟨rx₂, hblinded⟩ : ∃ rx₂, signBlinded rx₁ secrets.u pubKey.pKey.n = .ok rx₂ := by
    unfold signBlinded
    split
    · exact modMul_ok hn₀ rx₁ secrets.u
    · exact ⟨rx₁, rfl⟩
  obtain ⟨power, hpower, hpowerUnit⟩ := modExp_ok_of_powUnit hn h.rctxt
  obtain ⟨rx₃, hrx₃⟩ := modMul_ok hn₀ rx₂ power
  have hunit : IsUnit ((rx₃ : ℤ) : ZMod pubKey.pKey.n.natAbs) := by
    rw [modMul_cast hrx₃, signBlinded_eq_ok hn hu hblinded]
    exact (hsUnit.mul hu).mul hpowerUnit
  obtain ⟨rx, hknown, hrxUnit⟩ := foldlM_ok_invariant
    (fun entry hentry _ hunit => signKnownAttr_ok hn (h.known entry hentry) hunit) hunit
  obtain ⟨q, hq⟩ := modDiv_ok hn hrxUnit pubKey.pKey.z
  obtain ⟨eInverse, he⟩ := inverse_ok h.order h.e
  obtain ⟨a, ha⟩ : ∃ a, modExp q eInverse pubKey.pKey.n = .ok a :=
    modExp_ok_of_nonneg hn₀ (inverse_eq_ok he).2.2.2.1
  exact ⟨(a, q), by
    simp [signPrimaryCredential, hs, hblinded, hpower, hrx₃, hknown, hq, he, ha]⟩

theorem generateVPrimePrime_pos (draw : BnRand largeVPrimePrime) :
    (0 : ℤ) < generateVPrimePrime draw := by
  have hle : 2 ^ (largeVPrimePrime - 1) ≤ draw.val ||| 2 ^ (largeVPrimePrime - 1) :=
    Nat.right_le_or
  exact Int.ofNat_lt.mpr <| (Nat.two_pow_pos _).trans_le hle

theorem one_lt_natAbs_iff {N : ℤ} (hN : 0 < N) : 1 < N.natAbs ↔ 1 < N := by
  omega

-- What the issuer's own data must be like for any signature to come out: nothing here is about the
-- prover.
structure CanSign (env : Env) (proverId : String) (pubKey : CredentialPublicKey C)
    (privKey : CredentialPrivateKey C) (values : CredentialValues) (draws : SignDraws) : Prop where
  n : 1 < pubKey.pKey.n.natAbs
  s : Int.gcd pubKey.pKey.s pubKey.pKey.n = 1
  rctxt : PowUnit pubKey.pKey.rctxt (genCredentialContext env proverId none) pubKey.pKey.n
  known : ∀ a x, values.Knows a x →
    ∃ r, pubKey.pKey.r.lookup a = some r ∧ PowUnit r x pubKey.pKey.n
  order : 1 < privKey.pKey.p * privKey.pKey.q
  e : Int.gcd draws.e.value (privKey.pKey.p * privKey.pKey.q) = 1

theorem canSign_iff :
    CanSign env proverId pubKey privKey values draws ↔
      1 < pubKey.pKey.n.natAbs ∧ (0 : ℤ) < privKey.pKey.p * privKey.pKey.q ∧
        CanSignPrimary pubKey privKey (genCredentialContext env proverId none) values
          (generateVPrimePrime draws.vPrimePrime) draws.e.value := by
  have hs : PowUnit pubKey.pKey.s (generateVPrimePrime draws.vPrimePrime) pubKey.pKey.n ↔
      Int.gcd pubKey.pKey.s pubKey.pKey.n = 1 :=
    or_iff_right (generateVPrimePrime_pos draws.vPrimePrime).ne'
  constructor
  case mp =>
    intro h
    have hpos : (0 : ℤ) < privKey.pKey.p * privKey.pKey.q := zero_lt_one.trans h.order
    refine ⟨h.n, hpos, hs.mpr h.s, h.rctxt, fun entry hentry => ?_,
      (one_lt_natAbs_iff hpos).mpr h.order, h.e⟩
    obtain ⟨x, hx, hknows⟩ := mem_knownAttrs.mp hentry
    rw [SignsAttr, hx]
    exact h.known _ x hknows
  case mpr =>
    rintro ⟨hn, hpos, h⟩
    refine ⟨hn, hs.mp h.s, h.rctxt, fun a x hknows => ?_, (one_lt_natAbs_iff hpos).mp h.order, h.e⟩
    exact h.known (a, .known x) <| mem_knownAttrs.mpr ⟨x, rfl, hknows⟩

theorem isUnit_of_check {pPubKey : CredentialPrimaryPublicKey}
    (h : checkBlindedCredentialSecretsCorrectnessProof env secrets proof nonce pPubKey = .ok ()) :
    1 < pPubKey.n.natAbs ∧ IsUnit ((secrets.u : ℤ) : ZMod pPubKey.n.natAbs) := by
  simp only [checkBlindedCredentialSecretsCorrectnessProof, bind_eq_ok_iff] at h
  obtain ⟨inverse, hinverse, -⟩ := h
  exact ⟨(inverse_eq_ok hinverse).1, inverse_isUnit hinverse⟩

theorem newSignatureCorrectnessProof_ok {pPubKey : CredentialPrimaryPublicKey}
    {pPrivKey : CredentialPrimaryPrivateKey} {signature : PrimaryCredentialSignature}
    (hn : pPubKey.n ≠ 0) (horder : 1 < pPrivKey.p * pPrivKey.q)
    (he : Int.gcd signature.e (pPrivKey.p * pPrivKey.q) = 1) (q : BigNumber) (draw : ℕ) :
    ∃ proof, newSignatureCorrectnessProof env pPubKey pPrivKey signature q nonce draw =
      .ok proof := by
  have hpos : (0 : ℤ) < pPrivKey.p * pPrivKey.q := zero_lt_one.trans horder
  have hdraw : bnRandRange (pPrivKey.p * pPrivKey.q) draw =
      .ok (draw % (pPrivKey.p * pPrivKey.q) : ℤ) := if_pos hpos
  obtain ⟨aCap, haCap⟩ : ∃ aCap,
      modExp q (draw % (pPrivKey.p * pPrivKey.q) : ℤ) pPubKey.n = .ok aCap :=
    modExp_ok_of_nonneg hn <| Int.emod_nonneg _ hpos.ne'
  obtain ⟨eInverse, heInverse⟩ := inverse_ok ((one_lt_natAbs_iff hpos).mpr horder) he
  simp [newSignatureCorrectnessProof, hdraw, haCap, heInverse, modMul, modSub, hpos.ne']

theorem canSign_of_eq_ok (h : signCredential env proverId secrets proof nonce issuanceNonce values
    pubKey privKey draws = .ok result) : CanSign env proverId pubKey privKey values draws := by
  simp only [signCredential, newPrimaryCredential, newSignatureCorrectnessProof, bnRandRange,
    bind_eq_ok_iff, pure_eq_ok_iff] at h
  obtain ⟨⟨⟩, hcheck, _, ⟨aq, hsign, rfl⟩, _, ⟨r, hr, -⟩, -⟩ := h
  obtain ⟨hn, hu⟩ := isUnit_of_check hcheck
  have hpos : (0 : ℤ) < privKey.pKey.p * privKey.pKey.q := by
    by_contra hneg
    rw [if_neg hneg] at hr
    cases hr
  exact canSign_iff.mpr ⟨hn, hpos, canSignPrimary_of_eq_ok hn hu hsign⟩

-- Whoever passes the check gets a signature.
theorem signCredential_ok (h : CanSign env proverId pubKey privKey values draws)
    (hcheck : checkBlindedCredentialSecretsCorrectnessProof env secrets proof nonce pubKey.pKey =
      .ok ()) (issuanceNonce : Nonce) :
    ∃ result, signCredential env proverId secrets proof nonce issuanceNonce values pubKey privKey
      draws = .ok result := by
  obtain ⟨hn, hpos, hprimary⟩ := canSign_iff.mp h
  obtain ⟨-, hu⟩ := isUnit_of_check hcheck
  obtain ⟨aq, hsign⟩ := signPrimaryCredential_ok hn hu hprimary
  obtain ⟨correctness, hcorrectness⟩ : ∃ correctness, newSignatureCorrectnessProof env pubKey.pKey
      privKey.pKey
      { m2 := genCredentialContext env proverId none
        a := aq.1
        e := draws.e.value
        v := generateVPrimePrime draws.vPrimePrime } aq.2 issuanceNonce draws.r = .ok correctness :=
    newSignatureCorrectnessProof_ok (ne_zero_of_one_lt hn) h.order h.e aq.2 draws.r
  exact ⟨_, by
    simp only [signCredential, newPrimaryCredential, hcheck, hsign, hcorrectness, ok_bind, pure_bind]
    rfl⟩

end Sign

section Represents

variable {K : UnitKey pubKey.pKey} {f : (ZMod pubKey.pKey.n.natAbs)ˣ}

theorem signKnownAttr_cast {pPubKey : CredentialPrimaryPublicKey} (K : UnitKey pPubKey)
    (h : signKnownAttr pPubKey rx entry = .ok rx') :
    ((rx' : ℤ) : ZMod pPubKey.n.natAbs) =
      ↑(K.r entry.1 ^ (entry.2.value : ℤ)) * ((rx : ℤ) : ZMod pPubKey.n.natAbs) := by
  simp only [signKnownAttr, bind_eq_ok_iff, okOrElse_eq_ok_iff] at h
  obtain ⟨r, hr, power, hpower, h⟩ := h
  rw [modMul_cast h, modExp_unit hpower (K.r_eq _ _ hr)]

-- The signature is a root of what remains of `Z` for the factors of the two parties.
theorem signPrimaryCredential_eq_ok (K : UnitKey pubKey.pKey)
    (hf : ((secrets.u : ℤ) : ZMod pubKey.pKey.n.natAbs) = f) {credContext v e : BigNumber}
    (h : signPrimaryCredential pubKey privKey credContext values v secrets e = .ok (a, q)) :
    ∃ (root : (ZMod pubKey.pKey.n.natAbs)ˣ) (eInverse : ℤ),
      ((q : ℤ) : ZMod pubKey.pKey.n.natAbs) = root ∧
      root * (K.s ^ (v : ℤ) * f * K.rctxt ^ (credContext : ℤ) *
        K.attributes values.exponents (values.names (·.isKnown))) = K.z ∧
      e.inverse (privKey.pKey.p * privKey.pKey.q) = .ok eInverse ∧
      ((a : ℤ) : ZMod pubKey.pKey.n.natAbs) = ↑(root ^ eInverse) := by
  simp only [signPrimaryCredential, bind_eq_ok_iff, pure_eq_ok_iff, Prod.mk.injEq] at h
  obtain ⟨rx₁, hs, rx₂, hblinded, power, hpower, rx₃, hrx₃, rx, hknown, _, hq, eInverse, he, _, ha,
    rfl, rfl⟩ := h
  have hn : 1 < pubKey.pKey.n.natAbs := by
    simp only [modDiv, bind_eq_ok_iff] at hq
    obtain ⟨inv, hinv, -⟩ := hq
    exact (inverse_eq_ok hinv).1
  have hprod := foldlM_prod (fun b : BigNumber => (b : ZMod pubKey.pKey.n.natAbs)) _
    (fun entry _ b b' hb => signKnownAttr_cast K hb) hknown
  have hattrs := CredentialValues.prod_filter_iter values (·.isKnown)
    fun k m => ((K.r k ^ m : (ZMod pubKey.pKey.n.natAbs)ˣ) : ZMod pubKey.pKey.n.natAbs)
  have hrx : ((rx : ℤ) : ZMod pubKey.pKey.n.natAbs) =
      ↑(K.s ^ (v : ℤ) * f * K.rctxt ^ (credContext : ℤ) *
        K.attributes values.exponents (values.names (·.isKnown))) := by
    rw [hprod, knownAttrs, hattrs, modMul_cast hrx₃, signBlinded_eq_ok hn (hf ▸ f.isUnit) hblinded,
      modExp_unit hs K.s_eq, hf, modExp_unit hpower K.rctxt_eq, ClKey.attributes, mul_comm]
    push_cast
    rfl
  have hroot := modDiv_unit hq K.z_eq hrx
  exact ⟨_, eInverse, hroot, div_mul_cancel _ _, he, modExp_unit ha hroot⟩

-- What is known of the factor `u`: the exponents of `S` and of the bases of the hidden attributes.
def Opens (K : UnitKey pubKey.pKey) (secrets : BlindedCredentialSecrets C) (v' : ℤ)
    (m : String → ℤ) : Prop :=
  ((secrets.u : ℤ) : ZMod pubKey.pKey.n.natAbs) =
    ↑(K.s ^ v' * K.attributes m secrets.hiddenAttributes)

-- The exponents in a signature: those of the issuer, and those of the prover.
def signedExponents (values : CredentialValues) (secrets : BlindedCredentialSecrets C)
    (m : String → ℤ) : String → ℤ :=
  ClKey.sumExponents values.exponents m (values.names (·.isKnown)) secrets.hiddenAttributes

-- The bases generate squares, and `p * q` is the order of the group of squares.
structure OrderKey (K : UnitKey pubKey.pKey) (privKey : CredentialPrivateKey C)
    (H : Subgroup (ZMod pubKey.pKey.n.natAbs)ˣ) : Prop where
  within : K.Within H
  zpow_order : ∀ g ∈ H, g ^ (privKey.pKey.p * privKey.pKey.q : ℤ) = 1

variable {H : Subgroup (ZMod pubKey.pKey.n.natAbs)ˣ} {signature : CredentialSignature C}

theorem signCredential_represents (hK : OrderKey K privKey H) (hopens : Opens K secrets v' m)
    (h : signCredential env proverId secrets proof nonce issuanceNonce values pubKey privKey
      draws = .ok (signature, correctness)) :
    ∃ A ∈ H, ((signature.pCredential.a : ℤ) : ZMod pubKey.pKey.n.natAbs) = A ∧
      K.z = K.represent A signature.pCredential.e (signature.pCredential.v + v')
        signature.pCredential.m2 (signedExponents values secrets m)
        (values.names (·.isKnown) ∪ secrets.hiddenAttributes) := by
  simp only [signCredential, newPrimaryCredential, bind_eq_ok_iff, pure_eq_ok_iff,
    Prod.mk.injEq] at h
  obtain ⟨⟨⟩, -, _, ⟨⟨a, q⟩, hsign, rfl⟩, _, -, rfl, -⟩ := h
  obtain ⟨root, eInverse, -, hz, he, ha⟩ := signPrimaryCredential_eq_ok K hopens hsign
  have hattrs {m : String → ℤ} {w : Finset String} : K.attributes m w ∈ H :=
    ClKey.attributes_mem hK.within
  have hroot : root ∈ H := by
    rw [← eq_div_iff_mul_eq'] at hz
    rw [hz]
    refine div_mem hK.within.z <| mul_mem (mul_mem (mul_mem ?_ ?_) ?_) hattrs
    · exact zpow_mem hK.within.s _
    · exact mul_mem (zpow_mem hK.within.s _) hattrs
    · exact zpow_mem hK.within.rctxt _
  exact ⟨_, zpow_mem hroot eInverse, ha, ClKey.represent_signature
    (ClKey.zpow_root (hK.zpow_order root hroot) (dvd_of_inverse he)) rfl hz⟩

end Represents

section KnownAttributes

-- The prover blinds `x` for an attribute of its choice, and nothing else.
def blindAttr (C : Curve) (a : String) (u : BigNumber) : BlindedCredentialSecrets C where
  u := u
  ur := none
  hiddenAttributes := {a}
  committedAttributes := ∅

-- All blindings are 0, so that what is hashed does not depend on the challenge.
def blindAttrProof (env : Env) (nonce : Nonce) (a : String) (u x : BigNumber) :
    BlindedCredentialSecretsCorrectnessProof :=
  let c := getHashAsInt env [u.toBytes ++ BigNumber.toBytes 1 ++ nonce.toBytes]
  { c, vDashCap := 0, mCaps := (∅ : BTreeMap BigNumber).insert a (x * c), rCaps := ∅ }

-- A power that is a unit is the power of a unit.
theorem modExp_powUnit {n : ℤ} (hn : 1 < n.natAbs) (hx : PowUnit r x n) :
    ∃ w : (ZMod n.natAbs)ˣ, ∀ k y : ℤ, modExp r (x * k) n = .ok y →
      (y : ZMod n.natAbs) = ↑(w ^ (x * k)) := by
  rcases hx with rfl | hgcd
  · refine ⟨1, fun k y hy => ?_⟩
    rw [zero_mul, modExp_zero hn] at hy
    injection hy with hy
    simp [← hy]
  · obtain ⟨w, hw⟩ := ModArith.isUnit_cast_iff.mpr hgcd
    exact ⟨w, fun k y hy => modExp_unit hy hw.symm⟩

-- The commitment is 1, whatever the challenge is.
theorem uCap_blindAttr {pPubKey : CredentialPrimaryPublicKey} (hn : 1 < pPubKey.n.natAbs)
    (hr : pPubKey.r.lookup a = some r) (hx : PowUnit r x pPubKey.n)
    (hu : r.modExp x pPubKey.n = .ok u) (c : BigNumber) :
    ∃ inverse power, u.inverse pPubKey.n = .ok inverse ∧ inverse.modExp c pPubKey.n = .ok power ∧
      foldResult (checkHiddenAttr pPubKey ((∅ : BTreeMap BigNumber).insert a (x * c)))
        (power.modMul 1 pPubKey.n) [a] = .ok 1 := by
  obtain ⟨w, hw⟩ := modExp_powUnit hn hx
  have hn₀ := ne_zero_of_one_lt hn
  have hucast : ((u : ℤ) : ZMod pPubKey.n.natAbs) = ↑(w ^ x) := by
    simpa using hw 1 u (by rwa [mul_one])
  obtain ⟨inverse, hinverse⟩ := inverse_ok_of_isUnit hn (hucast ▸ (w ^ x).isUnit)
  have hinverseCast := inverse_unit hinverse hucast
  obtain ⟨power, hpower⟩ : ∃ power, modExp inverse c pPubKey.n = .ok power :=
    modExp_ok_of_isUnit hn (hinverseCast ▸ (w ^ x)⁻¹.isUnit)
  have hxc : PowUnit r (x * c) pPubKey.n := hx.imp_left fun h => by rw [h, zero_mul]
  obtain ⟨power', hpower', -⟩ := modExp_ok_of_powUnit hn hxc
  obtain ⟨acc, hacc⟩ := modMul_ok hn₀ power 1
  obtain ⟨uCap, huCap⟩ := modMul_ok hn₀ acc power'
  have hone : uCap = 1 := by
    refine ModArith.canonical_unique (modMul_canonical huCap) ⟨zero_le_one, by omega⟩ ?_
    rw [modMul_cast huCap, modMul_cast hacc, modExp_unit hpower hinverseCast, hw c _ hpower',
      Int.cast_one, mul_one, ← Units.val_mul, inv_zpow, ← zpow_mul, inv_mul_cancel, Units.val_one]
  rw [hone] at huCap
  refine ⟨inverse, power, hinverse, hpower, ?_⟩
  rw [hacc, foldResult_cons not_panics_ok]
  simpa [foldResult, checkHiddenAttr, hr, okOrElse, hpower'] using huCap

theorem check_blindAttr {pPubKey : CredentialPrimaryPublicKey} (hn : 1 < pPubKey.n.natAbs)
    (hr : pPubKey.r.lookup a = some r) (hx : PowUnit r x pPubKey.n)
    (hu : r.modExp x pPubKey.n = .ok u) :
    checkBlindedCredentialSecretsCorrectnessProof env (blindAttr C a u)
      (blindAttrProof env nonce a u x) nonce pPubKey = .ok () := by
  obtain ⟨inverse, power, hinverse, hpower, huCap⟩ := uCap_blindAttr hn hr hx hu
    (blindAttrProof env nonce a u x).c
  have hiter : BTreeSet.iter (blindAttr C a u).hiddenAttributes = [a] := rfl
  have hcommitted : (blindAttr C a u).committedAttributes.iter = [] := rfl
  have hu' : (blindAttr C a u).u = u := rfl
  have hvDash : (blindAttrProof env nonce a u x).vDashCap = 0 := rfl
  have hmCaps : (blindAttrProof env nonce a u x).mCaps =
      (∅ : BTreeMap BigNumber).insert a (x * (blindAttrProof env nonce a u x).c) := rfl
  simp only [checkBlindedCredentialSecretsCorrectnessProof, hu', hvDash, hmCaps, hinverse, hpower,
    modExp_zero hn, hiter, hcommitted, List.foldlM_nil, huCap,
    ok_bind, pure_bind]
  exact if_neg (not_not.mpr rfl)

-- The signature is about the values of the issuer, whatever the prover has put into its factor.
structure SignsKnown (values : CredentialValues) (pubKey : CredentialPublicKey C)
    (privKey : CredentialPrivateKey C) (secrets : BlindedCredentialSecrets C)
    (signature : CredentialSignature C) : Prop where
  disjoint : ∀ a x, values.Knows a x → a ∉ secrets.hiddenAttributes
  exponent : ∀ (K : UnitKey pubKey.pKey) H, OrderKey K privKey H → ∀ v' m, Opens K secrets v' m →
    ∃ A ∈ H, ((signature.pCredential.a : ℤ) : ZMod pubKey.pKey.n.natAbs) = A ∧
      K.z = K.represent A signature.pCredential.e (signature.pCredential.v + v')
        signature.pCredential.m2 (signedExponents values secrets m)
        (values.names (·.isKnown) ∪ secrets.hiddenAttributes) ∧
      ∀ a x, values.Knows a x → signedExponents values secrets m a = x

theorem signsKnown_of_disjoint (hdisjoint : ∀ a x, values.Knows a x → a ∉ secrets.hiddenAttributes)
    (h : signCredential env proverId secrets proof nonce issuanceNonce values pubKey privKey
      draws = .ok (signature, correctness)) :
    SignsKnown values pubKey privKey secrets signature where
  disjoint := hdisjoint
  exponent K H hK v' m hopens := by
    obtain ⟨A, hA, ha, hz⟩ := signCredential_represents hK hopens h
    refine ⟨A, hA, ha, hz, fun a x hknows => ?_⟩
    rw [signedExponents, ClKey.sumExponents_of_notMem hknows.mem_names (hdisjoint a x hknows),
      hknows.exponents_eq]

-- For an attribute that the issuer knows a prover gets the value of its choice.
theorem exists_signature_add (hsign : CanSign env proverId pubKey privKey values draws)
    (hknows : values.Knows a x₀) (hr : pubKey.pKey.r.lookup a = some r)
    (hx : PowUnit r x pubKey.pKey.n) (hu : r.modExp x pubKey.pKey.n = .ok u)
    (nonce issuanceNonce : Nonce) :
    ∃ signature correctness, signCredential env proverId (blindAttr C a u)
        (blindAttrProof env nonce a u x) nonce issuanceNonce values pubKey privKey draws =
      .ok (signature, correctness) ∧
      ∀ (K : UnitKey pubKey.pKey) H, OrderKey K privKey H →
        ∃ A ∈ H, ((signature.pCredential.a : ℤ) : ZMod pubKey.pKey.n.natAbs) = A ∧
          K.z = K.represent A signature.pCredential.e signature.pCredential.v
            signature.pCredential.m2 (signedExponents values (blindAttr C a u) fun _ => x)
            (values.names (·.isKnown) ∪ {a}) ∧
          signedExponents values (blindAttr C a u) (fun _ => x) a = x₀ + x := by
  obtain ⟨⟨signature, correctness⟩, hok⟩ :=
    signCredential_ok hsign (check_blindAttr hsign.n hr hx hu) issuanceNonce
  refine ⟨signature, correctness, hok, fun K H hK => ?_⟩
  have hopens : Opens K (blindAttr C a u) 0 fun _ => x := by
    rw [Opens, zpow_zero, one_mul, ClKey.attributes]
    exact (modExp_unit hu (K.r_eq a r hr)).trans <| by rw [blindAttr, Finset.prod_singleton]
  obtain ⟨A, hA, ha, hz⟩ := signCredential_represents hK hopens hok
  have hmem : a ∈ (blindAttr C a u).hiddenAttributes := Finset.mem_singleton_self a
  refine ⟨A, hA, ha, by rwa [add_zero] at hz, ?_⟩
  rw [signedExponents, ClKey.sumExponents_of_mem hknows.mem_names hmem, hknows.exponents_eq]

theorem signsKnown_iff (env : Env) (proverId : String) (nonce issuanceNonce : Nonce)
    (values : CredentialValues) (pubKey : CredentialPublicKey C) (privKey : CredentialPrivateKey C)
    (draws : SignDraws) :
    (∀ secrets proof signature correctness, signCredential env proverId secrets proof nonce
      issuanceNonce values pubKey privKey draws = .ok (signature, correctness) →
        SignsKnown values pubKey privKey secrets signature) ↔
      (∀ a x, ¬values.Knows a x) ∨ ¬CanSign env proverId pubKey privKey values draws := by
  constructor
  case mp =>
    intro h
    by_contra hcon
    push Not at hcon
    obtain ⟨⟨a, x, hknows⟩, hsign⟩ := hcon
    obtain ⟨r, hr, -⟩ := hsign.known a x hknows
    obtain ⟨signature, correctness, hok, -⟩ := exists_signature_add hsign hknows hr (.inl rfl)
      (modExp_zero hsign.n) nonce issuanceNonce
    exact (h _ _ signature correctness hok).disjoint a x hknows <| Finset.mem_singleton_self a
  case mpr =>
    rintro (hnone | hnot) secrets proof signature correctness hok
    · exact signsKnown_of_disjoint (fun a x hknows => absurd hknows <| hnone a x) hok
    · exact absurd (canSign_of_eq_ok hok) hnot

section Mod77

-- `n = (2 * 3 + 1) * (2 * 5 + 1)`, with squares for the bases.
def issuerPubKey (C : Curve) : CredentialPublicKey C where
  pKey :=
    { n := 77, s := 15, r := (∅ : HashMap BigNumber).insert "age" 16, rctxt := 9, z := 37 }
  rKey := none

def issuerPrivKey (C : Curve) : CredentialPrivateKey C where
  pKey := { p := 3, q := 5 }
  rKey := none

def ageValues : CredentialValues where
  attrsValues := (∅ : BTreeMap CredentialValue).insert "age" (.known 20)

theorem ageValues_knows : ageValues.Knows a x ↔ a = "age" ∧ x = 20 := by
  rw [CredentialValues.Knows, ageValues]
  obtain rfl | hne := eq_or_ne a "age"
  · simp [eq_comm]
  · simp [Finmap.lookup_insert_of_ne _ hne, hne]

theorem canSign_age (env : Env) (proverId : String) (he : Int.gcd draws.e.value 15 = 1) :
    CanSign env proverId (issuerPubKey C) (issuerPrivKey C) ageValues draws where
  n := show 1 < (77 : ℤ).natAbs by decide
  s := show Int.gcd 15 77 = 1 by decide
  rctxt := .inr <| show Int.gcd 9 77 = 1 by decide
  known a x h := by
    obtain ⟨rfl, rfl⟩ := ageValues_knows.mp h
    exact ⟨16, Finmap.lookup_insert _, .inr <| show Int.gcd 16 77 = 1 by decide⟩
  order := show (1 : ℤ) < 3 * 5 by decide
  e := he

-- The issuer knows that the age is 20, and signs 22.
theorem not_signsKnown :
    ageValues.Knows "age" 20 ∧
      ∀ (C : Curve) env proverId nonce issuanceNonce draws, Int.gcd draws.e.value 15 = 1 →
        ∃ signature correctness, signCredential env proverId (blindAttr C "age" 25)
            (blindAttrProof env nonce "age" 25 2) nonce issuanceNonce ageValues (issuerPubKey C)
            (issuerPrivKey C) draws = .ok (signature, correctness) ∧
          ¬SignsKnown ageValues (issuerPubKey C) (issuerPrivKey C) (blindAttr C "age" 25)
            signature := by
  have hknows : ageValues.Knows "age" 20 := Finmap.lookup_insert _
  refine ⟨hknows, fun C env proverId nonce issuanceNonce draws he => ?_⟩
  have hx : PowUnit 16 2 (issuerPubKey C).pKey.n := .inr <| show Int.gcd 16 77 = 1 by decide
  have hu : modExp 16 2 (issuerPubKey C).pKey.n = .ok 25 := by
    change modExp 16 2 77 = .ok 25
    decide +kernel
  obtain ⟨signature, correctness, hok, -⟩ := exists_signature_add (canSign_age env proverId he)
    hknows (Finmap.lookup_insert _) hx hu nonce issuanceNonce
  exact ⟨signature, correctness, hok, fun h =>
    h.disjoint "age" 20 hknows <| Finset.mem_singleton_self _⟩

end Mod77

end KnownAttributes
end Issuer
end Ursa
