import Ursa.Cl.Profile
import Ursa.Cl.Theorems.Revocation.Registry

namespace Ursa.Profile

open UrsaCryptoResult

variable {C : Curve} {profile : Profile} {a b c L i j k : UInt32} {gamma : GroupOrderElement C}
variable {gDash : PointG2 C} {gen : RevocationTailsGenerator C}

section Exact

-- What is computed without overflow is the same in all profiles.
theorem arith_of_ok {p : Prop} [Decidable p] {checked : UrsaCryptoResult UInt32} {e : Failure}
    {wrapped : UInt32} (heq : checked = if p then .ok wrapped else .error e)
    (h : checked = .ok c) : profile.arith checked wrapped = .ok c := by
  cases profile
  case dev => exact h
  case release =>
    rw [heq] at h
    split at h
    · exact h
    · cases h

theorem addU32_of_ok (h : Ursa.addU32 a b = .ok c) : profile.addU32 a b = .ok c :=
  arith_of_ok rfl h

theorem subU32_of_ok (h : Ursa.subU32 a b = .ok c) : profile.subU32 a b = .ok c :=
  arith_of_ok rfl h

theorem mulU32_of_ok (h : Ursa.mulU32 a b = .ok c) : profile.mulU32 a b = .ok c :=
  arith_of_ok rfl h

theorem getIndex_of_ok (h : Issuer.getIndex L i = .ok k) : profile.getIndex L i = .ok k := by
  obtain ⟨x, hx, hk⟩ := bind_eq_ok_iff.mp h
  exact bind_eq_ok_iff.mpr ⟨x, addU32_of_ok hx, subU32_of_ok hk⟩

theorem witnessIndex_of_ok (h : Ursa.witnessIndex L j i = .ok k) :
    profile.witnessIndex L j i = .ok k := by
  rw [Ursa.witnessIndex, bind_eq_ok_iff] at h
  obtain ⟨x, hx, h⟩ := h
  obtain ⟨y, hy, hk⟩ := bind_eq_ok_iff.mp h
  rw [witnessIndex, addU32_of_ok hx, ok_bind, subU32_of_ok hy, ok_bind, addU32_of_ok hk]

theorem newRevocationTailsGenerator_of_ok
    (h : RevocationTailsGenerator.new L gamma gDash = .ok gen) :
    profile.newRevocationTailsGenerator L gamma gDash = .ok gen := by
  rw [RevocationTailsGenerator.new, bind_eq_ok_iff] at h
  obtain ⟨double, hdouble, h⟩ := h
  obtain ⟨size, hsize, h⟩ := bind_eq_ok_iff.mp h
  rw [newRevocationTailsGenerator, mulU32_of_ok hdouble, ok_bind, addU32_of_ok hsize, ok_bind, h]

-- The counter of the generator never overflows, so that all profiles read the same tails.
theorem tryNext_eq (gen : RevocationTailsGenerator C) : profile.tryNext gen = gen.tryNext := by
  unfold tryNext RevocationTailsGenerator.tryNext
  split
  case isTrue => rfl
  case isFalse hmore =>
    have hlt : gen.currentIndex.toNat < gen.size.toNat := not_le.mp hmore
    have hsize := gen.size.toNat_lt
    obtain ⟨next, hnext⟩ : ∃ next, Ursa.addU32 gen.currentIndex 1 = .ok next :=
      ⟨_, if_pos (by simp; omega)⟩
    rw [addU32_of_ok hnext, hnext]

end Exact

section Range

theorem newRevocationTailsGenerator_ok (hL : L.toNat < 2 ^ 31) (gamma : GroupOrderElement C)
    (gDash : PointG2 C) : ∃ size : UInt32, size.toNat = 2 * L.toNat + 1 ∧
      RevocationTailsGenerator.new L gamma gDash = .ok ⟨size, 0, gDash, gamma⟩ := by
  have htwo : (2 : UInt32).toNat = 2 := rfl
  have hone : (1 : UInt32).toNat = 1 := rfl
  obtain ⟨double, hdouble⟩ : ∃ double, Ursa.mulU32 2 L = .ok double :=
    ⟨_, if_pos (by rw [htwo]; omega)⟩
  have hdoubleL := mulU32_eq_ok_iff.mp hdouble
  rw [htwo] at hdoubleL
  obtain ⟨size, hsize⟩ : ∃ size, Ursa.addU32 double 1 = .ok size := ⟨_, if_pos (by omega)⟩
  have hsizeL := addU32_eq_ok_iff.mp hsize
  refine ⟨size, by omega, ?_⟩
  rw [RevocationTailsGenerator.new, hdouble, ok_bind, hsize]
  rfl

-- An index of one of the tails that stand for credentials.
structure IsIndex (L k : UInt32) : Prop where
  ne_zero : k ≠ 0
  ne_forbidden : k.toNat ≠ L.toNat + 1
  lt : k.toNat < 2 * L.toNat + 1

-- The tails of a registry, and the indices that are computed for them: the checked computation gives
-- the same.
structure TailsInRange (profile : Profile) (L : UInt32) (gamma : GroupOrderElement C)
    (gDash : PointG2 C) (gen : RevocationTailsGenerator C) : Prop where
  tails : ∃ gen', SimpleTailsAccessor.new gen =
    .ok ({ tails := (List.range (2 * L.toNat + 1)).map fun k => gamma ^ k • gDash }, gen')
  getIndex : ∀ i ∈ indices L, ∃ k, profile.getIndex L i = .ok k ∧ dev.getIndex L i = .ok k ∧
    k.toNat = L.toNat + 1 - i.toNat ∧ IsIndex L k
  witnessIndex : ∀ i ∈ indices L, ∀ j ∈ indices L, j ≠ i → ∃ k,
    profile.witnessIndex L j i = .ok k ∧ dev.witnessIndex L j i = .ok k ∧
      k.toNat = L.toNat + 1 - j.toNat + i.toNat ∧ IsIndex L k

theorem isIndex_getIndex (hi : i ∈ indices L) (hk : k.toNat = L.toNat + 1 - i.toNat) :
    IsIndex L k := by
  obtain ⟨hi₁, hiL⟩ := mem_indices.mp hi
  refine ⟨?_, by omega, by omega⟩
  rintro rfl
  simp only [UInt32.toNat_zero] at hk
  omega

theorem isIndex_witnessIndex (hi : i ∈ indices L) (hj : j ∈ indices L) (hne : j ≠ i)
    (hk : k.toNat = L.toNat + 1 - j.toNat + i.toNat) : IsIndex L k := by
  obtain ⟨hi₁, hiL⟩ := mem_indices.mp hi
  obtain ⟨hj₁, hjL⟩ := mem_indices.mp hj
  have hne' : j.toNat ≠ i.toNat := fun h => hne <| UInt32.toNat_inj.mp h
  refine ⟨?_, by omega, by omega⟩
  rintro rfl
  simp only [UInt32.toNat_zero] at hk
  omega

theorem tailsInRange_of_lt (hL : L.toNat < 2 ^ 31)
    (h : profile.newRevocationTailsGenerator L gamma gDash = .ok gen) :
    TailsInRange profile L gamma gDash gen where
  tails := by
    obtain ⟨size, hval, hgen⟩ := newRevocationTailsGenerator_ok hL gamma gDash
    rw [newRevocationTailsGenerator_of_ok hgen] at h
    rw [← Except.ok.inj h, ← hval]
    exact simpleTailsAccessor_new_eq size gamma gDash
  getIndex i hi := by
    obtain ⟨k, hk, hval⟩ := Issuer.getIndex_ok (by omega) hi
    exact ⟨k, getIndex_of_ok hk, hk, hval, isIndex_getIndex hi hval⟩
  witnessIndex i hi j hj hne := by
    obtain ⟨k, hk, hval⟩ := witnessIndex_ok (by omega) hi hj
    exact ⟨k, witnessIndex_of_ok hk, hk, hval, isIndex_witnessIndex hi hj hne hval⟩

-- There are fewer than `2 ^ 32` tails.
theorem lt_of_tailsInRange (h : profile.newRevocationTailsGenerator L gamma gDash = .ok gen)
    (hrange : TailsInRange profile L gamma gDash gen) : L.toNat < 2 ^ 31 := by
  simp only [newRevocationTailsGenerator, bind_eq_ok_iff, pure_eq_ok_iff] at h
  obtain ⟨_, -, size, -, rfl⟩ := h
  obtain ⟨gen', hnew⟩ := hrange.tails
  obtain ⟨gen'', hsize⟩ := simpleTailsAccessor_new_eq size gamma gDash
  have htails := congrArg (fun result => result.map fun accessor => accessor.1.tails.length) <|
    hnew.symm.trans hsize
  simp only [Except.map, List.length_map, List.length_range, Except.ok.injEq] at htails
  have hlt := size.toNat_lt
  omega

end Range

section Definition

variable {credentialPubKey : CredentialPublicKey C} {revKeyPub : RevocationKeyPublic C}
variable {revKeyPriv : RevocationKeyPrivate C} {revReg : RevocationRegistry C}

theorem newRevocationRegistryDef_eq_ok
    (h : profile.newRevocationRegistryDef credentialPubKey L byDefault gamma =
      .ok (revKeyPub, revKeyPriv, revReg, gen)) : ∃ rPubKey,
      credentialPubKey.rKey = some rPubKey ∧ revKeyPriv.gamma = gamma ∧
      profile.newRevocationTailsGenerator L gamma rPubKey.gDash = .ok gen := by
  simp only [newRevocationRegistryDef, newRevocationRegistryKeys, bind_eq_ok_iff,
    okOrElse_eq_ok_iff, pure_eq_ok_iff, Prod.mk.injEq] at h
  obtain ⟨rPubKey, hkey, _, ⟨_, -, _, -, rfl⟩, _, -, gen, hgen, rfl, rfl, rfl, rfl⟩ := h
  exact ⟨rPubKey, hkey, rfl, hgen⟩

theorem tailsInRange_iff (h : profile.newRevocationRegistryDef credentialPubKey L byDefault gamma =
    .ok (revKeyPub, revKeyPriv, revReg, gen)) : ∃ rPubKey,
      credentialPubKey.rKey = some rPubKey ∧ revKeyPriv.gamma = gamma ∧
      (profile = .dev → L.toNat < 2 ^ 31) ∧
      (TailsInRange profile L gamma rPubKey.gDash gen ↔ L.toNat < 2 ^ 31) := by
  obtain ⟨rPubKey, hkey, hgamma, hgen⟩ := newRevocationRegistryDef_eq_ok h
  refine ⟨rPubKey, hkey, hgamma, ?_, lt_of_tailsInRange hgen, fun hL => tailsInRange_of_lt hL hgen⟩
  rintro rfl
  obtain ⟨hL, -⟩ := simpleTailsAccessor_eq hgen
  omega

-- Without checks every number of credentials is accepted.
theorem newRevocationRegistryDef_release (hkey : credentialPubKey.rKey = some rPubKey)
    (L : UInt32) (byDefault : Bool) (gamma : GroupOrderElement C) :
    ∃ result, release.newRevocationRegistryDef credentialPubKey L byDefault gamma = .ok result := by
  obtain ⟨registry, hregistry⟩ : ∃ registry,
      release.newRevocationRegistry rPubKey { gamma } L byDefault = .ok registry := by
    cases byDefault
    case false => exact ⟨_, rfl⟩
    case true =>
      have hround : ∀ i ∈ List.range' 1 L.toNat, ∀ accum, ∃ accum',
          release.addIndexTail rPubKey { gamma } L accum i = .ok accum' := by
        intro i _ accum
        simp only [addIndexTail, getIndex, subU32, addU32, arith, ok_bind, newTail_eq]
        exact ⟨_, rfl⟩
      obtain ⟨accum, haccum⟩ := foldlM_ok hround 0
      exact ⟨{ accum }, by simp only [newRevocationRegistry, if_true, haccum, ok_bind]; rfl⟩
  simp only [newRevocationRegistryDef, newRevocationRegistryKeys, newRevocationTailsGenerator, hkey,
    okOrElse, addU32, mulU32, arith, powMod_eq, ok_bind, pure_bind, hregistry]
  exact ⟨_, rfl⟩

section Mod11

open ProofVerifier (curveMod11 mod11 rPubKeyMod11)

theorem tailsInRange_mod11 :
    TailsInRange release 2 (mod11 2) rPubKeyMod11.gDash (generatorMod11 0) := by
  obtain ⟨keyPub, registry, h⟩ : ∃ keyPub registry,
      release.newRevocationRegistryDef setupMod11.credPubKey 2 false (mod11 2) =
        .ok (keyPub, { gamma := mod11 2 }, registry, generatorMod11 0) := ⟨_, _, rfl⟩
  obtain ⟨rPubKey, hkey, -, -, hiff⟩ := tailsInRange_iff h
  obtain rfl : rPubKeyMod11 = rPubKey := Option.some.inj hkey
  exact hiff.mpr (by decide)

-- The generator for `2 ^ 31` credentials has one tail.
theorem not_tailsInRange : ∃ revKeyPub revKeyPriv revReg gen,
    release.newRevocationRegistryDef setupMod11.credPubKey (2 ^ 31) false (mod11 2) =
      .ok (revKeyPub, revKeyPriv, revReg, gen) ∧ gen.size = 1 ∧
    ¬TailsInRange release (2 ^ 31) (mod11 2) rPubKeyMod11.gDash gen := by
  have hkey : setupMod11.credPubKey.rKey = some rPubKeyMod11 := rfl
  obtain ⟨⟨revKeyPub, revKeyPriv, revReg, gen⟩, h⟩ :=
    newRevocationRegistryDef_release hkey (2 ^ 31) false (mod11 2)
  obtain ⟨rPubKey, hkey', -, hgen⟩ := newRevocationRegistryDef_eq_ok h
  obtain rfl := Option.some.inj <| hkey.symm.trans hkey'
  refine ⟨revKeyPub, revKeyPriv, revReg, gen, h, ?_, fun hrange => ?_⟩
  · rw [← Except.ok.inj hgen]
    decide
  · exact absurd (lt_of_tailsInRange hgen hrange) (by decide)

end Mod11

end Definition

end Ursa.Profile
