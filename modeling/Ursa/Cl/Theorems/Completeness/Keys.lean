import Ursa.Cl.Prover
import Ursa.Cl.Theorems.Issuance

namespace Ursa

open BigNumber UrsaCryptoResult

variable {C : Curve} {env : Env} {pPubKey : CredentialPrimaryPublicKey}
variable {pPrivKey : CredentialPrimaryPrivateKey} {metadata : CredentialPrimaryPublicKeyMetadata}

namespace Issuer

theorem collect_eq_ok {f : String → UrsaCryptoResult BigNumber} (h : collect keys f = .ok m) :
    m.keys = keys.toFinset ∧ ∀ k x, m.lookup k = some x → f k = .ok x := by
  have hinv := foldlM_invariant
    (I := fun l m => (∀ k, k ∈ m ∨ k ∈ l ↔ k ∈ keys) ∧ ∀ k x, m.lookup k = some x → f k = .ok x)
    (fun key l m m' hI hb => ?_) (⟨fun k => ?_, fun k x hx => ?_⟩) h
  case refine_1 =>
    obtain ⟨hkeys, hf⟩ := hI
    simp only [bind_eq_ok_iff, pure_eq_ok_iff] at hb
    obtain ⟨y, hy, rfl⟩ := hb
    refine ⟨fun k => ?_, fun k x hx => ?_⟩
    · rw [← hkeys k, Finmap.mem_insert, List.mem_cons, or_assoc, or_left_comm]
    · obtain rfl | hne := eq_or_ne k key
      · rw [Finmap.lookup_insert] at hx
        rwa [← Option.some.inj hx]
      · exact hf k x <| Finmap.lookup_insert_of_ne m hne ▸ hx
  case refine_2 => exact or_iff_right Finmap.notMem_empty
  case refine_3 => simp at hx
  obtain ⟨hkeys, hf⟩ := hinv
  refine ⟨?_, hf⟩
  ext k
  rw [Finmap.mem_keys, List.mem_toFinset, ← hkeys k]
  simp

theorem power_eq_ok (h : power s n x k = .ok y) :
    modExp s (exponents x k) n = .ok y := by
  simp only [power, bind_eq_ok_iff, okOrElse_eq_ok_iff] at h
  obtain ⟨value, hvalue, h⟩ := h
  rwa [exponents_eq hvalue]

-- What the keys are: all bases are powers of one square, with exponents that the issuer keeps.
structure Generated (pPubKey : CredentialPrimaryPublicKey) (pPrivKey : CredentialPrimaryPrivateKey)
    (metadata : CredentialPrimaryPublicKeyMetadata) (draws : PrimaryKeyDraws) : Prop where
  n : pPubKey.n = draws.pSafe.value * draws.qSafe.value
  p : pPrivKey.p = (draws.pSafe.value / 2 : ℕ)
  q : pPrivKey.q = (draws.qSafe.value / 2 : ℕ)
  s : ∃ x : ℤ, pPubKey.s = x * x % pPubKey.n
  z : pPubKey.s.modExp metadata.xz pPubKey.n = .ok pPubKey.z
  r : ∀ a x, pPubKey.r.lookup a = some x →
    pPubKey.s.modExp (exponents metadata.xr a) pPubKey.n = .ok x
  xr : pPubKey.r.keys = metadata.xr.keys
  rctxt : ∃ x, pPubKey.s.modExp x pPubKey.n = .ok pPubKey.rctxt

theorem rshift1_natCast (x : ℕ) : rshift1 x = (x / 2 : ℕ) :=
  rfl

theorem newCredentialPrimaryKeys_eq_ok
    (h : newCredentialPrimaryKeys env credSchema nonCredSchema draws =
      .ok (pPubKey, pPrivKey, metadata)) : Generated pPubKey pPrivKey metadata draws := by
  simp only [newCredentialPrimaryKeys, ite_error_bind_eq_ok_iff, bind_eq_ok_iff, pure_eq_ok_iff,
    Prod.mk.injEq] at h
  obtain ⟨-, s, hs, xz, -, xr, -, r, hr, z, hz, x, -, rctxt, hrctxt, rfl, rfl, rfl⟩ := h
  obtain ⟨hkeys, hr⟩ := collect_eq_ok hr
  simp only [randomQr, modulus, bind_eq_ok_iff] at hs
  obtain ⟨x₀, -, hs⟩ := hs
  split_ifs at hs
  refine ⟨rfl, rshift1_natCast _, rshift1_natCast _, ⟨x₀, (Except.ok.inj hs).symm⟩, hz, ?_, ?_,
    ⟨x, hrctxt⟩⟩
  case refine_1 => exact fun a x hx => power_eq_ok <| hr a x hx
  case refine_2 =>
    rw [hkeys]
    ext a
    rw [List.mem_toFinset, env.mem_hashOrder]

theorem SafePrime.two_mul_half (P : SafePrime) : 2 * (P.value / 2) = P.value - 1 := by
  obtain htwo | hodd := P.prime.eq_two_or_odd
  case inl => exact absurd (htwo ▸ P.safe) (by decide)
  case inr => omega

section OrderKey

variable {draws : PrimaryKeyDraws}

theorem sq_zpow_order {N : ℕ} (hN : N = draws.pSafe.value * draws.qSafe.value)
    (hne : draws.pSafe.value ≠ draws.qSafe.value) (u : (ZMod N)ˣ) :
    (u ^ 2) ^ (((draws.pSafe.value / 2 : ℕ) : ℤ) * ((draws.qSafe.value / 2 : ℕ) : ℤ)) = 1 := by
  subst hN
  have : Fact draws.pSafe.value.Prime := ⟨draws.pSafe.prime⟩
  have : Fact draws.qSafe.value.Prime := ⟨draws.qSafe.prime⟩
  rw [← Nat.cast_mul, zpow_natCast]
  exact ModArith.sq_pow_half_mul_half hne draws.pSafe.two_mul_half draws.qSafe.two_mul_half u

theorem Generated.natAbs_n (h : Generated pPubKey pPrivKey metadata draws) :
    pPubKey.n.natAbs = draws.pSafe.value * draws.qSafe.value := by
  rw [h.n, Int.natAbs_mul, Int.natAbs_natCast, Int.natAbs_natCast]

theorem Generated.one_lt_n (h : Generated pPubKey pPrivKey metadata draws) :
    1 < pPubKey.n.natAbs := by
  rw [h.natAbs_n]
  exact Nat.one_lt_mul_iff.mpr
    ⟨draws.pSafe.prime.pos, draws.qSafe.prime.pos, .inl draws.pSafe.prime.one_lt⟩

theorem Generated.one_lt_order (h : Generated pPubKey pPrivKey metadata draws) :
    1 < pPrivKey.p * pPrivKey.q := by
  rw [h.p, h.q, ← Nat.cast_mul, Nat.one_lt_cast]
  exact Nat.one_lt_mul_iff.mpr
    ⟨draws.pSafe.safe.pos, draws.qSafe.safe.pos, .inl draws.pSafe.safe.one_lt⟩

-- A key whose base is invertible has the order that the issuer computes with.
structure PowerKey (K : UnitKey pPubKey) (metadata : CredentialPrimaryPublicKeyMetadata) : Prop where
  z : K.z = K.s ^ (metadata.xz : ℤ)
  r : ∀ a, K.r a = K.s ^ exponents metadata.xr a
  rctxt : K.rctxt ∈ Subgroup.zpowers K.s

theorem PowerKey.within {K : UnitKey pPubKey} (h : PowerKey K metadata) :
    K.Within (Subgroup.zpowers K.s) where
  s := Subgroup.mem_zpowers _
  z := h.z ▸ Subgroup.zpow_mem_zpowers _ _
  rctxt := h.rctxt
  r a := h.r a ▸ Subgroup.zpow_mem_zpowers _ _

theorem Generated.exists_powerKey (h : Generated pPubKey pPrivKey metadata draws)
    (hs : Int.gcd pPubKey.s pPubKey.n = 1) : ∃ K : UnitKey pPubKey, PowerKey K metadata := by
  obtain ⟨s, hs⟩ := ModArith.isUnit_cast_iff.mpr hs
  obtain ⟨x, hx⟩ := h.rctxt
  let K : UnitKey pPubKey :=
    { s := s
      z := s ^ (metadata.xz : ℤ)
      rctxt := s ^ (x : ℤ)
      r := fun a => s ^ exponents metadata.xr a
      s_eq := hs.symm
      z_eq := modExp_unit h.z hs.symm
      rctxt_eq := modExp_unit hx hs.symm
      r_eq := fun a y hy => modExp_unit (h.r a y hy) hs.symm }
  exact ⟨K, rfl, fun _ => rfl, Subgroup.zpow_mem_zpowers _ _⟩

theorem Generated.exists_unitKey (h : Generated pPubKey pPrivKey metadata draws)
    (hs : Int.gcd pPubKey.s pPubKey.n = 1) (hne : draws.pSafe.value ≠ draws.qSafe.value) :
    ∃ K : UnitKey pPubKey, PowerKey K metadata ∧
      K.s ^ (pPrivKey.p * pPrivKey.q : ℤ) = 1 := by
  obtain ⟨K, hK⟩ := h.exists_powerKey hs
  obtain ⟨root, hroot⟩ := h.s
  refine ⟨K, hK, ?_⟩
  have hsq : ((root : ℤ) : ZMod pPubKey.n.natAbs) * root = K.s := by
    rw [← K.s_eq, hroot, ModArith.cast_emod, Int.cast_mul]
  obtain ⟨u, hu⟩ := isUnit_of_mul_isUnit_left (hsq ▸ K.s.isUnit)
  have hs : K.s = u ^ 2 := Units.ext <| by rw [← hsq, ← hu, pow_two, Units.val_mul]
  rw [h.p, h.q, hs]
  exact sq_zpow_order h.natAbs_n hne u

end OrderKey

section KeyProof

variable {draws : KeyProofDraws} {keyProof : CredentialKeyCorrectnessProof}

-- What the issuer proves of its key, with the values in the order in which it hashes them.
theorem newCredentialKeyCorrectnessProof_eq_ok
    (h : newCredentialKeyCorrectnessProof env pPubKey pPrivKey metadata draws = .ok keyProof) :
    let attrs := env.hashOrder pPubKey.r.keys
    ∃ (xzTilda zTilda : BigNumber) (xrTilda rTilda : HashMap BigNumber),
      pPubKey.s.modExp xzTilda pPubKey.n = .ok zTilda ∧
      (∀ a ∈ attrs, pPubKey.s.modExp (exponents xrTilda a) pPubKey.n = .ok (exponents rTilda a)) ∧
      keyProof.c = getHashAsInt env [pPubKey.z.toBytes ++
        attrs.flatMap (fun a => toBytes (exponents pPubKey.r a)) ++ zTilda.toBytes ++
        attrs.flatMap (fun a => toBytes (exponents rTilda a))] ∧
      keyProof.xzCap = keyProof.c * metadata.xz + xzTilda ∧
      keyProof.xrCap = attrs.map fun a =>
        (a, keyProof.c * exponents metadata.xr a + exponents xrTilda a) := by
  intro attrs
  simp only [newCredentialKeyCorrectnessProof, bind_eq_ok_iff, pure_eq_ok_iff, Env.map_fst_iter] at h
  obtain ⟨xzTilda, -, xrTilda, hxr, zTilda, hz, rTilda, hr, rTildas, hrTildas, xrCap, hxrCap,
    rfl⟩ := h
  have hkeys : ∀ a ∈ attrs, ∃ x, rTilda.lookup a = some x := by
    intro a ha
    have hmem : a ∈ rTilda := by
      rw [← Finmap.mem_keys, (collect_eq_ok hr).1, List.mem_toFinset, env.mem_hashOrder,
        (collect_eq_ok hxr).1, List.mem_toFinset]
      exact ha
    exact Finmap.mem_iff.mp hmem
  have hrTildas : rTildas = attrs.map (exponents rTilda) := by
    have hmap := mapM_map id (exponents rTilda)
      (fun a _ x hx => (exponents_eq <| okOrElse_eq_ok_iff.mp hx).symm) hrTildas
    rwa [List.map_id] at hmap
  have hbytes : (env.iter pPubKey.r).map (·.2.toBytes) =
      attrs.map fun a => toBytes (exponents pPubKey.r a) :=
    Env.map_iter fun a x hx => by rw [exponents_eq hx]
  have hxrCap := mapM_map id
    (fun a => (a, getHashAsInt env [pPubKey.z.toBytes ++
      (env.iter pPubKey.r).flatMap (·.2.toBytes) ++ zTilda.toBytes ++
      rTildas.flatMap BigNumber.toBytes] * exponents metadata.xr a + exponents xrTilda a))
    (fun a _ entry hentry => ?_) hxrCap
  case refine_1 =>
    simp only [bind_eq_ok_iff, okOrElse_eq_ok_iff, pure_eq_ok_iff] at hentry
    obtain ⟨x, hx, x', hx', rfl⟩ := hentry
    rw [exponents_eq hx, exponents_eq hx']
    rfl
  refine ⟨xzTilda, zTilda, xrTilda, rTilda, hz, fun a ha => ?_, ?_, rfl, ?_⟩
  case refine_1 =>
    obtain ⟨x, hx⟩ := hkeys a ha
    rw [exponents_eq hx]
    exact power_eq_ok <| (collect_eq_ok hr).2 a x hx
  case refine_2 =>
    rw [List.flatMap_def (f := fun a => toBytes (exponents pPubKey.r a)), ← hbytes, hrTildas,
      List.flatMap_map]
    rfl
  case refine_3 => rwa [List.map_id] at hxrCap

-- What the prover recomputes are the commitments of the issuer.
theorem checkKeyAttr_ok {K : UnitKey pPubKey} (hK : PowerKey K metadata)
    (hn : 1 < pPubKey.n.natAbs) (ha : a ∈ pPubKey.r)
    (hx : pPubKey.s.modExp x pPubKey.n = .ok y) (c : BigNumber) :
    Prover.checkKeyAttr pPubKey c (a, c * exponents metadata.xr a + x) =
      .ok (exponents pPubKey.r a, y) := by
  obtain ⟨rValue, hr⟩ := Finmap.mem_iff.mp ha
  obtain ⟨rInverse, hinverse, -, hcast⟩ := computes_inverse hn (K.r_eq a rValue hr)
  have hval := computes_getPedersenCommitment hn hcast K.s_eq c (c * exponents metadata.xr a + x)
  rw [hK.r, inv_zpow, ClKey.zpow_scale (add_sub_cancel_right _ _), inv_mul_cancel_left] at hval
  have hval := hval.unique <| computes_modExp hn K.s_eq x
  simp only [Prover.checkKeyAttr, hr, okOrElse, hinverse, hval, hx, exponents_eq hr, ok_bind]
  rfl

-- The prover walks through its copy of the bases in an order of its own, but hashes them in that of
-- the proof.
theorem checkCredentialKeyCorrectnessProof_ok {env' : Env} (hsha : env.sha256 = env'.sha256)
    {K : UnitKey pPubKey} (hK : PowerKey K metadata) (hn : 1 < pPubKey.n.natAbs)
    (h : newCredentialKeyCorrectnessProof env pPubKey pPrivKey metadata draws = .ok keyProof) :
    Prover.checkCredentialKeyCorrectnessProof env' pPubKey keyProof = .ok () := by
  obtain ⟨xzTilda, zTilda, xrTilda, rTilda, hz, hr, hc, hxz, hxr⟩ :=
    newCredentialKeyCorrectnessProof_eq_ok h
  have hnames : (keyProof.xrCap.map Prod.fst).toFinset = pPubKey.r.keys := by
    ext a
    simp [hxr, List.map_map, Function.comp_def, env.mem_hashOrder]
  have hmem (e : Env) : ∀ a ∈ e.hashOrder pPubKey.r.keys, a ∈ pPubKey.r.keys :=
    fun a => (e.mem_hashOrder _ _).mp
  have hmissing : (env'.hashOrder pPubKey.r.keys).find? (fun rKey =>
      rKey ∉ pPubKey.r.keys ∧ rKey ≠ "master_secret") = none :=
    List.find?_eq_none.mpr fun a ha => by simp [hmem env' a ha]
  have hunknown : (env'.hashOrder pPubKey.r.keys).find? (· ∉ pPubKey.r) = none :=
    List.find?_eq_none.mpr fun a ha => by simp [Finmap.mem_keys.mp <| hmem env' a ha]
  have hordered : keyProof.xrCap.mapM (Prover.checkKeyAttr pPubKey keyProof.c) =
      .ok ((env.hashOrder pPubKey.r.keys).map fun a =>
        (exponents pPubKey.r a, exponents rTilda a)) := by
    rw [hxr, List.mapM_map]
    exact mapM_eq_map fun a ha =>
      checkKeyAttr_ok hK hn (Finmap.mem_keys.mp <| hmem env a ha) (hr a ha) keyProof.c
  obtain ⟨zInverse, hinverse, -, hcast⟩ := computes_inverse hn K.z_eq
  have hzCap := computes_getPedersenCommitment hn hcast K.s_eq keyProof.c keyProof.xzCap
  rw [hxz, hK.z, inv_zpow, ClKey.zpow_scale (add_sub_cancel_right _ _),
    inv_mul_cancel_left] at hzCap
  have hzCap := hzCap.unique <| computes_modExp hn K.s_eq xzTilda
  rw [Prover.checkCredentialKeyCorrectnessProof]
  simp only [hnames, hmissing, hunknown, hinverse, hxz, hzCap, hz, hordered, ok_bind,
    List.flatMap_map]
  exact if_neg <| not_not.mpr <| hc.trans <| getHashAsInt_congr hsha _

end KeyProof

end Issuer
end Ursa
