import Ursa.Cl.Theorems.Completeness.KeyProof
import Ursa.Cl.Theorems.Completeness.Presentation

namespace Ursa

open BigNumber UrsaCryptoResult

namespace Prover

variable {env env' : Env} {pPubKey : CredentialPrimaryPublicKey} {K : UnitKey pPubKey}
variable {p p' : CredentialKeyCorrectnessProof} {ordered : List (BigNumber × BigNumber)}

-- All that the prover computes from a proof before it hashes.
def recomputedKey (prPubKey : CredentialPrimaryPublicKey) (proof : CredentialKeyCorrectnessProof) :
    UrsaCryptoResult (BigNumber × List (BigNumber × BigNumber)) := do
  let zInverse ← prPubKey.z.inverse prPubKey.n
  let zCap ← getPedersenCommitment zInverse proof.c prPubKey.s proof.xzCap prPubKey.n
  let ordered ← proof.xrCap.mapM (checkKeyAttr prPubKey proof.c)
  pure (zCap, ordered)

def hashedKey (z zCap : BigNumber) (ordered : List (BigNumber × BigNumber)) : List UInt8 :=
  z.toBytes ++ ordered.flatMap (·.1.toBytes) ++ zCap.toBytes ++ ordered.flatMap (·.2.toBytes)

-- The names of the key and of the proof; the one base without a response is that of the master
-- secret.
structure Covers (prPubKey : CredentialPrimaryPublicKey) (proof : CredentialKeyCorrectnessProof) :
    Prop where
  proved : ∀ a ∈ prPubKey.r, a ≠ "master_secret" → a ∈ proof.xrCap.map Prod.fst
  based : ∀ a ∈ proof.xrCap.map Prod.fst, a ∈ prPubKey.r

theorem covers_iff_names : Covers pPubKey p ↔
    ((env.hashOrder pPubKey.r.keys).find? fun rKey =>
      rKey ∉ (p.xrCap.map Prod.fst).toFinset ∧ rKey ≠ "master_secret") = none ∧
    ((env.hashOrder (p.xrCap.map Prod.fst).toFinset).find? (· ∉ pPubKey.r)) = none := by
  simp only [List.find?_eq_none, env.mem_hashOrder, Finmap.mem_keys, List.mem_toFinset,
    decide_eq_true_eq, not_and, not_not]
  constructor
  case mp =>
    intro h
    refine ⟨fun a ha hmissing => ?_, h.based⟩
    by_contra hne
    exact hmissing <| h.proved a ha hne
  case mpr =>
    rintro ⟨hproved, hbased⟩
    refine ⟨fun a ha hne => ?_, hbased⟩
    by_contra hmissing
    exact hne <| hproved a ha hmissing

theorem covers_of_keys (h : pPubKey.r.keys = (p.xrCap.map Prod.fst).toFinset) :
    Covers pPubKey p := by
  have hmem (a : String) : a ∈ pPubKey.r ↔ a ∈ p.xrCap.map Prod.fst := by
    rw [← Finmap.mem_keys, h, List.mem_toFinset]
  exact ⟨fun a ha _ => (hmem a).mp ha, fun a => (hmem a).mpr⟩

theorem checkKey_eq_ok_iff :
    checkCredentialKeyCorrectnessProof env pPubKey p = .ok () ↔
      Covers pPubKey p ∧ ∃ zCap ordered, recomputedKey pPubKey p = .ok (zCap, ordered) ∧
        p.c = getHashAsInt env [hashedKey pPubKey.z zCap ordered] := by
  unfold checkCredentialKeyCorrectnessProof
  dsimp only
  split
  case h_1 hfind =>
    refine iff_of_false (fun h => by cases h) ?_
    rintro ⟨hcovers, -⟩
    rw [(covers_iff_names.mp hcovers).left] at hfind
    cases hfind
  case h_2 hproved =>
    split
    case h_1 hfind =>
      refine iff_of_false (fun h => by cases h) ?_
      rintro ⟨hcovers, -⟩
      rw [(covers_iff_names.mp hcovers).right] at hfind
      cases hfind
    case h_2 hbased =>
      have hcovers : Covers pPubKey p := covers_iff_names.mpr ⟨hproved, hbased⟩
      simp only [recomputedKey, hashedKey, bind_eq_ok_iff, pure_eq_ok_iff, Prod.mk.injEq,
        ite_error_eq_ok_iff, not_not]
      constructor
      case mp =>
        rintro ⟨zInverse, hz, zCap, hzCap, ordered, hordered, hc, -⟩
        exact ⟨hcovers, zCap, ordered, ⟨zInverse, hz, zCap, hzCap, ordered, hordered, rfl, rfl⟩, hc⟩
      case mpr =>
        rintro ⟨-, zCap, ordered, ⟨zInverse, hz, _, hzCap, _, hordered, rfl, rfl⟩, hc⟩
        exact ⟨zInverse, hz, _, hzCap, _, hordered, hc, trivial⟩

section Soundness

variable {H : Subgroup (ZMod pPubKey.n.natAbs)ˣ} {entry : String × BigNumber}

theorem checkKeyAttr_eq_ok (K : UnitKey pPubKey) {c : BigNumber}
    (h : checkKeyAttr pPubKey c entry = .ok item) :
    ((item.2 : ℤ) : ZMod pPubKey.n.natAbs) =
      ↑((K.r entry.1 ^ (c : ℤ))⁻¹ * K.s ^ (entry.2 : ℤ)) := by
  simp only [checkKeyAttr, bind_eq_ok_iff, okOrElse_eq_ok_iff, pure_eq_ok_iff,
    getPedersenCommitment] at h
  obtain ⟨rValue, hr, rInverse, hinverse, _, ⟨x, hx, y, hy, hval⟩, rfl⟩ := h
  rw [modMul_cast hval, modExp_unit hx (inverse_unit hinverse (K.r_eq _ _ hr)),
    modExp_unit hy K.s_eq, inv_zpow, Units.val_mul]

theorem recomputedKey_eq_ok (K : UnitKey pPubKey) (h : recomputedKey pPubKey p = .ok (zCap, ordered)) :
    ((zCap : ℤ) : ZMod pPubKey.n.natAbs) = ↑((K.z ^ (p.c : ℤ))⁻¹ * K.s ^ (p.xzCap : ℤ)) ∧
      p.xrCap.mapM (checkKeyAttr pPubKey p.c) = .ok ordered := by
  simp only [recomputedKey, bind_eq_ok_iff, pure_eq_ok_iff, Prod.mk.injEq,
    getPedersenCommitment] at h
  obtain ⟨zInverse, hz, _, ⟨x, hx, y, hy, hval⟩, _, hordered, rfl, rfl⟩ := h
  refine ⟨?_, hordered⟩
  rw [modMul_cast hval, modExp_unit hx (inverse_unit hz K.z_eq), modExp_unit hy K.s_eq, inv_zpow,
    Units.val_mul]

-- Two responses for one name whose difference `k` divides.
def ResponseDivides (k : ℤ) (entry entry' : String × BigNumber) : Prop :=
  entry.1 = entry'.1 ∧ k ∣ entry.2 - entry'.2

-- Two answers to the same commitments open `Z` and all bases but that of the master secret as powers
-- of `S`, in a group where the difference of the challenges can be taken out of a power.
theorem keyProof_specialSound (K : UnitKey pPubKey)
    (hinj : Set.InjOn (· ^ (p.c - p'.c : ℤ)) (H : Set (ZMod pPubKey.n.natAbs)ˣ))
    (hs : K.s ∈ H) (hz : K.z ∈ H) (hr : ∀ a ∈ pPubKey.r, K.r a ∈ H)
    (hxz : (p.c - p'.c : ℤ) ∣ p.xzCap - p'.xzCap)
    (hxr : List.Forall₂ (ResponseDivides (p.c - p'.c)) p.xrCap p'.xrCap)
    (hcheck : checkCredentialKeyCorrectnessProof env pPubKey p = .ok ())
    (hsame : recomputedKey pPubKey p' = recomputedKey pPubKey p) :
    K.z = K.s ^ ((p.xzCap - p'.xzCap) / (p.c - p'.c) : ℤ) ∧
      List.Forall₂ (fun entry entry' =>
        K.r entry.1 = K.s ^ ((entry.2 - entry'.2) / (p.c - p'.c) : ℤ)) p.xrCap p'.xrCap ∧
      ∀ a ∈ pPubKey.r, a ≠ "master_secret" → ∃ x : ℤ, K.r a = K.s ^ x := by
  obtain ⟨hcovers, zCap, ordered, h, -⟩ := checkKey_eq_ok_iff.mp hcheck
  rw [h] at hsame
  obtain ⟨hzCap, hordered⟩ := recomputedKey_eq_ok K h
  obtain ⟨hzCap', hordered'⟩ := recomputedKey_eq_ok K hsame
  have hscale {x x' : ℤ} (h : (p.c - p'.c : ℤ) ∣ x - x') :
      K.s ^ x / K.s ^ x' = (K.s ^ ((x - x') / (p.c - p'.c) : ℤ)) ^ (p.c - p'.c : ℤ) :=
    div_eq_iff_eq_mul.mpr <| ClKey.zpow_scale (Int.mul_ediv_cancel' h).symm
  have hbases := mapM_forall₂ (S := fun entry entry' =>
      K.r entry.1 = K.s ^ ((entry.2 - entry'.2) / (p.c - p'.c) : ℤ))
    (fun entry hmem entry' item hd hb hb' => by
      obtain ⟨hname, hdivides⟩ := hd
      have hitem := checkKeyAttr_eq_ok K hb
      have hitem' := checkKeyAttr_eq_ok K hb'
      rw [← hname] at hitem'
      have hbase := hr entry.1 <| hcovers.based entry.1 <| List.mem_map_of_mem hmem
      exact Sigma.extract_power hinj hbase (zpow_mem hs _) (hscale hdivides)
        (Units.ext <| hitem.symm.trans hitem'))
    hxr hordered hordered'
  refine ⟨?_, hbases, fun a ha hne => ?_⟩
  · exact Sigma.extract_power hinj hz (zpow_mem hs _) (hscale hxz)
      (Units.ext <| hzCap.symm.trans hzCap')
  · obtain ⟨entry, hentry, rfl⟩ := List.mem_map.mp <| hcovers.proved a ha hne
    obtain ⟨entry', hbase⟩ := exists_of_forall₂ hbases hentry
    exact ⟨_, hbase⟩

end Soundness

section Forgery

variable {n z g rctxt : BigNumber} {names : List String} {x : String → BigNumber}

-- A key whose bases are powers of `Z`: `S` is chosen when the challenge is known, which does not
-- depend on it.
def forgeKey (env : Env) (n z g rctxt : BigNumber) (names : List String)
    (x : String → BigNumber) :
    UrsaCryptoResult (CredentialPrimaryPublicKey × CredentialKeyCorrectnessProof) := do
  let r ← Issuer.collect names fun a => z.modExp (x a) n
  let rTildas ← Issuer.collect names fun a => g.modExp (x a) n
  let ordered := names.map fun a => (exponents r a, exponents rTildas a)
  let c := getHashAsInt env [hashedKey z g ordered]
  let s ← getPedersenCommitment z c g 1 n
  pure ({ n, s, r, rctxt, z }, { c, xzCap := 1, xrCap := names.map fun a => (a, x a) })

theorem collect_modExp_ok (hn : 1 < n.natAbs) {u : (ZMod n.natAbs)ˣ}
    (hz : ((z : ℤ) : ZMod n.natAbs) = u) (names : List String) (x : String → BigNumber) :
    ∃ r, Issuer.collect names (fun a => z.modExp (x a) n) = .ok r ∧ r.keys = names.toFinset ∧
      ∀ a ∈ r, ∃ y, r.lookup a = some y ∧ Computes n (.ok y) (u ^ (x a : ℤ)) := by
  obtain ⟨r, hr⟩ := Issuer.collect_ok names (f := fun a => z.modExp (x a) n)
    fun a _ => modExp_ok_of_isUnit hn (hz ▸ u.isUnit)
  obtain ⟨hkeys, hvalues⟩ := Issuer.collect_eq_ok hr
  refine ⟨r, hr, hkeys, fun a ha => ?_⟩
  obtain ⟨y, hy⟩ := Finmap.mem_iff.mp ha
  exact ⟨y, hy, hvalues a y hy ▸ computes_modExp hn hz (x a)⟩

-- Whatever the challenge is, the response leads from a power of `Z` to that of `g`.
theorem checkKeyAttr_forged {key : CredentialPrimaryPublicKey} {c : BigNumber}
    {u w : (ZMod key.n.natAbs)ˣ} (hn : 1 < key.n.natAbs)
    (hs : Computes key.n (.ok key.s) (u ^ (c : ℤ) * w ^ (1 : ℤ)))
    (hr : key.r.lookup a = some y) (hy : Computes key.n (.ok y) (u ^ (x a : ℤ)))
    (ht : Computes key.n (.ok t) (w ^ (x a : ℤ))) :
    checkKeyAttr key c (a, x a) = .ok (y, t) := by
  obtain ⟨rInverse, hinverse, -, hcast⟩ := computes_inverse hn hy.cast
  have hval := computes_getPedersenCommitment hn hcast hs.cast c (x a)
  have hcancel : ((u ^ (x a : ℤ))⁻¹) ^ (c : ℤ) * (u ^ (c : ℤ) * w ^ (1 : ℤ)) ^ (x a : ℤ) =
      w ^ (x a : ℤ) := by
    rw [zpow_one, mul_zpow, ← zpow_mul, ← zpow_neg, ← zpow_mul, neg_mul, mul_comm (x a : ℤ),
      zpow_neg, inv_mul_cancel_left]
  rw [hcancel] at hval
  have hval := hval.unique ht
  simp only [checkKeyAttr, hr, okOrElse, hinverse, hval, ok_bind]
  rfl

theorem zCap_forged {u w : (ZMod n.natAbs)ˣ} (hn : 1 < n.natAbs)
    (hz : ((z : ℤ) : ZMod n.natAbs) = u) (hg : Computes n (.ok g) w)
    (hs : Computes n (.ok s) (u ^ (c : ℤ) * w ^ (1 : ℤ))) :
    ∃ zInverse, z.inverse n = .ok zInverse ∧ getPedersenCommitment zInverse c s 1 n = .ok g := by
  obtain ⟨zInverse, hinverse, -, hcast⟩ := computes_inverse hn hz
  have hval := computes_getPedersenCommitment hn hcast hs.cast c 1
  rw [zpow_one, zpow_one, inv_zpow, inv_mul_cancel_left] at hval
  exact ⟨zInverse, hinverse, hval.unique hg⟩

-- The proof leaves open what `Z` has to do with `S`: the values that are hashed are those for any
-- number `g`.
theorem forgedKey_accepted {env env' : Env} (hsha : env.sha256 = env'.sha256)
    (hn : 1 < n.natAbs) (hz : Int.gcd z n = 1) (hg : Int.gcd g n = 1)
    (hcanonical : 0 ≤ g ∧ g < n.natAbs) (rctxt : BigNumber) (names : List String)
    (x : String → BigNumber) :
    ∃ key proof, forgeKey env n z g rctxt names x = .ok (key, proof) ∧
      checkCredentialKeyCorrectnessProof env' key proof = .ok () ∧
      key.n = n ∧ key.z = z ∧ key.rctxt = rctxt ∧ key.r.keys = names.toFinset ∧
      getPedersenCommitment z proof.c g 1 n = .ok key.s := by
  obtain ⟨u, hu⟩ := ModArith.isUnit_cast_iff.mpr hz
  obtain ⟨w, hw⟩ := ModArith.isUnit_cast_iff.mpr hg
  obtain ⟨r, hr, hkeys, hbases⟩ := collect_modExp_ok hn hu.symm names x
  obtain ⟨rTildas, hrTildas, hkeys', htildas⟩ := collect_modExp_ok hn hw.symm names x
  let ordered := names.map fun a => (exponents r a, exponents rTildas a)
  let c := getHashAsInt env [hashedKey z g ordered]
  have hpedersen := computes_getPedersenCommitment hn hu.symm hw.symm c 1
  obtain ⟨s, hs, -⟩ := id hpedersen
  rw [hs] at hpedersen
  let key : CredentialPrimaryPublicKey := { n, s, r, rctxt, z }
  let proof : CredentialKeyCorrectnessProof :=
    { c, xzCap := 1, xrCap := names.map fun a => (a, x a) }
  have hcovers : Covers key proof := by
    refine covers_of_keys ?_
    change r.keys = ((names.map fun a => (a, x a)).map Prod.fst).toFinset
    rw [hkeys, List.map_map]
    exact congrArg List.toFinset (List.map_id _).symm
  have hordered : proof.xrCap.mapM (checkKeyAttr key c) = .ok ordered := by
    rw [List.mapM_map]
    refine mapM_eq_map fun a ha => ?_
    have hmem : a ∈ names.toFinset := List.mem_toFinset.mpr ha
    obtain ⟨y, hlookup, hy⟩ := hbases a <| Finmap.mem_keys.mp <| hkeys ▸ hmem
    obtain ⟨t, hlookup', ht⟩ := htildas a <| Finmap.mem_keys.mp <| hkeys' ▸ hmem
    rw [exponents_eq hlookup, exponents_eq hlookup']
    exact checkKeyAttr_forged hn hpedersen hlookup hy ht
  obtain ⟨zInverse, hinverse, hzCap⟩ :=
    zCap_forged hn hu.symm ⟨g, rfl, hcanonical, hw.symm⟩ hpedersen
  have hrecomputed : recomputedKey key proof = .ok (g, ordered) := by
    rw [recomputedKey, hinverse, ok_bind, hzCap, ok_bind, hordered]
    rfl
  refine ⟨key, proof, ?_, ?_, rfl, rfl, rfl, hkeys, hs⟩
  · rw [forgeKey, hr, ok_bind, hrTildas, ok_bind]
    change (getPedersenCommitment z c g 1 n >>= _) = _
    rw [hs]
    rfl
  · exact checkKey_eq_ok_iff.mpr
      ⟨hcovers, g, ordered, hrecomputed, getHashAsInt_congr hsha _⟩

end Forgery

section Mod77

-- The answer to the challenge `c`, with the exponents of the key.
def keyAnswer (c : ℤ) : CredentialKeyCorrectnessProof where
  c := c
  xzCap := 7 * c + 1
  xrCap := ["age", "link", "name"].map fun a => (a, 5 * c + 1)

theorem keyProof_specialSound_identity :
    identityUnitKey.z = identityUnitKey.s ^ (7 : ℤ) ∧
      ∀ a ∈ identityPubKey.pKey.r, a ≠ "master_secret" →
        ∃ x : ℤ, identityUnitKey.r a = identityUnitKey.s ^ x := by
  let env : Env := .sorted (fun _ => List.replicate 31 0 ++ [9]) fun _ => rfl
  have hinj : Set.InjOn (· ^ ((keyAnswer 9).c - (keyAnswer 2).c : ℤ))
      ((⊤ : Subgroup (ZMod identityPubKey.pKey.n.natAbs)ˣ) :
        Set (ZMod identityPubKey.pKey.n.natAbs)ˣ) :=
    ProofVerifier.zpow_injective_mod77.injOn
  have hcheck : checkCredentialKeyCorrectnessProof env identityPubKey.pKey (keyAnswer 9) =
      .ok () := by
    decide +kernel
  have hsame : recomputedKey identityPubKey.pKey (keyAnswer 2) =
      recomputedKey identityPubKey.pKey (keyAnswer 9) := by
    decide +kernel
  have hxr : List.Forall₂ (ResponseDivides ((keyAnswer 9).c - (keyAnswer 2).c)) (keyAnswer 9).xrCap
      (keyAnswer 2).xrCap :=
    .cons ⟨rfl, by decide⟩ <| .cons ⟨rfl, by decide⟩ <| .cons ⟨rfl, by decide⟩ .nil
  obtain ⟨hz, -, hr⟩ := keyProof_specialSound identityUnitKey hinj (Subgroup.mem_top _)
    (Subgroup.mem_top _) (fun _ _ => Subgroup.mem_top _) (by decide) hxr hcheck hsame
  exact ⟨hz, hr⟩

-- The powers of 12 are 1, 12, 23, 34, 45 and 67.
theorem forgedKey_accepted_sixty :
    let env : Env := .sorted (fun _ => List.replicate 31 0 ++ [9]) fun _ => rfl
    ∃ key proof, forgeKey env 77 60 5 15 ["age"] (fun _ => 2) = .ok (key, proof) ∧
      checkCredentialKeyCorrectnessProof env key proof = .ok () ∧ key.z = 60 ∧
      ∀ k : ℕ, ((key.s : ℤ) : ZMod 77) ^ k ≠ ((key.z : ℤ) : ZMod 77) := by
  intro env
  obtain ⟨key, proof, hforge, hcheck, -, hz, -, -, -⟩ := forgedKey_accepted (rfl : env.sha256 = _)
    (by decide : 1 < (77 : ℤ).natAbs) (by decide : Int.gcd 60 77 = 1) (by decide : Int.gcd 5 77 = 1)
    (by decide) 15 ["age"] fun _ => 2
  have hs : (forgeKey env 77 60 5 15 ["age"] fun _ => 2).map (·.1.s) = .ok 12 := by
    decide +kernel
  rw [hforge] at hs
  have hs : key.s = 12 := Except.ok.inj hs
  refine ⟨key, proof, hforge, hcheck, hz, fun k => ?_⟩
  have hperiod : (12 : ZMod 77) ^ k = 12 ^ (k % 6) := by
    conv_lhs => rw [← Nat.div_add_mod k 6, pow_add, pow_mul]
    rw [show (12 : ZMod 77) ^ 6 = 1 by decide, one_pow, one_mul]
  have hlt : k % 6 < 6 := Nat.mod_lt _ (by decide)
  rw [hs, hz]
  change (12 : ZMod 77) ^ k ≠ 60
  rw [hperiod]
  revert hlt
  generalize k % 6 = i
  revert i
  decide

end Mod77
end Prover
end Ursa
