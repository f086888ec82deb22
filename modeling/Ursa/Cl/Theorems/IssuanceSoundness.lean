import Ursa.Cl.Theorems.Completeness.Presentation

namespace Ursa

open BigNumber UrsaCryptoResult

variable {C : Curve} {env : Env} {pPubKey : CredentialPrimaryPublicKey} {K : UnitKey pPubKey}

namespace Issuer

variable {secrets : BlindedCredentialSecrets C} {proof : BlindedCredentialSecretsCorrectnessProof}
variable {uCap : BigNumber} {caps : List BigNumber}

section Recomputed

-- The commitment of a committed attribute, as the issuer computes it.
def committedCap (credPrPubKey : CredentialPrimaryPublicKey)
    (proof : BlindedCredentialSecretsCorrectnessProof) (entry : String × BigNumber) :
    UrsaCryptoResult BigNumber := do
  let mCap ← okOrElse (proof.mCaps.lookup entry.1) <| .panic "no entry found for key"
  let inverse ← entry.2.inverse credPrPubKey.n
  let power ← inverse.modExp proof.c credPrPubKey.n
  let rCap ← okOrElse (proof.rCaps.lookup entry.1) <| .panic "no entry found for key"
  let commitment ←
    getPedersenCommitment credPrPubKey.z mCap credPrPubKey.s rCap credPrPubKey.n
  power.modMul commitment credPrPubKey.n

-- All that the issuer computes from a proof before it hashes.
def recomputed (secrets : BlindedCredentialSecrets C)
    (proof : BlindedCredentialSecretsCorrectnessProof)
    (credPrPubKey : CredentialPrimaryPublicKey) : UrsaCryptoResult (BigNumber × List BigNumber) := do
  let inverse ← secrets.u.inverse credPrPubKey.n
  let power ← inverse.modExp proof.c credPrPubKey.n
  let blinding ← credPrPubKey.s.modExp proof.vDashCap credPrPubKey.n
  let uCap ← foldResult (checkHiddenAttr credPrPubKey proof.mCaps)
    (power.modMul blinding credPrPubKey.n) (BTreeSet.iter secrets.hiddenAttributes)
  let caps ← secrets.committedAttributes.iter.mapM (committedCap credPrPubKey proof)
  pure (uCap, caps)

-- The bytes that are hashed.
def hashedValues (secrets : BlindedCredentialSecrets C) (nonce : Nonce) (uCap : BigNumber)
    (caps : List BigNumber) : List UInt8 :=
  (caps.zip secrets.committedAttributes.iter).flatMap (fun item =>
    item.1.toBytes ++ item.2.2.toBytes) ++ secrets.u.toBytes ++ uCap.toBytes ++ nonce.toBytes

theorem checkCommittedAttr_eq (values : List UInt8) (entry : String × BigNumber) :
    checkCommittedAttr pPubKey proof values entry =
      committedCap pPubKey proof entry >>= fun cap =>
        pure <| values ++ (cap.toBytes ++ entry.2.toBytes) := by
  simp only [checkCommittedAttr, committedCap, bind_assoc, List.append_assoc]

theorem foldlM_checkCommittedAttr_eq (values : List UInt8) (l : List (String × BigNumber)) :
    l.foldlM (checkCommittedAttr pPubKey proof) values =
      l.mapM (committedCap pPubKey proof) >>= fun caps =>
        pure <| values ++ (caps.zip l).flatMap fun item =>
          item.1.toBytes ++ item.2.2.toBytes := by
  induction l generalizing values
  case nil => simp
  case cons entry l hi =>
    rw [List.foldlM_cons, checkCommittedAttr_eq, List.mapM_cons]
    simp only [hi, bind_assoc, pure_bind, List.zip_cons_cons, List.flatMap_cons, List.append_assoc]

-- The check compares the challenge with the hash of what is computed.
theorem check_eq_ok_iff {nonce : Nonce} :
    checkBlindedCredentialSecretsCorrectnessProof env secrets proof nonce pPubKey = .ok () ↔
      ∃ uCap caps, recomputed secrets proof pPubKey = .ok (uCap, caps) ∧
        proof.c = getHashAsInt env [hashedValues secrets nonce uCap caps] := by
  simp only [checkBlindedCredentialSecretsCorrectnessProof, recomputed, hashedValues,
    foldlM_checkCommittedAttr_eq, bind_assoc, pure_bind, bind_eq_ok_iff, pure_eq_ok_iff,
    Prod.mk.injEq, List.nil_append]
  constructor
  case mp =>
    rintro ⟨inverse, hinverse, power, hpower, blinding, hblinding, uCap, huCap, caps, hcaps, h⟩
    refine ⟨uCap, caps, ⟨inverse, hinverse, power, hpower, blinding, hblinding, uCap, huCap, caps,
      hcaps, rfl, rfl⟩, ?_⟩
    by_contra hne
    rw [if_pos hne] at h
    cases h
  case mpr =>
    rintro ⟨uCap, caps, ⟨inverse, hinverse, power, hpower, blinding, hblinding, _, huCap, _, hcaps,
      rfl, rfl⟩, h⟩
    exact ⟨inverse, hinverse, power, hpower, blinding, hblinding, _, huCap, _, hcaps,
      if_neg <| not_not.mpr h⟩

theorem checkHiddenAttr_eq_ok (K : UnitKey pPubKey) {mCaps : BTreeMap BigNumber}
    {acc : UrsaCryptoResult BigNumber} (h : checkHiddenAttr pPubKey mCaps acc a = .ok y) :
    ∃ x, acc = .ok x ∧ ((y : ℤ) : ZMod pPubKey.n.natAbs) =
      ↑(K.r a ^ exponents mCaps a) * ((x : ℤ) : ZMod pPubKey.n.natAbs) := by
  simp only [checkHiddenAttr, bind_eq_ok_iff, okOrElse_eq_ok_iff] at h
  obtain ⟨r, hr, mCap, hmCap, x, hx, power, hpower, h⟩ := h
  refine ⟨x, hx, ?_⟩
  rw [modMul_cast h, modExp_unit hpower (K.r_eq _ _ hr), exponents_eq hmCap, mul_comm]

theorem committedCap_eq_ok (K : UnitKey pPubKey) {w : (ZMod pPubKey.n.natAbs)ˣ}
    (hx : ((x : ℤ) : ZMod pPubKey.n.natAbs) = w)
    (h : committedCap pPubKey proof (a, x) = .ok cap) :
    ((cap : ℤ) : ZMod pPubKey.n.natAbs) =
      ↑((w ^ (proof.c : ℤ))⁻¹ * K.commit (exponents proof.mCaps a) (exponents proof.rCaps a)) := by
  simp only [committedCap, bind_eq_ok_iff, okOrElse_eq_ok_iff, getPedersenCommitment] at h
  obtain ⟨mCap, hmCap, inverse, hinverse, power, hpower, rCap, hrCap, commitment,
    ⟨zPower, hz, sPower, hs, hcommitment⟩, h⟩ := h
  rw [modMul_cast h, modMul_cast hcommitment, modExp_unit hpower (inverse_unit hinverse hx),
    modExp_unit hz K.z_eq, modExp_unit hs K.s_eq, exponents_eq hmCap, exponents_eq hrCap,
    ClKey.commit, inv_zpow]
  push_cast
  rfl

-- What is computed for `u` is the value of a representation without a signature.
theorem recomputed_eq_ok (K : UnitKey pPubKey) {u : (ZMod pPubKey.n.natAbs)ˣ}
    (hu : (secrets.u : ZMod pPubKey.n.natAbs) = u)
    (h : recomputed secrets proof pPubKey = .ok (uCap, caps)) :
    (uCap : ZMod pPubKey.n.natAbs) = ↑(K.signatureTau u 1 0 proof.vDashCap 0
        (exponents proof.mCaps) secrets.hiddenAttributes proof.c) ∧
      secrets.committedAttributes.iter.mapM (committedCap pPubKey proof) = .ok caps := by
  simp only [recomputed, bind_eq_ok_iff, pure_eq_ok_iff, Prod.mk.injEq] at h
  obtain ⟨inverse, hinverse, power, hpower, blinding, hblinding, _, huCap, _, hcaps, rfl, rfl⟩ := h
  refine ⟨?_, hcaps⟩
  obtain ⟨x, hx, hprod⟩ := foldResult_prod (fun b : BigNumber => (b : ZMod pPubKey.n.natAbs)) _
    (fun a _ acc y hy => checkHiddenAttr_eq_ok K hy) huCap
  rw [hprod, prod_iter_set, modMul_cast hx, modExp_unit hpower (inverse_unit hinverse hu),
    modExp_unit hblinding K.s_eq, ClKey.signatureTau, ClKey.represent, ClKey.attributes, inv_zpow,
    zpow_zero, zpow_zero, one_mul, mul_one]
  push_cast
  ring

end Recomputed

section Soundness

variable {pubKey : CredentialPublicKey C} {privKey : CredentialPrivateKey C}
variable {p p' : BlindedCredentialSecretsCorrectnessProof} {k : ℤ}

-- `k` divides every difference of the responses.
structure BlindedDivides (k : ℤ) (secrets : BlindedCredentialSecrets C)
    (p p' : BlindedCredentialSecretsCorrectnessProof) : Prop where
  vDashCap : k ∣ p.vDashCap - p'.vDashCap
  hidden : ∀ a ∈ secrets.hiddenAttributes, k ∣ exponents p.mCaps a - exponents p'.mCaps a
  committed : ∀ a ∈ secrets.committedAttributes, k ∣ exponents p.mCaps a - exponents p'.mCaps a
  rCaps : ∀ a ∈ secrets.committedAttributes, k ∣ exponents p.rCaps a - exponents p'.rCaps a

-- Two answers to one request whose numbers lie in the subgroup of the key open it, and the signature
-- of the issuer is about what they open.
theorem issuance_specialSound {K : UnitKey pubKey.pKey} {H : Subgroup (ZMod pubKey.pKey.n.natAbs)ˣ}
    (hK : OrderKey K privKey H)
    (hinj : Set.InjOn (· ^ (p.c - p'.c : ℤ)) (H : Set (ZMod pubKey.pKey.n.natAbs)ˣ))
    (hu : ∃ u ∈ H, (secrets.u : ZMod pubKey.pKey.n.natAbs) = ↑u)
    (hcommitted : ∀ a x, secrets.committedAttributes.lookup a = some x →
      ∃ u ∈ H, (x : ZMod pubKey.pKey.n.natAbs) = ↑u)
    (hdivides : BlindedDivides (p.c - p'.c) secrets p p')
    (h : recomputed secrets p pubKey.pKey = .ok values)
    (h' : recomputed secrets p' pubKey.pKey = .ok values)
    (hsign : signCredential env proverId secrets proof nonce issuanceNonce credValues pubKey privKey
      draws = .ok (signature, correctness)) :
    let v : ℤ := (p.vDashCap - p'.vDashCap) / (p.c - p'.c)
    let m := fun a => (exponents p.mCaps a - exponents p'.mCaps a) / (p.c - p'.c : ℤ)
    let r := fun a => (exponents p.rCaps a - exponents p'.rCaps a) / (p.c - p'.c : ℤ)
    (∀ a x, secrets.committedAttributes.lookup a = some x →
      (x : ZMod pubKey.pKey.n.natAbs) = ↑(K.commit (m a) (r a))) ∧
    Opens K secrets v m ∧
    ∃ A ∈ H, (signature.pCredential.a : ZMod pubKey.pKey.n.natAbs) = ↑A ∧
      K.z = K.represent A signature.pCredential.e (signature.pCredential.v + v)
        signature.pCredential.m2 (signedExponents credValues secrets m)
        (credValues.names (·.isKnown) ∪ secrets.hiddenAttributes) := by
  intro v m r
  obtain ⟨uCap, caps⟩ := values
  have hopens : Opens K secrets v m := by
    obtain ⟨u, huH, hu⟩ := hu
    obtain ⟨huCap, -⟩ := recomputed_eq_ok K hu h
    obtain ⟨huCap', -⟩ := recomputed_eq_ok K hu h'
    have hzero : (0 : ℤ) - 0 = (p.c - p'.c) * 0 := by rw [sub_zero, mul_zero]
    have hrepresent := ClKey.signatureTau_extract hK.within hinj huH (one_mem H) hzero
      (Int.mul_ediv_cancel' hdivides.vDashCap).symm hzero
      (fun a ha => (Int.mul_ediv_cancel' <| hdivides.hidden a ha).symm)
      (Units.ext <| huCap.symm.trans huCap')
    rw [Opens, hu, hrepresent, ClKey.represent, zpow_zero, zpow_zero, one_mul, mul_one]
    exact congrArg Units.val <| mul_comm ..
  refine ⟨fun a x hx => ?_, hopens, signCredential_represents hK hopens hsign⟩
  obtain ⟨w, hwH, hw⟩ := hcommitted a x hx
  have hmem : a ∈ secrets.committedAttributes := Finmap.mem_of_lookup_eq_some hx
  obtain ⟨-, hcaps⟩ := recomputed_eq_ok K hu.choose_spec.right h
  obtain ⟨-, hcaps'⟩ := recomputed_eq_ok K hu.choose_spec.right h'
  obtain ⟨cap, hcap, hcap'⟩ := exists_ok_of_mapM hcaps hcaps' <| BTreeMap.mem_iter.mpr hx
  have hpower := committedCap_eq_ok K hw hcap
  have hpower' := committedCap_eq_ok K hw hcap'
  rw [hw, Sigma.extract_power hinj hwH (ClKey.commit_mem hK.within)
    (ClKey.commit_scale (Int.mul_ediv_cancel' <| hdivides.committed a hmem).symm
      (Int.mul_ediv_cancel' <| hdivides.rCaps a hmem).symm)
    (Units.ext <| hpower.symm.trans hpower')]

section Mod77

open ProofVerifier (curveMod11)

-- The name is hidden and the link is committed to; the age is left to the issuer.
def nameSecrets : BlindedCredentialSecrets curveMod11 where
  u := 37
  ur := none
  hiddenAttributes := {"name"}
  committedAttributes := (∅ : BTreeMap BigNumber).insert "link" 15

-- The answer to the challenge `c`, for the name 2 and the link 5.
def nameAnswer (c : ℤ) : BlindedCredentialSecretsCorrectnessProof where
  c := c
  vDashCap := c + 1
  mCaps := ((∅ : BTreeMap BigNumber).insert "link" (5 * c + 1)).insert "name" (2 * c + 1)
  rCaps := (∅ : BTreeMap BigNumber).insert "link" (c + 1)

theorem canSign_identity (env : Env) (proverId : String) :
    CanSign env proverId identityPubKey (issuerPrivKey curveMod11) ageValues signDraws77 where
  n := show 1 < (77 : ℤ).natAbs by decide
  s := show Int.gcd 4 77 = 1 by decide
  rctxt := .inr <| show Int.gcd 15 77 = 1 by decide
  known a x h := by
    obtain ⟨rfl, rfl⟩ := ageValues_knows.mp h
    exact ⟨23, by decide +kernel, .inr <| show Int.gcd 23 77 = 1 by decide⟩
  order := show (1 : ℤ) < 3 * 5 by decide
  e := by decide +kernel

def rootsMod77 : Subgroup (ZMod identityPubKey.pKey.n.natAbs)ˣ :=
  (zpowGroupHom 15).ker

theorem mem_rootsMod77 {x : (ZMod identityPubKey.pKey.n.natAbs)ˣ} : x ∈ rootsMod77 ↔ x ^ 15 = 1 :=
  Iff.rfl

theorem orderKey_identity : OrderKey identityUnitKey (issuerPrivKey curveMod11) rootsMod77 where
  within :=
    { s := mem_rootsMod77.mpr <| by decide +kernel
      z := mem_rootsMod77.mpr <| by decide +kernel
      rctxt := mem_rootsMod77.mpr <| by decide +kernel
      r _ := mem_rootsMod77.mpr <| show identityUnitKey.r "age" ^ 15 = 1 by decide +kernel }
  zpow_order _ hg := hg

theorem issuance_specialSound_identity :
    let env : Env := .sorted (fun _ => List.replicate 32 0) fun _ => List.length_replicate
    ∃ signature correctness, ∃ A : (ZMod identityPubKey.pKey.n.natAbs)ˣ,
      signCredential env "prover" nameSecrets (nameAnswer 0) 1 2 ageValues identityPubKey
        (issuerPrivKey curveMod11) signDraws77 = .ok (signature, correctness) ∧
      ((signature.pCredential.a : ℤ) : ZMod identityPubKey.pKey.n.natAbs) = ↑A ∧
      identityUnitKey.z = identityUnitKey.represent A signature.pCredential.e
        (signature.pCredential.v + 1) signature.pCredential.m2
        (signedExponents ageValues nameSecrets fun a =>
          (exponents (nameAnswer 9).mCaps a - exponents (nameAnswer 2).mCaps a) / 7)
        (ageValues.names (·.isKnown) ∪ {"name"}) := by
  intro env
  have hanswer : ∀ c ∈ [(0 : ℤ), 9, 2], recomputed nameSecrets (nameAnswer c) identityPubKey.pKey =
      .ok (15, [9]) := by
    decide +kernel
  have hcheck : checkBlindedCredentialSecretsCorrectnessProof env nameSecrets (nameAnswer 0) 1
      identityPubKey.pKey = .ok () :=
    check_eq_ok_iff.mpr ⟨15, [9], hanswer 0 (by decide), rfl⟩
  obtain ⟨⟨signature, correctness⟩, hsign⟩ := signCredential_ok (canSign_identity env "prover") hcheck 2
  have hcommitted : ∀ a x, nameSecrets.committedAttributes.lookup a = some x → x = 15 := by
    intro a x hx
    have hbase : ∀ a ∈ nameSecrets.committedAttributes.keys,
        exponents nameSecrets.committedAttributes a = 15 := by
      decide +kernel
    have ha := hbase a <| Finmap.mem_keys.mpr <| Finmap.mem_of_lookup_eq_some hx
    rwa [exponents_eq hx] at ha
  have hu : ZMod.unitOfCoprime 37 (by decide) ∈ rootsMod77 :=
    mem_rootsMod77.mpr <| by decide +kernel
  have hx : ZMod.unitOfCoprime 15 (by decide) ∈ rootsMod77 :=
    mem_rootsMod77.mpr <| by decide +kernel
  have hinj : Set.InjOn (· ^ ((nameAnswer 9).c - (nameAnswer 2).c : ℤ))
      (rootsMod77 : Set (ZMod identityPubKey.pKey.n.natAbs)ˣ) :=
    ProofVerifier.zpow_injective_mod77.injOn
  have hdivides : BlindedDivides ((nameAnswer 9).c - (nameAnswer 2).c) nameSecrets (nameAnswer 9)
      (nameAnswer 2) :=
    ⟨by decide, by decide +kernel, by decide +kernel, by decide +kernel⟩
  obtain ⟨-, -, A, -, hA, hz⟩ := issuance_specialSound orderKey_identity hinj ⟨_, hu, rfl⟩
    (fun a x h => ⟨_, hx, congrArg Int.cast <| hcommitted a x h⟩) hdivides
    (hanswer 9 (by decide)) (hanswer 2 (by decide)) hsign
  exact ⟨signature, correctness, A, hsign, hA, hz⟩

end Mod77
end Soundness
end Issuer
end Ursa
