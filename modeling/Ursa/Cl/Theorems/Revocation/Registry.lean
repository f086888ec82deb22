import Ursa.Cl.Theorems.Issuance
import Ursa.Cl.Theorems.Revocation.Witness

namespace Ursa

open BigNumber UrsaCryptoResult
open RevocationRegistryDelta (between)
open Witness (initialIndices)

variable {C : Curve} {env : Env} {gamma : GroupOrderElement C} {gDash : PointG2 C} {L i j : UInt32}

-- The tail that stands for the index `j` in the accumulator.
def accumTail (gamma : GroupOrderElement C) (gDash : PointG2 C) (L j : UInt32) : Tail C :=
  gamma ^ (L.toNat + 1 - j.toNat) • gDash

namespace Issuer

theorem getIndex_ok (hL : 2 * L.toNat + 1 < 2 ^ 32) (hj : j ∈ indices L) :
    ∃ k, getIndex L j = .ok k ∧ k.toNat = L.toNat + 1 - j.toNat := by
  obtain ⟨hj₁, hjL⟩ := mem_indices.mp hj
  have hone : (1 : UInt32).toNat = 1 := rfl
  obtain ⟨x, hx⟩ : ∃ x, addU32 L 1 = .ok x := ⟨_, if_pos (by omega)⟩
  have hxL := addU32_eq_ok_iff.mp hx
  obtain ⟨k, hk⟩ : ∃ k, subU32 x j = .ok k := ⟨_, if_pos (by omega)⟩
  have hkL := subU32_eq_ok_iff.mp hk
  refine ⟨k, ?_, by omega⟩
  rw [getIndex, hx, ok_bind, hk]

section Definition

variable {credRevPubKey : CredentialRevocationPublicKey C} {revKeyPriv : RevocationKeyPrivate C}

theorem toNat_ofNat_index (hk : k ∈ Finset.Icc 1 L.toNat) : (UInt32.ofNat k).toNat = k :=
  UInt32.toNat_ofNat_of_lt' <| (Finset.mem_Icc.mp hk).2.trans_lt L.toNat_lt

theorem addIndexTail_eq (hL : 2 * L.toNat + 1 < 2 ^ 32) (hk : k ∈ Finset.Icc 1 L.toNat)
    (accum : Accumulator C) :
    addIndexTail credRevPubKey revKeyPriv L accum k =
      .ok (accum + accumTail revKeyPriv.gamma credRevPubKey.gDash L (.ofNat k)) := by
  have hj : UInt32.ofNat k ∈ indices L := Finset.mem_image_of_mem _ hk
  obtain ⟨x, hx, hval⟩ := getIndex_ok hL hj
  rw [addIndexTail, hx, ok_bind, newTail_eq, ok_bind, hval]
  rfl

theorem sum_indices (f : UInt32 → PointG2 C) :
    ∑ j ∈ indices L, f j = ((List.range' 1 L.toNat).map fun k => f (.ofNat k)).sum := by
  have hinj : Set.InjOn UInt32.ofNat (Finset.Icc 1 L.toNat) := by
    intro k hk k' hk' heq
    rw [← toNat_ofNat_index hk, ← toNat_ofNat_index hk', heq]
  have hrange : (List.range' 1 L.toNat).toFinset = Finset.Icc 1 L.toNat := by
    ext k
    simp only [List.mem_toFinset, List.mem_range'_1, Finset.mem_Icc]
    omega
  rw [indices, Finset.sum_image hinj, ← hrange, List.sum_toFinset _ List.nodup_range']

-- The loop over `1..=max_cred_num` meets every index once.
theorem newRevocationRegistry_eq (hL : 2 * L.toNat + 1 < 2 ^ 32) :
    newRevocationRegistry credRevPubKey revKeyPriv L byDefault =
      .ok { accum := ∑ j ∈ initialIndices byDefault L,
              accumTail revKeyPriv.gamma credRevPubKey.gDash L j } := by
  have hloop : ∀ (l : List ℕ) (accum : Accumulator C), (∀ k ∈ l, k ∈ Finset.Icc 1 L.toNat) →
      l.foldlM (addIndexTail credRevPubKey revKeyPriv L) accum = .ok (accum +
        (l.map fun k => accumTail revKeyPriv.gamma credRevPubKey.gDash L (.ofNat k)).sum) := by
    intro l
    induction l
    case nil => exact fun accum _ => congrArg _ (add_zero accum).symm
    case cons k l hi =>
      intro accum hl
      rw [List.foldlM_cons, addIndexTail_eq hL (hl k (.head _)), ok_bind,
        hi _ fun k hk => hl k <| .tail _ hk, List.map_cons, List.sum_cons, add_assoc]
  cases byDefault
  case false => rfl
  case true =>
    have hrange : ∀ k ∈ List.range' 1 L.toNat, k ∈ Finset.Icc 1 L.toNat := by
      intro k hk
      rw [List.mem_range'_1] at hk
      rw [Finset.mem_Icc]
      omega
    simp only [newRevocationRegistry, if_true, hloop _ 0 hrange, ok_bind, zero_add, initialIndices,
      sum_indices]
    rfl

theorem newRevocationRegistryDef_eq_ok
    (h : newRevocationRegistryDef credentialPubKey L byDefault gamma =
      .ok (revKeyPub, revKeyPriv, revReg, gen)) (hkey : credentialPubKey.rKey = some rPubKey) :
    2 * L.toNat + 1 < 2 ^ 32 ∧
      RevocationTailsGenerator.new L gamma rPubKey.gDash = .ok gen ∧
      revKeyPriv.gamma = gamma ∧
      revKeyPub.z = gamma ^ (L.toNat + 1) • C.pair rPubKey.g rPubKey.gDash ∧
      revReg.accum = ∑ j ∈ initialIndices byDefault L, accumTail gamma rPubKey.gDash L j := by
  simp only [newRevocationRegistryDef, hkey, okOrElse, ok_bind, newRevocationRegistryKeys,
    bind_eq_ok_iff, pure_eq_ok_iff, Prod.mk.injEq, addU32_eq_ok_iff, powMod_eq] at h
  obtain ⟨_, ⟨size, hsize, _, rfl, rfl⟩, revReg', hreg, gen', hgen, rfl, rfl, rfl, rfl⟩ := h
  obtain ⟨hL, -⟩ := simpleTailsAccessor_eq hgen
  rw [newRevocationRegistry_eq hL] at hreg
  obtain rfl := Except.ok.inj hreg
  have hone : (1 : UInt32).toNat = 1 := rfl
  exact ⟨hL, hgen, rfl, by rw [hsize, hone], rfl⟩

end Definition

section Operations

variable {revReg : RevocationRegistry C} {simple : SimpleTailsAccessor C}
variable {gen gen' : RevocationTailsGenerator C}

section Simple

variable (h : RevocationTailsGenerator.new L gamma gDash = .ok gen)
variable (hnew : SimpleTailsAccessor.new gen = .ok (simple, gen')) (hi : i ∈ indices L)

include h hnew hi

theorem accessTail_index :
    ∃ k, getIndex L i = .ok k ∧ simple.accessTail k = .ok (accumTail gamma gDash L i) := by
  obtain ⟨hL, _, _, hsimple, htail⟩ := simpleTailsAccessor_eq h
  obtain ⟨rfl, -⟩ := Prod.mk.inj <| Except.ok.inj <| hsimple.symm.trans hnew
  obtain ⟨k, hk, hval⟩ := getIndex_ok hL hi
  obtain ⟨hi₁, hiL⟩ := mem_indices.mp hi
  exact ⟨k, hk, by rw [htail k (by omega), hval, accumTail]⟩

theorem addIndex_eq : addIndex L i revReg simple.accessTail =
    .ok
      ({ prevAccum := some revReg.accum
         accum := revReg.accum + accumTail gamma gDash L i
         issued := {i}
         revoked := ∅ }, ⟨revReg.accum + accumTail gamma gDash L i⟩) := by
  obtain ⟨k, hk, htail⟩ := accessTail_index h hnew hi
  rw [addIndex, hk, ok_bind, htail]
  rfl

theorem revokeCredential_eq : revokeCredential revReg L i simple.accessTail =
    .ok
      ({ prevAccum := some revReg.accum
         accum := revReg.accum - accumTail gamma gDash L i
         issued := ∅
         revoked := {i} }, ⟨revReg.accum - accumTail gamma gDash L i⟩) := by
  obtain ⟨k, hk, htail⟩ := accessTail_index h hnew hi
  rw [revokeCredential, hk, ok_bind, htail]
  rfl

end Simple

variable {credPubKey : CredentialPublicKey C} {credPrivKey : CredentialPrivateKey C}
variable {revKeyPriv : RevocationKeyPrivate C} {accessor : RevocationTailsAccessor C}
variable {blinded : BlindedCredentialSecrets C} {draws : NonRevocationDraws C}

-- What the issuer signs: `ur` is the part of the prover, `m2` the context.
def nonRevocationSignature (rPubKey : CredentialRevocationPublicKey C)
    (rPrivKey : CredentialRevocationPrivateKey C) (gamma : GroupOrderElement C) (i : UInt32)
    (ur : PointG1 C) (m2 : GroupOrderElement C) (draws : NonRevocationDraws C) :
    NonRevocationCredentialSignature C :=
  let gI := gamma ^ i.toNat • rPubKey.g
  { sigma := (rPrivKey.x + draws.c)⁻¹ •
      (rPubKey.h0 + m2 • rPubKey.h1 + ur + gI + draws.vrPrimePrime • rPubKey.h2)
    c := draws.c
    vrPrimePrime := draws.vrPrimePrime
    witnessSignature :=
      { sigmaI := (rPrivKey.sk + gamma ^ i.toNat)⁻¹ • rPubKey.gDash
        uI := gamma ^ i.toNat • rPubKey.u
        gI }
    gI, i, m2 }

theorem newNonRevocationCredential_eq_ok
    (h : newNonRevocationCredential i ctx blinded credPubKey credPrivKey L byDefault revReg
      revKeyPriv accessor draws = .ok ((rCred, published), revReg')) :
    ∃ ur rPubKey rPrivKey m2, blinded.ur = some ur ∧ credPubKey.rKey = some rPubKey ∧
      credPrivKey.rKey = some rPrivKey ∧ bignumToGroupElement C ctx = .ok m2 ∧
      rPrivKey.x + draws.c ≠ 0 ∧ rPrivKey.sk + revKeyPriv.gamma ^ i.toNat ≠ 0 ∧
      rCred = nonRevocationSignature rPubKey rPrivKey revKeyPriv.gamma i ur m2 draws ∧
      if byDefault then published = none ∧ revReg' = revReg
      else ∃ delta, published = some delta ∧
        addIndex L i revReg accessor = .ok (delta, revReg') := by
  simp only [newNonRevocationCredential, bind_eq_ok_iff, okOrElse_eq_ok_iff, powMod_eq,
    Except.ok.injEq, exists_eq_left', GroupOrderElement.inverse] at h
  obtain ⟨ur, hur, rPubKey, hpub, rPrivKey, hpriv, m2, hm2, _, hx, _, hsk, _, -, h⟩ := h
  split_ifs at hx with hx₀
  split_ifs at hsk with hsk₀
  obtain rfl := Except.ok.inj hx
  obtain rfl := Except.ok.inj hsk
  refine ⟨ur, rPubKey, rPrivKey, m2, hur, hpub, hpriv, hm2, hx₀, hsk₀, ?_⟩
  cases byDefault
  case true =>
    simp only [if_true, pure_eq_ok_iff, Prod.mk.injEq] at h
    obtain ⟨⟨rfl, rfl⟩, rfl⟩ := h
    exact ⟨rfl, rfl, rfl⟩
  case false =>
    simp only [Bool.false_eq_true, if_false, bind_eq_ok_iff, pure_eq_ok_iff, Prod.mk.injEq] at h
    obtain ⟨⟨delta, revReg''⟩, hadd, ⟨rfl, rfl⟩, rfl⟩ := h
    exact ⟨rfl, delta, rfl, hadd⟩

theorem signCredentialWithRevoc_eq_ok
    (h : signCredentialWithRevoc env proverId blinded proof credentialNonce issuanceNonce values
      credPubKey credPrivKey i L byDefault revReg revKeyPriv accessor signDraws draws =
        (.ok (signature, correctnessProof, published), revReg')) :
    ∃ rCred, signature.rCredential = some rCred ∧
      newNonRevocationCredential i (genCredentialContext env proverId (some i)) blinded credPubKey
        credPrivKey L byDefault revReg revKeyPriv accessor draws =
          .ok ((rCred, published), revReg') := by
  simp only [signCredentialWithRevoc] at h
  split at h
  case h_1 => cases h
  case h_2 pCred q rCred delta revReg'' hissued =>
    simp only [bind_eq_ok_iff, pure_eq_ok_iff, Prod.mk.injEq] at hissued
    obtain ⟨-, -, primary, -, nonRevocation, hcred, -, rfl⟩ := hissued
    simp only [Prod.mk.injEq] at h
    obtain ⟨hproof, rfl⟩ := h
    cases hp : newSignatureCorrectnessProof env credPubKey.pKey credPrivKey.pKey pCred q
      issuanceNonce signDraws.r with
    | error e =>
      rw [hp] at hproof
      cases hproof
    | ok p =>
      rw [hp] at hproof
      simp only [Except.map, Except.ok.injEq, Prod.mk.injEq] at hproof
      obtain ⟨rfl, -, rfl⟩ := hproof
      exact ⟨rCred, rfl, hcred⟩

-- Every legal index gets a credential: the draws only have to avoid the two inverses of 0.
theorem newNonRevocationCredential_ok {rPubKey : CredentialRevocationPublicKey C}
    {rPrivKey : CredentialRevocationPrivateKey C}
    (hgen : RevocationTailsGenerator.new L revKeyPriv.gamma rPubKey.gDash = .ok gen)
    (hnew : SimpleTailsAccessor.new gen = .ok (simple, gen')) (hi : i ∈ indices L)
    (hur : blinded.ur = some ur) (hpub : credPubKey.rKey = some rPubKey)
    (hpriv : credPrivKey.rKey = some rPrivKey) (hx : rPrivKey.x + draws.c ≠ 0)
    (hsk : rPrivKey.sk + revKeyPriv.gamma ^ i.toNat ≠ 0) :
    ∃ result, newNonRevocationCredential i (genCredentialContext env proverId (some i)) blinded
      credPubKey credPrivKey L byDefault revReg revKeyPriv simple.accessTail draws =
        .ok result := by
  have hm2 : bignumToGroupElement C (genCredentialContext env proverId (some i)) = .ok _ :=
    bignumToGroupElement_eq_ok (getHashAsInt_nonneg ..) (getHashAsInt_lt ..)
  obtain ⟨k, hk, -⟩ := accessTail_index hgen hnew hi
  cases byDefault
  all_goals
    simp only [newNonRevocationCredential, hur, hpub, hpriv, okOrElse, hm2, powMod_eq,
      GroupOrderElement.inverse, if_neg hx, if_neg hsk, hk, ok_bind, addIndex_eq hgen hnew hi,
      if_true, Bool.false_eq_true, if_false]
    exact ⟨_, rfl⟩

theorem signCredentialWithRevoc_ok
    (hcheck : checkBlindedCredentialSecretsCorrectnessProof env blinded proof credentialNonce
      credPubKey.pKey = .ok ())
    (hprimary : CanSignPrimary credPubKey credPrivKey (genCredentialContext env proverId (some i))
      values (generateVPrimePrime signDraws.vPrimePrime) signDraws.e.value)
    (hpos : (0 : ℤ) < credPrivKey.pKey.p * credPrivKey.pKey.q)
    (hcred : newNonRevocationCredential i (genCredentialContext env proverId (some i)) blinded
      credPubKey credPrivKey L byDefault revReg revKeyPriv accessor draws =
        .ok ((rCred, published), revReg')) (issuanceNonce : Nonce) :
    ∃ signature correctnessProof, signCredentialWithRevoc env proverId blinded proof credentialNonce
        issuanceNonce values credPubKey credPrivKey i L byDefault revReg revKeyPriv accessor
        signDraws draws = (.ok (signature, correctnessProof, published), revReg') ∧
      signature.rCredential = some rCred := by
  obtain ⟨hn, hu⟩ := isUnit_of_check hcheck
  obtain ⟨aq, hsign⟩ := signPrimaryCredential_ok hn hu hprimary
  have horder := (one_lt_natAbs_iff hpos).mp hprimary.order
  let pCred : PrimaryCredentialSignature :=
    { m2 := genCredentialContext env proverId (some i)
      a := aq.1
      e := signDraws.e.value
      v := generateVPrimePrime signDraws.vPrimePrime }
  obtain ⟨correctnessProof, hcorrectness⟩ : ∃ correctnessProof, newSignatureCorrectnessProof env
      credPubKey.pKey credPrivKey.pKey pCred aq.2 issuanceNonce signDraws.r =
        .ok correctnessProof :=
    newSignatureCorrectnessProof_ok (ne_zero_of_one_lt hn) horder hprimary.e aq.2 signDraws.r
  refine ⟨⟨pCred, some rCred⟩, correctnessProof, ?_, rfl⟩
  simp only [signCredentialWithRevoc, newPrimaryCredential, hcheck, hsign, hcred, ok_bind, pure_bind]
  change ((newSignatureCorrectnessProof env credPubKey.pKey credPrivKey.pKey pCred aq.2
    issuanceNonce signDraws.r).map _, revReg') = _
  rw [hcorrectness]
  rfl

end Operations
end Issuer

-- A registry with everything that has happened to it: `delta` are the published deltas, merged,
-- `valid` the valid indices, and `issued` the signatures of the issued credentials.
structure RegistryState (C : Curve) where
  revReg : RevocationRegistry C
  delta : RevocationRegistryDelta C
  valid : HashSet UInt32
  issued : List (NonRevocationCredentialSignature C)

namespace RegistryState

def initial (revReg : RevocationRegistry C) (issuanceByDefault : Bool) (L : UInt32) :
    RegistryState C where
  revReg := revReg
  delta := .fromParts none revReg ∅ ∅
  valid := initialIndices issuanceByDefault L
  issued := []

def publish (delta : RevocationRegistryDelta C) :
    Option (RevocationRegistryDelta C) → RevocationRegistryDelta C
  | some published => (delta.merge published).2
  | none           => delta

-- What stays the same over the life of a registry.
structure Setup (C : Curve) where
  credPubKey : CredentialPublicKey C
  credPrivKey : CredentialPrivateKey C
  maxCredNum : UInt32
  issuanceByDefault : Bool
  revKeyPriv : RevocationKeyPrivate C
  accessor : SimpleTailsAccessor C

-- With issuance by default all indices count as issued from the start, so that the credential may
-- be signed for any of them and none becomes valid by it.
inductive Step (env : Env) (setup : Setup C) : RegistryState C → RegistryState C → Prop
  | issue {i : UInt32} {signature : CredentialSignature C} : i ∈ indices setup.maxCredNum →
      (setup.issuanceByDefault = false → i ∉ s.valid) →
      Issuer.signCredentialWithRevoc env proverId blinded proof credentialNonce issuanceNonce
        values setup.credPubKey setup.credPrivKey i setup.maxCredNum setup.issuanceByDefault
        s.revReg setup.revKeyPriv setup.accessor.accessTail signDraws draws =
          (.ok (signature, correctnessProof, published), registry) →
      signature.rCredential = some rCred →
      Step env setup s
        { revReg := registry
          delta := publish s.delta published
          valid := if setup.issuanceByDefault then s.valid else insert i s.valid
          issued := rCred :: s.issued }
  | revoke {i : UInt32} : i ∈ s.valid →
      Issuer.revokeCredential s.revReg setup.maxCredNum i setup.accessor.accessTail =
        .ok (published, registry) →
      Step env setup s
        { s with
          revReg := registry
          delta := publish s.delta (some published)
          valid := s.valid.erase i }
  | recover {i : UInt32} : i ∈ indices setup.maxCredNum → i ∉ s.valid →
      Issuer.recoveryCredential s.revReg setup.maxCredNum i setup.accessor.accessTail =
        .ok (published, registry) →
      Step env setup s
        { s with
          revReg := registry
          delta := publish s.delta (some published)
          valid := insert i s.valid }

variable {gen gen' : RevocationTailsGenerator C}
variable {setup : Setup C} {s s' : RegistryState C} {rPubKey : CredentialRevocationPublicKey C}

structure Invariant (setup : Setup C) (rPubKey : CredentialRevocationPublicKey C)
    (s : RegistryState C) : Prop where
  subset : s.valid ⊆ indices setup.maxCredNum
  accum : s.revReg.accum =
    ∑ j ∈ s.valid, accumTail setup.revKeyPriv.gamma rPubKey.gDash setup.maxCredNum j
  delta : s.delta = between none s.revReg.accum
    (initialIndices setup.issuanceByDefault setup.maxCredNum) s.valid
  issued : ∀ cred ∈ s.issued, cred.i ∈ indices setup.maxCredNum ∧
    cred.witnessSignature.gI = setup.revKeyPriv.gamma ^ cred.i.toNat • rPubKey.g

theorem publish_eq {U V W : HashSet UInt32} {d : RevocationRegistryDelta C}
    (hd : d = between (some a) b V W) :
    publish (between p a U V) (some d) = between p b U W := by
  rw [hd, publish, RevocationRegistryDelta.merge_between]

theorem Invariant.issue {cred : NonRevocationCredentialSignature C} (h : Invariant setup rPubKey s)
    (hi : cred.i ∈ indices setup.maxCredNum)
    (hgI : cred.witnessSignature.gI = setup.revKeyPriv.gamma ^ cred.i.toNat • rPubKey.g) :
    Invariant setup rPubKey { s with issued := cred :: s.issued } :=
  ⟨h.subset, h.accum, h.delta, List.forall_mem_cons.mpr ⟨⟨hi, hgI⟩, h.issued⟩⟩

variable (hkey : setup.credPubKey.rKey = some rPubKey)
variable (hgen : RevocationTailsGenerator.new setup.maxCredNum setup.revKeyPriv.gamma
  rPubKey.gDash = .ok gen)
variable (hnew : SimpleTailsAccessor.new gen = .ok (setup.accessor, gen'))

include hgen hnew

-- What is published is the change of the valid set.
theorem addIndex_between {V : HashSet UInt32} {revReg : RevocationRegistry C}
    (hi : i ∈ indices setup.maxCredNum) (hvalid : i ∉ V)
    (hadd : Issuer.addIndex setup.maxCredNum i revReg setup.accessor.accessTail =
      .ok (published, registry)) :
    published = between (some revReg.accum) registry.accum V (insert i V) := by
  rw [Issuer.addIndex_eq hgen hnew hi] at hadd
  obtain ⟨rfl, rfl⟩ := Prod.mk.inj <| Except.ok.inj hadd
  rw [between, Finset.insert_sdiff_of_notMem _ hvalid, sdiff_self,
    Finset.sdiff_eq_empty_iff_subset.mpr <| Finset.subset_insert i V]
  rfl

theorem revokeCredential_between {V : HashSet UInt32} {revReg : RevocationRegistry C}
    (hi : i ∈ indices setup.maxCredNum) (hvalid : i ∈ V)
    (hrevoke : Issuer.revokeCredential revReg setup.maxCredNum i setup.accessor.accessTail =
      .ok (published, registry)) :
    published = between (some revReg.accum) registry.accum V (V.erase i) := by
  rw [Issuer.revokeCredential_eq hgen hnew hi] at hrevoke
  obtain ⟨rfl, rfl⟩ := Prod.mk.inj <| Except.ok.inj hrevoke
  rw [between, Finset.sdiff_erase_self hvalid,
    Finset.sdiff_eq_empty_iff_subset.mpr <| Finset.erase_subset i V]

-- Both ways to make an index valid.
theorem Invariant.insert (h : Invariant setup rPubKey s) (hi : i ∈ indices setup.maxCredNum)
    (hvalid : i ∉ s.valid)
    (hadd : Issuer.addIndex setup.maxCredNum i s.revReg setup.accessor.accessTail =
      .ok (published, registry)) :
    Invariant setup rPubKey
      { s with
        revReg := registry
        delta := publish s.delta (some published)
        valid := insert i s.valid } := by
  have hpublished := addIndex_between hgen hnew hi hvalid hadd
  rw [Issuer.addIndex_eq hgen hnew hi] at hadd
  obtain ⟨-, rfl⟩ := Prod.mk.inj <| Except.ok.inj hadd
  refine ⟨Finset.insert_subset hi h.subset, ?_, ?_, h.issued⟩
  case refine_1 => rw [Finset.sum_insert hvalid, h.accum, add_comm]
  case refine_2 =>
    rw [h.delta]
    exact publish_eq hpublished

theorem Invariant.erase (h : Invariant setup rPubKey s) (hvalid : i ∈ s.valid)
    (hrevoke : Issuer.revokeCredential s.revReg setup.maxCredNum i setup.accessor.accessTail =
      .ok (published, registry)) :
    Invariant setup rPubKey
      { s with
        revReg := registry
        delta := publish s.delta (some published)
        valid := s.valid.erase i } := by
  have hpublished := revokeCredential_between hgen hnew (h.subset hvalid) hvalid hrevoke
  rw [Issuer.revokeCredential_eq hgen hnew (h.subset hvalid)] at hrevoke
  obtain ⟨-, rfl⟩ := Prod.mk.inj <| Except.ok.inj hrevoke
  refine ⟨(Finset.erase_subset ..).trans h.subset, ?_, ?_, h.issued⟩
  case refine_1 => rw [Finset.sum_erase_eq_sub hvalid, h.accum]
  case refine_2 =>
    rw [h.delta]
    exact publish_eq hpublished

include hkey

theorem invariant_step (h : Invariant setup rPubKey s) (hstep : Step env setup s s') :
    Invariant setup rPubKey s' := by
  cases hstep with
  | issue hi hvalid hsign hcred =>
    obtain ⟨_, hcred', hnewCred⟩ := Issuer.signCredentialWithRevoc_eq_ok hsign
    obtain rfl := Option.some.inj <| hcred.symm.trans hcred'
    obtain ⟨_, rPubKey', _, _, -, hkey', -, -, -, -, rfl, hreg⟩ :=
      Issuer.newNonRevocationCredential_eq_ok hnewCred
    obtain rfl := Option.some.inj <| hkey.symm.trans hkey'
    split_ifs at hreg ⊢ with hdefault
    case pos =>
      obtain ⟨rfl, rfl⟩ := hreg
      exact h.issue hi rfl
    case neg =>
      obtain ⟨_, rfl, hadd⟩ := hreg
      have hvalid := hvalid <| Bool.eq_false_of_not_eq_true hdefault
      exact (h.insert hgen hnew hi hvalid hadd).issue hi rfl
  | revoke hvalid hrevoke => exact h.erase hgen hnew hvalid hrevoke
  | recover hi hvalid hrecover => exact h.insert hgen hnew hi hvalid hrecover

theorem invariant_run (h : Invariant setup rPubKey s)
    (hrun : Relation.ReflTransGen (Step env setup) s s') : Invariant setup rPubKey s' := by
  induction hrun with
  | refl => exact h
  | tail _ hstep hi => exact invariant_step hkey hgen hnew hi hstep

end RegistryState

-- All terms of the witness cancel but the one that it leaves out.
theorem pair_accum_sub_omega {V : HashSet UInt32} (hV : V ⊆ indices L) (g : PointG1 C) :
    C.pair (gamma ^ i.toNat • g) (∑ j ∈ V, accumTail gamma gDash L j) +
        -C.pair g (∑ j ∈ V.erase i, gamma ^ (L.toNat + 1 - j.toNat + i.toNat) • gDash) =
      if i ∈ V then gamma ^ (L.toNat + 1) • C.pair g gDash else 0 := by
  have hterm : ∀ j, C.pair (gamma ^ i.toNat • g) (accumTail gamma gDash L j) =
      gamma ^ (L.toNat + 1 - j.toNat + i.toNat) • C.pair g gDash := by
    intro j
    rw [accumTail, Curve.pair_smul_left, Curve.pair_smul_right, smul_smul, ← pow_add, add_comm]
  simp only [Curve.pair_sum_right, hterm, Curve.pair_smul_right]
  split_ifs with hi
  case pos =>
    obtain ⟨-, hiL⟩ := mem_indices.mp <| hV hi
    rw [Finset.sum_erase_eq_sub hi, Nat.sub_add_cancel (Nat.le_succ_of_le hiL)]
    abel
  case neg => rw [Finset.erase_eq_of_notMem hi, add_neg_cancel]

theorem registry_correct {setup : RegistryState.Setup C} {gen gen' : RevocationTailsGenerator C}
    {revKeyPub : RevocationKeyPublic C} {registry : RevocationRegistry C}
    (hdef : Issuer.newRevocationRegistryDef setup.credPubKey setup.maxCredNum
      setup.issuanceByDefault gamma = .ok (revKeyPub, setup.revKeyPriv, registry, gen))
    (hnew : SimpleTailsAccessor.new gen = .ok (setup.accessor, gen'))
    (hkey : setup.credPubKey.rKey = some rPubKey)
    (hpair : C.pair rPubKey.g rPubKey.gDash ≠ 0) (hgamma : gamma ≠ 0)
    (hrun : Relation.ReflTransGen (RegistryState.Step env setup)
      (.initial registry setup.issuanceByDefault setup.maxCredNum) s) :
    s.revReg.accum =
        ∑ j ∈ s.valid, gamma ^ (setup.maxCredNum.toNat + 1 - j.toNat) • rPubKey.gDash ∧
      ∀ cred ∈ s.issued, ∀ order, ∃ witness,
        Witness.new order cred.i setup.maxCredNum setup.issuanceByDefault s.delta
            setup.accessor.accessTail = .ok witness ∧
          (C.pair cred.witnessSignature.gI s.revReg.accum + -C.pair rPubKey.g witness.omega =
            revKeyPub.z ↔ cred.i ∈ s.valid) := by
  obtain ⟨-, hgen, hpriv, hz, haccum⟩ := Issuer.newRevocationRegistryDef_eq_ok hdef hkey
  subst hpriv
  have hinit : RegistryState.Invariant setup rPubKey
      (.initial registry setup.issuanceByDefault setup.maxCredNum) :=
    ⟨Witness.initialIndices_subset, haccum, RevocationRegistryDelta.between_self.symm,
      fun _ hcred => absurd hcred List.not_mem_nil⟩
  have hinv := RegistryState.invariant_run hkey hgen hnew hinit hrun
  refine ⟨hinv.accum, fun cred hcred order => ?_⟩
  obtain ⟨hi, hgI⟩ := hinv.issued cred hcred
  have hserves := Witness.serves_mono (serves_simple hgen hnew hi) <|
    (Finset.erase_subset cred.i _).trans hinv.subset
  let omega := ∑ j ∈ s.valid.erase cred.i,
    tailValue cred.i setup.maxCredNum setup.accessor.accessTail j
  refine ⟨⟨omega⟩, hinv.delta ▸ (Witness.new_eq_ok_iff hinv.subset).mpr ⟨hserves, rfl⟩, ?_⟩
  have homega : omega =
        ∑ j ∈ s.valid.erase cred.i, setup.revKeyPriv.gamma ^
          (setup.maxCredNum.toNat + 1 - j.toNat + cred.i.toNat) • rPubKey.gDash := by
    refine Finset.sum_congr rfl fun j hj => ?_
    have hj := hinv.subset <| Finset.mem_of_mem_erase hj
    rw [tailValue, witnessTail_simple hgen hnew hi hj]
    rfl
  have hne : setup.revKeyPriv.gamma ^ (setup.maxCredNum.toNat + 1) •
      C.pair rPubKey.g rPubKey.gDash ≠ 0 := smul_ne_zero (pow_ne_zero _ hgamma) hpair
  rw [homega, hgI, hinv.accum, pair_accum_sub_omega hinv.subset, hz]
  split_ifs with hvalid
  · exact iff_of_true rfl hvalid
  · exact iff_of_false hne.symm hvalid

-- The rule that every credential is issued for an index which is not valid, and makes it valid.
inductive RegistryState.LegalStep (env : Env) (setup : Setup C) :
    RegistryState C → RegistryState C → Prop
  | issue : Step env setup s s' → s'.issued = cred :: s.issued → cred.i ∉ s.valid →
      LegalStep env setup s { s' with valid := insert cred.i s'.valid }
  | change : Step env setup s s' → s'.issued = s.issued → LegalStep env setup s s'

section Residues

open ProofVerifier (curveMod11 mod11 rPubKeyMod11)

def setupMod11 : RegistryState.Setup curveMod11 where
  credPubKey := { (Issuer.issuerPubKey curveMod11) with rKey := some rPubKeyMod11 }
  credPrivKey :=
    { (Issuer.issuerPrivKey curveMod11) with rKey := some { x := mod11 4, sk := mod11 3 } }
  maxCredNum := 2
  issuanceByDefault := false
  revKeyPriv := { gamma := mod11 2 }
  accessor := { tails := [mod11 8, mod11 5, mod11 10, mod11 9, mod11 7] }

def generatorMod11 (currentIndex : UInt32) : RevocationTailsGenerator curveMod11 where
  size := 5
  currentIndex := currentIndex
  gDash := mod11 8
  gamma := mod11 2

theorem generator_mod11 : RevocationTailsGenerator.new setupMod11.maxCredNum
    setupMod11.revKeyPriv.gamma rPubKeyMod11.gDash = .ok (generatorMod11 0) :=
  rfl

theorem accessor_mod11 :
    SimpleTailsAccessor.new (generatorMod11 0) = .ok (setupMod11.accessor, generatorMod11 5) :=
  rfl

def leastPrimeDraw : PrimeDraw where
  value := largeEStartValue
  start_le := le_rfl
  lt_end := by decide +kernel

def signDrawsLeast : SignDraws where
  vPrimePrime := .zero
  e := leastPrimeDraw
  r := 0

def blindAge : BlindedCredentialSecrets curveMod11 :=
  { Issuer.blindAttr curveMod11 "age" 1 with ur := some 0 }

def revocationDrawsMod11 : Issuer.NonRevocationDraws curveMod11 where
  vrPrimePrime := mod11 1
  c := mod11 1

-- The first credential of a registry for two.
theorem issue_mod11 (env : Env) (nonce : Nonce) (revReg : RevocationRegistry curveMod11)
    (byDefault : Bool) :
    ∃ signature correctnessProof published registry, Issuer.signCredentialWithRevoc env "prover"
        blindAge (Issuer.blindAttrProof env nonce "age" 1 0) nonce nonce Issuer.ageValues
        setupMod11.credPubKey setupMod11.credPrivKey 1 2 byDefault revReg setupMod11.revKeyPriv
        setupMod11.accessor.accessTail signDrawsLeast revocationDrawsMod11 =
      (.ok (signature, correctnessProof, published), registry) ∧
      ∃ rCred, signature.rCredential = some rCred := by
  have hcan : Issuer.CanSign env "prover" (Issuer.issuerPubKey curveMod11)
      (Issuer.issuerPrivKey curveMod11) Issuer.ageValues signDrawsLeast :=
    Issuer.canSign_age env "prover" (by decide +kernel)
  obtain ⟨hn, hpos, hprimary⟩ := Issuer.canSign_iff.mp hcan
  have hcheck : Issuer.checkBlindedCredentialSecretsCorrectnessProof env
      (Issuer.blindAttr curveMod11 "age" 1) (Issuer.blindAttrProof env nonce "age" 1 0) nonce
      setupMod11.credPubKey.pKey = .ok () :=
    Issuer.check_blindAttr hn (Finmap.lookup_insert _) (.inl rfl) (modExp_zero hn)
  have hcheck : Issuer.checkBlindedCredentialSecretsCorrectnessProof env blindAge
      (Issuer.blindAttrProof env nonce "age" 1 0) nonce setupMod11.credPubKey.pKey = .ok () := hcheck
  have hrctxt : PowUnit 9 (Issuer.genCredentialContext env "prover" (some 1)) 77 := .inr <| by decide
  have hprimary : Issuer.CanSignPrimary setupMod11.credPubKey setupMod11.credPrivKey
      (Issuer.genCredentialContext env "prover" (some 1)) Issuer.ageValues
      (generateVPrimePrime signDrawsLeast.vPrimePrime) signDrawsLeast.e.value :=
    ⟨hprimary.s, hrctxt, hprimary.known, hprimary.order, hprimary.e⟩
  have hcred : ∃ result, Issuer.newNonRevocationCredential 1
      (Issuer.genCredentialContext env "prover" (some 1)) blindAge setupMod11.credPubKey
      setupMod11.credPrivKey 2 byDefault revReg setupMod11.revKeyPriv
      setupMod11.accessor.accessTail revocationDrawsMod11 = .ok result :=
    Issuer.newNonRevocationCredential_ok generator_mod11 accessor_mod11 (by decide) rfl rfl rfl
      (by decide) (by decide)
  obtain ⟨⟨⟨rCred, published⟩, registry⟩, hcred⟩ := hcred
  obtain ⟨signature, correctnessProof, hsign, hr⟩ := Issuer.signCredentialWithRevoc_ok hcheck
    hprimary hpos hcred nonce
  exact ⟨signature, correctnessProof, published, registry, hsign, rCred, hr⟩

theorem registry_correct_mod11 :
    ∃ s : RegistryState curveMod11, s.valid = {1} ∧ s.revReg.accum = mod11 10 ∧
      ∀ cred ∈ s.issued, ∀ order, ∃ witness,
        Witness.new order cred.i 2 false s.delta setupMod11.accessor.accessTail = .ok witness ∧
          (curveMod11.pair cred.witnessSignature.gI s.revReg.accum +
            -curveMod11.pair rPubKeyMod11.g witness.omega = mod11 9 ↔ cred.i ∈ s.valid) := by
  let env : Env := .sorted (fun _ => List.replicate 32 0) fun _ => List.length_replicate
  obtain ⟨signature, correctnessProof, published, registry, hsign, rCred, hr⟩ :=
    issue_mod11 env 5 { accum := 0 } false
  have hdef : Issuer.newRevocationRegistryDef setupMod11.credPubKey 2 false (mod11 2) =
      .ok (⟨mod11 9⟩, setupMod11.revKeyPriv, { accum := 0 }, generatorMod11 0) := rfl
  have hstep : RegistryState.Step env setupMod11 (.initial { accum := 0 } false 2) _ :=
    .issue (by decide) (fun _ => by decide) hsign hr
  obtain ⟨haccum, hissued⟩ := registry_correct hdef accessor_mod11 rfl (by decide) (by decide)
    (.single hstep)
  exact ⟨_, rfl, haccum.trans rfl, hissued⟩

def byDefaultMod11 : RegistryState.Setup curveMod11 :=
  { setupMod11 with issuanceByDefault := true }

-- Both indices are valid from the start. The first is revoked, and a credential is issued for it,
-- which with issuance by default leaves the accumulator.
theorem not_registry_correct : ¬∀ (C : Curve) (env : Env) (setup : RegistryState.Setup C)
    (gen gen' : RevocationTailsGenerator C) (revKeyPub : RevocationKeyPublic C)
    (registry : RevocationRegistry C) (rPubKey : CredentialRevocationPublicKey C)
    (gamma : GroupOrderElement C) (s : RegistryState C),
    Issuer.newRevocationRegistryDef setup.credPubKey setup.maxCredNum setup.issuanceByDefault
        gamma = .ok (revKeyPub, setup.revKeyPriv, registry, gen) →
      SimpleTailsAccessor.new gen = .ok (setup.accessor, gen') →
      setup.credPubKey.rKey = some rPubKey → C.pair rPubKey.g rPubKey.gDash ≠ 0 → gamma ≠ 0 →
      Relation.ReflTransGen (RegistryState.LegalStep env setup)
        (.initial registry setup.issuanceByDefault setup.maxCredNum) s →
      s.revReg.accum =
          ∑ j ∈ s.valid, gamma ^ (setup.maxCredNum.toNat + 1 - j.toNat) • rPubKey.gDash ∧
        ∀ cred ∈ s.issued, ∀ order, ∃ witness,
          Witness.new order cred.i setup.maxCredNum setup.issuanceByDefault s.delta
              setup.accessor.accessTail = .ok witness ∧
            (C.pair cred.witnessSignature.gI s.revReg.accum + -C.pair rPubKey.g witness.omega =
              revKeyPub.z ↔ cred.i ∈ s.valid) := by
  intro h
  let env : Env := .sorted (fun _ => List.replicate 32 0) fun _ => List.length_replicate
  have hdef : Issuer.newRevocationRegistryDef byDefaultMod11.credPubKey 2 true (mod11 2) =
      .ok (⟨mod11 9⟩, byDefaultMod11.revKeyPriv, ⟨mod11 4⟩, generatorMod11 0) := rfl
  have hrevoked : Issuer.revokeCredential ⟨mod11 4⟩ 2 1 byDefaultMod11.accessor.accessTail =
      .ok (⟨some (mod11 4), mod11 5, ∅, {1}⟩, ⟨mod11 5⟩) := rfl
  let revoked : RegistryState curveMod11 :=
    { revReg := ⟨mod11 5⟩
      delta := RegistryState.publish (.fromParts none ⟨mod11 4⟩ ∅ ∅)
        (some ⟨some (mod11 4), mod11 5, ∅, {1}⟩)
      valid := (initialIndices true 2).erase 1
      issued := [] }
  have hrevoke : RegistryState.Step env byDefaultMod11 (.initial ⟨mod11 4⟩ true 2) revoked :=
    .revoke (by decide) hrevoked
  obtain ⟨signature, correctnessProof, published, registry, hsign, cred, hcred⟩ :=
    issue_mod11 env 5 ⟨mod11 5⟩ true
  obtain ⟨cred', hcred', hissued⟩ := Issuer.signCredentialWithRevoc_eq_ok hsign
  obtain rfl := Option.some.inj <| hcred.symm.trans hcred'
  obtain ⟨_, _, _, _, -, -, -, -, -, -, hform, rfl, rfl⟩ :=
    Issuer.newNonRevocationCredential_eq_ok hissued
  have hindex : cred.i = 1 := congrArg (·.i) hform
  have hissue : RegistryState.Step env byDefaultMod11 revoked
      { revoked with
        delta := RegistryState.publish revoked.delta none
        issued := [cred] } :=
    .issue (i := 1) (by decide) (fun hdefault => by cases hdefault) hsign hcred
  have hrun := (Relation.ReflTransGen.single <| RegistryState.LegalStep.change hrevoke rfl).tail <|
    .issue hissue rfl <| by
      rw [hindex]
      decide
  have haccum := (h curveMod11 env byDefaultMod11 _ _ _ _ rPubKeyMod11 _ _ hdef accessor_mod11 rfl
    (by decide) (by decide) hrun).left
  simp only [hindex] at haccum
  revert haccum
  decide

end Residues

end Ursa
