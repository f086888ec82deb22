import Ursa.Cl.Theorems.Completeness.Presentation

namespace Ursa.Issuer

open BigNumber UrsaCryptoResult
open ProofVerifier (curveMod11)

variable {env₀ env env' : Env} {pPubKey : CredentialPrimaryPublicKey}
variable {pPrivKey : CredentialPrimaryPrivateKey} {metadata : CredentialPrimaryPublicKeyMetadata}
variable {credSchema : CredentialSchema} {nonCredSchema : NonCredentialSchema}
variable {keyDraws : PrimaryKeyDraws}

section Draws

variable {p q x : ℤ}

theorem genX_ok (h : 3 < p * q) (draw : ℕ) : ∃ x, genX p q draw = .ok x := by
  have hpos : 0 < p * q - 3 := by omega
  rw [genX, bnRandRange, if_pos hpos]
  exact ⟨_, rfl⟩

theorem genX_eq_ok (h : genX p q draw = .ok x) : 3 < p * q ∧ 2 ≤ x := by
  obtain ⟨r, hr, hx⟩ := bind_eq_ok_iff.mp h
  rw [bnRandRange] at hr
  split_ifs at hr with hpos
  have hnonneg : 0 ≤ r := Except.ok.inj hr ▸ Int.emod_nonneg _ hpos.ne'
  refine ⟨sub_pos.mp hpos, ?_⟩
  rw [← pure_eq_ok_iff.mp hx]
  exact le_add_of_nonneg_left hnonneg

theorem SafePrime.two_le_half (P : SafePrime) : 2 ≤ P.value / 2 :=
  P.safe.two_le

theorem three_lt_order (P Q : SafePrime) : (3 : ℤ) < (P.value / 2 : ℕ) * (Q.value / 2 : ℕ) := by
  have hmul := Nat.mul_le_mul P.two_le_half Q.two_le_half
  rw [← Nat.cast_mul]
  omega

theorem collect_ok (keys : List String) {f : String → UrsaCryptoResult BigNumber}
    (h : ∀ k ∈ keys, ∃ x, f k = .ok x) : ∃ m, collect keys f = .ok m := by
  refine foldlM_ok (fun k hk m => ?_) ∅
  obtain ⟨x, hx⟩ := h k hk
  rw [hx]
  exact ⟨_, rfl⟩

-- Exponents that were drawn with `gen_x` are not negative, so that the powers exist.
theorem collect_power_ok (env : Env) {n : ℤ} (hn : n ≠ 0) (s : BigNumber) {draw : String → ℕ}
    {x : HashMap BigNumber} (hx : collect keys (fun k => genX p q (draw k)) = .ok x) :
    ∃ m, collect (env.hashOrder x.keys) (power s n x) = .ok m := by
  refine collect_ok _ fun k hk => ?_
  rw [env.mem_hashOrder, Finmap.mem_keys] at hk
  obtain ⟨v, hv⟩ := Finmap.mem_iff.mp hk
  obtain ⟨-, hle⟩ := genX_eq_ok <| (collect_eq_ok hx).right k v hv
  rw [power, hv]
  exact modExp_ok_of_nonneg hn <| by omega

end Draws

theorem randomQr_ok {n : ℤ} (hn : 0 < n) (draw : ℕ) :
    ∃ s : ℤ, randomQr n draw = .ok s ∧ s = draw % n * (draw % n) % n := by
  rw [randomQr, bnRandRange, if_pos hn, ok_bind, modulus, if_neg hn.ne']
  exact ⟨_, rfl, rfl⟩

theorem newCredentialPrimaryKeys_ok (env : Env) (hattrs : credSchema.attrs ≠ ∅)
    (nonCredSchema : NonCredentialSchema) (draws : PrimaryKeyDraws) :
    ∃ pPubKey pPrivKey metadata, newCredentialPrimaryKeys env credSchema nonCredSchema draws =
        .ok (pPubKey, pPrivKey, metadata) ∧
      pPubKey.s = draws.s % pPubKey.n * (draws.s % pPubKey.n) % pPubKey.n := by
  have horder := three_lt_order draws.pSafe draws.qSafe
  have hn : (0 : ℤ) < draws.pSafe.value * draws.qSafe.value :=
    mul_pos (Nat.cast_pos.mpr draws.pSafe.prime.pos) (Nat.cast_pos.mpr draws.qSafe.prime.pos)
  obtain ⟨s, hs, hsq⟩ := randomQr_ok hn draws.s
  obtain ⟨xz, hxz⟩ := genX_ok horder draws.xz
  obtain ⟨xr, hxr⟩ := collect_ok
    (BTreeSet.iter nonCredSchema.attrs ++ BTreeSet.iter credSchema.attrs)
    fun name _ => genX_ok horder (draws.xr name)
  obtain ⟨r, hr⟩ := collect_power_ok env hn.ne' s hxr
  obtain ⟨x, hx⟩ := genX_ok horder draws.rctxt
  obtain ⟨z, hz⟩ := modExp_ok_of_nonneg (x := s) hn.ne' <| two_pos.le.trans (genX_eq_ok hxz).right
  obtain ⟨rctxt, hrctxt⟩ :=
    modExp_ok_of_nonneg (x := s) hn.ne' <| two_pos.le.trans (genX_eq_ok hx).right
  rw [newCredentialPrimaryKeys, if_neg hattrs]
  simp only [rshift1_natCast, hs, hxz, hxr, hr, hz, hx, hrctxt, ok_bind]
  exact ⟨_, _, _, rfl, hsq⟩

-- The draws of the exponents leave a group that is large enough, and an exponent for `z` that is
-- not zero.
theorem newCredentialPrimaryKeys_drawn
    (h : newCredentialPrimaryKeys env credSchema nonCredSchema keyDraws =
      .ok (pPubKey, pPrivKey, metadata)) :
    3 < pPrivKey.p * pPrivKey.q ∧ 2 ≤ metadata.xz := by
  simp only [newCredentialPrimaryKeys, ite_error_bind_eq_ok_iff, bind_eq_ok_iff, pure_eq_ok_iff,
    Prod.mk.injEq] at h
  obtain ⟨-, _, -, xz, hxz, _, -, _, -, _, -, _, -, _, -, -, rfl, rfl⟩ := h
  exact genX_eq_ok hxz

theorem lookup_ok {m : HashMap BigNumber} (failure : Failure) (h : a ∈ m.keys) :
    ∃ x, okOrElse (m.lookup a) failure = .ok x := by
  obtain ⟨x, hx⟩ := Finmap.mem_iff.mp <| Finmap.mem_keys.mp h
  exact ⟨x, okOrElse_eq_ok_iff.mpr hx⟩

theorem newCredentialKeyCorrectnessProof_ok (env : Env) (hn : pPubKey.n ≠ 0)
    (horder : 3 < pPrivKey.p * pPrivKey.q) (hxr : pPubKey.r.keys = metadata.xr.keys)
    (draws : KeyProofDraws) : ∃ keyProof,
      newCredentialKeyCorrectnessProof env pPubKey pPrivKey metadata draws = .ok keyProof := by
  obtain ⟨xzTilda, hxz⟩ := genX_ok horder draws.xzTilda
  obtain ⟨xrTilda, hxrTilda⟩ := collect_ok (env.hashOrder pPubKey.r.keys)
    fun key _ => genX_ok horder (draws.xrTilda key)
  obtain ⟨zTilda, hz⟩ :=
    modExp_ok_of_nonneg (x := pPubKey.s) hn <| two_pos.le.trans (genX_eq_ok hxz).right
  obtain ⟨rTilda, hrTilda⟩ := collect_power_ok env hn pPubKey.s hxrTilda
  have hkeys : xrTilda.keys = pPubKey.r.keys := by
    rw [(collect_eq_ok hxrTilda).left]
    ext a
    rw [List.mem_toFinset, env.mem_hashOrder]
  have hkeys' : rTilda.keys = pPubKey.r.keys := by
    rw [(collect_eq_ok hrTilda).left, hkeys]
    ext a
    rw [List.mem_toFinset, env.mem_hashOrder]
  have hattrs : ∀ a ∈ env.hashOrder pPubKey.r.keys, a ∈ pPubKey.r.keys :=
    fun a => (env.mem_hashOrder _ _).mp
  let missing : Failure := .panic "no entry found for key"
  obtain ⟨rTildas, hrTildas⟩ := mapM_ok (l := env.hashOrder pPubKey.r.keys)
    fun a ha => lookup_ok missing (hkeys'.symm ▸ hattrs a ha)
  rw [newCredentialKeyCorrectnessProof]
  simp only [hxz, hxrTilda, hz, hrTilda, Env.map_fst_iter, ok_bind]
  rw [hrTildas, ok_bind]
  generalize getHashAsInt env _ = c
  obtain ⟨xrCap, hxrCap⟩ := mapM_ok (l := env.hashOrder pPubKey.r.keys) (f := fun key => do
    let xrTildaValue ← okOrElse (xrTilda.lookup key) missing
    let xr ← okOrElse (metadata.xr.lookup key) missing
    pure (key, c * xr + xrTildaValue)) fun a ha => by
      obtain ⟨x, hx⟩ := lookup_ok missing (hkeys.symm ▸ hattrs a ha)
      obtain ⟨x', hx'⟩ := lookup_ok missing (hxr ▸ hattrs a ha)
      rw [hx, ok_bind, hx', ok_bind]
      exact ⟨_, rfl⟩
  rw [hxrCap]
  exact ⟨_, rfl⟩

theorem inverse_of_accepted {keyProof : CredentialKeyCorrectnessProof}
    (h : Prover.checkCredentialKeyCorrectnessProof env pPubKey keyProof = .ok ()) :
    Int.gcd pPubKey.z pPubKey.n = 1 := by
  rw [Prover.checkCredentialKeyCorrectnessProof] at h
  split at h
  case h_1 => cases h
  case h_2 =>
    split at h
    case h_1 => cases h
    case h_2 =>
      obtain ⟨zInverse, hinverse, -⟩ := bind_eq_ok_iff.mp h
      exact (inverse_eq_ok hinverse).right.left

theorem gcd_of_accepted {keyProof : CredentialKeyCorrectnessProof}
    (hkeys : newCredentialPrimaryKeys env₀ credSchema nonCredSchema keyDraws =
      .ok (pPubKey, pPrivKey, metadata))
    (h : Prover.checkCredentialKeyCorrectnessProof env pPubKey keyProof = .ok ()) :
    Int.gcd pPubKey.s pPubKey.n = 1 := by
  have hgen := newCredentialPrimaryKeys_eq_ok hkeys
  have hz := ModArith.isUnit_cast_iff.mpr <| inverse_of_accepted h
  have hpos := two_pos.trans_le (newCredentialPrimaryKeys_drawn hkeys).right
  exact ((isUnit_modExp_iff hgen.one_lt_n hgen.z).mp hz).resolve_left hpos.ne'

-- Key generation does not look whether `S` has a factor with `n` in common, and nothing else keeps
-- the proof from being accepted.
theorem keyProof_accepted_iff (hsha : env.sha256 = env'.sha256)
    (hkeys : newCredentialPrimaryKeys env₀ credSchema nonCredSchema keyDraws =
      .ok (pPubKey, pPrivKey, metadata)) (draws : KeyProofDraws) :
    ∃ keyProof, newCredentialKeyCorrectnessProof env pPubKey pPrivKey metadata draws =
        .ok keyProof ∧
      (Prover.checkCredentialKeyCorrectnessProof env' pPubKey keyProof = .ok () ↔
        Int.gcd pPubKey.s pPubKey.n = 1) := by
  have hgen := newCredentialPrimaryKeys_eq_ok hkeys
  have hn := hgen.one_lt_n
  obtain ⟨keyProof, hproof⟩ := newCredentialKeyCorrectnessProof_ok env (ne_zero_of_one_lt hn)
    (newCredentialPrimaryKeys_drawn hkeys).left hgen.xr draws
  refine ⟨keyProof, hproof, gcd_of_accepted hkeys, fun hs => ?_⟩
  obtain ⟨K, hK⟩ := hgen.exists_powerKey hs
  exact checkCredentialKeyCorrectnessProof_ok hsha hK hn hproof

theorem keyProof_accepted_identity :
    let env : Env := .sorted Prover.hashLastByte fun _ => rfl
    ∃ keyProof, newCredentialKeyCorrectnessProof env identityPubKey.pKey
        (issuerPrivKey curveMod11).pKey identityMetadata keyProofDraws77 = .ok keyProof ∧
      Prover.checkCredentialKeyCorrectnessProof (reversed env) identityPubKey.pKey keyProof =
        .ok () := by
  intro env
  have hkeys : newCredentialPrimaryKeys env ⟨{"age", "name"}⟩ ⟨{"link"}⟩ keyDraws77 =
      .ok (identityPubKey.pKey, (issuerPrivKey curveMod11).pKey, identityMetadata) := rfl
  have hsha : env.sha256 = (reversed env).sha256 := rfl
  have hs : Int.gcd identityPubKey.pKey.s identityPubKey.pKey.n = 1 := by decide
  obtain ⟨keyProof, hproof, haccepted⟩ := keyProof_accepted_iff hsha hkeys keyProofDraws77
  exact ⟨keyProof, hproof, haccepted.mpr hs⟩

-- The draw 0 gives `S = 0`.
theorem not_keyProof_accepted : ¬∀ (env₀ env env' : Env) (credSchema : CredentialSchema)
    (nonCredSchema : NonCredentialSchema) (keyDraws : PrimaryKeyDraws)
    (pPubKey : CredentialPrimaryPublicKey) (pPrivKey : CredentialPrimaryPrivateKey)
    (metadata : CredentialPrimaryPublicKeyMetadata) (draws : KeyProofDraws)
    (keyProof : CredentialKeyCorrectnessProof), env.sha256 = env'.sha256 →
    newCredentialPrimaryKeys env₀ credSchema nonCredSchema keyDraws =
      .ok (pPubKey, pPrivKey, metadata) →
    newCredentialKeyCorrectnessProof env pPubKey pPrivKey metadata draws = .ok keyProof →
    Prover.checkCredentialKeyCorrectnessProof env' pPubKey keyProof = .ok () := by
  intro h
  let env : Env := .sorted Prover.hashLastByte fun _ => rfl
  let credSchema : CredentialSchema := ⟨{"age"}⟩
  have hattrs : credSchema.attrs ≠ ∅ := Finset.singleton_ne_empty _
  obtain ⟨pPubKey, pPrivKey, metadata, hkeys, hs⟩ :=
    newCredentialPrimaryKeys_ok env hattrs ⟨∅⟩ { keyDraws77 with s := 0 }
  have hgen := newCredentialPrimaryKeys_eq_ok hkeys
  obtain ⟨keyProof, hproof⟩ := newCredentialKeyCorrectnessProof_ok env
    (ne_zero_of_one_lt hgen.one_lt_n) (newCredentialPrimaryKeys_drawn hkeys).left hgen.xr
    keyProofDraws77
  have hgcd := gcd_of_accepted hkeys <| h env env env _ _ _ _ _ _ _ keyProof rfl hkeys hproof
  rw [hs, Nat.cast_zero, Int.zero_emod, mul_zero, Int.zero_emod, Int.gcd_zero_left] at hgcd
  exact absurd hgcd hgen.one_lt_n.ne'

end Ursa.Issuer
