import Ursa.Cl.Theorems.Revocation.Holders

namespace Ursa

open UrsaCryptoResult

variable {C : Curve} {env : Env}

-- The generator does not leave out the tail for the index `L + 1`.
theorem accessTail_unused {gen gen' : RevocationTailsGenerator C} {simple : SimpleTailsAccessor C}
    (hgen : RevocationTailsGenerator.new L gamma gDash = .ok gen)
    (hnew : SimpleTailsAccessor.new gen = .ok (simple, gen')) (hi : i ∈ indices L) :
    simple.accessTail (L + 1) = .ok (gamma ^ (L.toNat + 1) • gDash) := by
  obtain ⟨hL, _, _, hsimple, htail⟩ := simpleTailsAccessor_eq hgen
  obtain ⟨rfl, -⟩ := Prod.mk.inj <| Except.ok.inj <| hsimple.symm.trans hnew
  obtain ⟨hi₁, hiL⟩ := mem_indices.mp hi
  have hlast : (L + 1).toNat = L.toNat + 1 := by
    rw [UInt32.toNat_add]
    exact Nat.mod_eq_of_lt (show L.toNat + 1 < 2 ^ 32 by omega)
  rw [htail (L + 1) (by omega), hlast]

-- Revocation does not keep a holder from proofs: in every run, one whose index is not valid any
-- more subtracts the unused tail from the witness that the published values give him.
theorem revoked_proves_iff {setup : RegistryState.Setup C} {gen gen' : RevocationTailsGenerator C}
    {revKeyPub : RevocationKeyPublic C} {registry : RevocationRegistry C}
    {rPubKey : CredentialRevocationPublicKey C} {rPrivKey : CredentialRevocationPrivateKey C}
    (hC : C.PrimeOrder)
    (hkeys : Issuer.newCredentialRevocationKeys genG1 genG2 keyDraws = (rPubKey, rPrivKey))
    (hpub : setup.credPubKey.rKey = some rPubKey) (hpriv : setup.credPrivKey.rKey = some rPrivKey)
    (hdef : Issuer.newRevocationRegistryDef setup.credPubKey setup.maxCredNum
      setup.issuanceByDefault gamma = .ok (revKeyPub, setup.revKeyPriv, registry, gen))
    (hnew : SimpleTailsAccessor.new gen = .ok (setup.accessor, gen'))
    (hpair : C.pair rPubKey.g rPubKey.gDash ≠ 0)
    (hrun : Relation.ReflTransGen (RevocationSystem.Step env setup rPubKey revKeyPub)
      (.initial registry setup.issuanceByDefault setup.maxCredNum) s)
    (hholder : holder ∈ s.holders) (hrevoked : holder.rCred.i ∉ s.registry.valid)
    (order : HashOrder UInt32) :
    ∃ known unused, Witness.new order holder.rCred.i setup.maxCredNum setup.issuanceByDefault
        s.registry.delta setup.accessor.accessTail = .ok known ∧
      setup.accessor.accessTail (setup.maxCredNum + 1) = .ok unused ∧
      ∀ witness cHash c, bignumToGroupElement C cHash = .ok c → c ≠ 0 →
        ∀ cListDraws tauListParams,
          let initProof := ProofBuilder.initNonRevocationProof holder.rCred s.registry.revReg rPubKey
            witness cListDraws tauListParams
          ∃ proof tau, ProofBuilder.finalizeNonRevocationProof initProof cHash = .ok proof ∧
            ProofVerifier.verifyNonRevocationProof rPubKey s.registry.revReg revKeyPub cHash
              proof = .ok tau ∧
            (tau = initProof.tauList ↔ witness.omega = known.omega - unused) := by
  obtain ⟨-, hgen, rfl, hz, haccum⟩ := Issuer.newRevocationRegistryDef_eq_ok hdef hpub
  have hinv := RevocationSystem.invariant_of_run hkeys hpub hpriv hgen hnew
    (RevocationSystem.invariant_initial haccum) hrun
  have hkept := hinv.holders holder hholder
  have hserves := Witness.serves_mono (serves_simple hgen hnew hkept.mem) <|
    (Finset.erase_subset holder.rCred.i _).trans hinv.registry.subset
  obtain ⟨known, hknown⟩ : ∃ known, Witness.new order holder.rCred.i setup.maxCredNum
      setup.issuanceByDefault s.registry.delta setup.accessor.accessTail = .ok known := by
    rw [hinv.registry.delta]
    exact ⟨⟨_⟩, (Witness.new_eq_ok_iff hinv.registry.subset).mpr ⟨hserves, rfl⟩⟩
  refine ⟨known, _, hknown, accessTail_unused hgen hnew hkept.mem, ?_⟩
  intro witness cHash c hc hne cListDraws tauListParams initProof
  rw [hinv.registry.delta] at hknown
  obtain ⟨-, homega⟩ := (Witness.new_eq_ok_iff hinv.registry.subset).mp hknown
  obtain ⟨proof, tau, hproof, hverify, hrecovered⟩ := ProofBuilder.recovered_iff
    (hkept.consistent _ _) hc hne cListDraws tauListParams
  refine ⟨proof, tau, hproof, hverify, hrecovered.trans ?_⟩
  exact RevocationSystem.holds_revoked_iff hgen hnew hC hpair hinv.registry.subset hkept.mem
    hrevoked hkept.gI hinv.registry.accum homega hz

section Residues

open ProofVerifier (curveMod11 mod11 rPubKeyMod11)

-- `0 - 9` is `2`.
theorem revoked_proves_iff_mod11 :
    ∃ (s : RevocationSystem curveMod11) (holder : Holder curveMod11),
      holder ∈ s.holders ∧ holder.rCred.i ∉ s.registry.valid ∧
      let initProof := ProofBuilder.initNonRevocationProof holder.rCred s.registry.revReg
        rPubKeyMod11 ⟨mod11 2⟩ cListDrawsMod11 (.fromList [])
      ∃ proof tau, ProofBuilder.finalizeNonRevocationProof initProof 5 = .ok proof ∧
        ProofVerifier.verifyNonRevocationProof rPubKeyMod11 s.registry.revReg ⟨mod11 9⟩ 5 proof =
          .ok tau ∧
        tau = initProof.tauList := by
  let env : Env := .sorted (fun _ => List.replicate 32 0) fun _ => List.length_replicate
  obtain ⟨issued, rCred, hindex, hrun⟩ := revokedSystem_mod11 env
  have hrevoked : rCred.i ∉ (revokedSystemMod11 issued rCred).registry.valid :=
    hindex ▸ Finset.notMem_erase _ _
  have hC : curveMod11.PrimeOrder := Curve.residues_primeOrder ..
  have hpair : curveMod11.pair rPubKeyMod11.g rPubKeyMod11.gDash ≠ 0 := by decide
  obtain ⟨known, unused, hknown, hunused, hproof⟩ := revoked_proves_iff hC keys_mod11 rfl rfl
    definition_mod11 accessor_mod11 hpair hrun (.head _) hrevoked Witness.ascending
  obtain ⟨proof, tau, hfinalize, hverify, hrecovered⟩ :=
    hproof ⟨mod11 2⟩ 5 (mod11 5) rfl (by decide) cListDrawsMod11 (.fromList [])
  refine ⟨_, _, .head _, hrevoked, proof, tau, hfinalize, hverify, hrecovered.mpr ?_⟩
  rw [hindex] at hknown
  obtain rfl := Except.ok.inj hknown
  obtain rfl := Except.ok.inj hunused
  rfl

end Residues
end Ursa
