import Ursa.Cl.Theorems.Revocation.Presentation

namespace Ursa

open UrsaCryptoResult
open RevocationRegistryDelta (between Chain Grouping)
open Witness (initialIndices newFrom new_eq_ok_iff newFrom_eq_ok_iff update_eq_ok_iff)

variable {C : Curve} {env : Env}

namespace RevocationRegistryDelta

variable {U V W : HashSet UInt32} {d : RevocationRegistryDelta C}

theorem leads_between {p : Option (Accumulator C)} :
    (between p a U V : RevocationRegistryDelta C).changes.Leads U V :=
  SetDelta.leads_iff.mpr changes_between

theorem Chain.unique {ds : List (RevocationRegistryDelta C)} (h : Chain U ds V)
    (h' : Chain U ds W) : V = W := by
  induction h generalizing W
  case single hlead =>
    cases h' with
    | single hlead' => rw [hlead.eq, hlead'.eq]
  case cons hlead _ _ hi =>
    cases h' with
    | cons hlead' _ hchain' =>
      rw [hlead'.eq, ← hlead.eq] at hchain'
      exact hi hchain'

theorem Chain.concat {ds : List (RevocationRegistryDelta C)} (h : Chain U ds V)
    (hlast : ds.getLast? = some d) {a : Accumulator C} :
    Chain U (ds ++ [between (some d.accum) a V W]) W := by
  induction h
  case single hlead =>
    obtain rfl := Option.some.inj hlast
    exact .cons hlead rfl <| .single leads_between
  case cons hlead hlink _ hi =>
    rw [List.getLast?_cons_cons] at hlast
    exact .cons hlead hlink <| hi hlast

end RevocationRegistryDelta

section Recovered

variable {rPubKey : CredentialRevocationPublicKey C} {revKeyPub : RevocationKeyPublic C}
variable {rCred : NonRevocationCredentialSignature C} {revReg : RevocationRegistry C}
variable {witness : Witness C} {c : GroupOrderElement C}

-- The witness and the accumulator fit to each other.
def Holds (rCred : NonRevocationCredentialSignature C) (rPubKey : CredentialRevocationPublicKey C)
    (revKeyPub : RevocationKeyPublic C) (revReg : RevocationRegistry C) (witness : Witness C) :
    Prop :=
  C.pair rCred.gI revReg.accum = C.pair rPubKey.g witness.omega + revKeyPub.z

-- The fourth of the values of the verifier is the one that the accumulator is in.
theorem ProofBuilder.holds_of_expected {params : NonRevocProofXList C}
    (h : (createTauListExpectedValues rPubKey revReg revKeyPub
        (createCListValues rCred params rPubKey witness)).t4 =
      (createTauListValues rPubKey revReg params
        (createCListValues rCred params rPubKey witness)).t4) :
    Holds rCred rPubKey revKeyPub revReg witness := by
  simp only [createTauListExpectedValues, createTauListValues, createCListValues,
    Curve.pair_add_left, Curve.pair_add_right, Curve.pair_smul_left, Curve.pair_smul_right,
    Curve.pair_neg_left] at h
  rw [← sub_eq_zero] at h
  rw [Holds, ← sub_eq_zero, ← h]
  module

-- The values that the verifier computes from the responses.
def NonRevocProofTauList.answer (c : GroupOrderElement C) (expected values : NonRevocProofTauList C) :
    NonRevocProofTauList C where
  t1 := c • expected.t1 + values.t1
  t2 := c • expected.t2 + values.t2
  t3 := c • expected.t3 + values.t3
  t4 := c • expected.t4 + values.t4
  t5 := c • expected.t5 + values.t5
  t6 := c • expected.t6 + values.t6
  t7 := c • expected.t7 + values.t7
  t8 := c • expected.t8 + values.t8

theorem NonRevocProofTauList.answer_inj (hne : c ≠ 0)
    {expected expected' values : NonRevocProofTauList C} :
    answer c expected values = answer c expected' values ↔ expected = expected' := by
  simp only [answer, add_left_inj, smul_right_inj hne, NonRevocProofTauList.ext_iff]

-- Any holder gets a proof out of the builder. The verifier finds the values that the builder
-- started from just when the committed exponents open every expected value.
theorem ProofBuilder.recovered_iff_expected (hc : bignumToGroupElement C cHash = .ok c)
    (hne : c ≠ 0) (draws : CListDraws C) (tauListParams : NonRevocProofXList C) :
    let initProof := initNonRevocationProof rCred revReg rPubKey witness draws tauListParams
    ∃ proof tau, finalizeNonRevocationProof initProof cHash = .ok proof ∧
      ProofVerifier.verifyNonRevocationProof rPubKey revReg revKeyPub cHash proof = .ok tau ∧
      (tau = initProof.tauList ↔
        createTauListExpectedValues rPubKey revReg revKeyPub initProof.cList =
          createTauListValues rPubKey revReg (genCListParams rCred draws) initProof.cList) := by
  intro initProof
  obtain ⟨proof, hproof⟩ : ∃ proof, finalizeNonRevocationProof initProof cHash = .ok proof :=
    ⟨_, by rw [finalizeNonRevocationProof, hc, ok_bind]; rfl⟩
  obtain ⟨tau, htau⟩ : ∃ tau,
      ProofVerifier.verifyNonRevocationProof rPubKey revReg revKeyPub cHash proof = .ok tau :=
    ⟨_, by rw [ProofVerifier.verifyNonRevocationProof, hc, ok_bind]; rfl⟩
  refine ⟨proof, tau, hproof, htau, ?_⟩
  rw [finalizeNonRevocationProof, hc, ok_bind] at hproof
  obtain rfl := Except.ok.inj hproof
  have hstart : initProof.tauList = _ :=
    (createTauListValues_respond (genCListParams rCred draws) tauListParams initProof.cList c).symm
  rw [ProofVerifier.verifyNonRevocationProof_eq_ok htau hc, hstart]
  exact NonRevocProofTauList.answer_inj hne

theorem ProofBuilder.recovered_iff
    (hconsistent : Holds rCred rPubKey revKeyPub revReg witness →
      Consistent rCred rPubKey revKeyPub revReg witness)
    (hc : bignumToGroupElement C cHash = .ok c) (hne : c ≠ 0) (draws : CListDraws C)
    (tauListParams : NonRevocProofXList C) :
    let initProof := initNonRevocationProof rCred revReg rPubKey witness draws tauListParams
    ∃ proof tau, finalizeNonRevocationProof initProof cHash = .ok proof ∧
      ProofVerifier.verifyNonRevocationProof rPubKey revReg revKeyPub cHash proof = .ok tau ∧
      (tau = initProof.tauList ↔ Holds rCred rPubKey revKeyPub revReg witness) := by
  intro initProof
  obtain ⟨proof, tau, hproof, htau, hrecovered⟩ :=
    recovered_iff_expected hc hne draws tauListParams
  refine ⟨proof, tau, hproof, htau, hrecovered.trans ?_⟩
  constructor
  case mp => exact fun hexpected => holds_of_expected <| congrArg (·.t4) hexpected
  case mpr => exact fun hholds => createTauListExpectedValues_honest (hconsistent hholds) draws

end Recovered

-- A holder: his processed signature, his witness, and how many of the published deltas it is made
-- from.
structure Holder (C : Curve) where
  rCred : NonRevocationCredentialSignature C
  witness : Witness C
  seen : ℕ

-- Some of the deltas that he has not seen, merged in any grouping.
def Holder.update (self : Holder C) (order : HashOrder UInt32) (maxCredNum : UInt32)
    (deltas : Grouping C) (accessor : RevocationTailsAccessor C) : UrsaCryptoResult (Holder C) := do
  let delta ← deltas.merged
  let witness ← self.witness.update order self.rCred.i maxCredNum delta accessor
  pure { self with witness, seen := self.seen + deltas.leaves.length }

theorem Holder.of_update {self holder : Holder C} {deltas : Grouping C}
    (h : self.update order L deltas accessor = .ok holder) :
    holder.rCred = self.rCred ∧ holder.seen = self.seen + deltas.leaves.length := by
  simp only [Holder.update, bind_eq_ok_iff, pure_eq_ok_iff] at h
  obtain ⟨_, -, _, -, rfl⟩ := h
  exact ⟨rfl, rfl⟩

-- The issuer, what he has published, and the holders. Every holder reads the deltas at his own
-- pace.
structure RevocationSystem (C : Curve) where
  registry : RegistryState C
  log : List (RevocationRegistryDelta C)
  holders : List (Holder C)

namespace RevocationSystem

open RegistryState (Setup publish)

def initial (revReg : RevocationRegistry C) (issuanceByDefault : Bool) (L : UInt32) :
    RevocationSystem C where
  registry := .initial revReg issuanceByDefault L
  log := [.fromParts none revReg ∅ ∅]
  holders := []

-- The steps of the issuer are those of the registry, and what they publish is appended to the log.
-- A holder makes his first witness from the whole log.
inductive Step (env : Env) (setup : Setup C) (rPubKey : CredentialRevocationPublicKey C)
    (revKeyPub : RevocationKeyPublic C) : RevocationSystem C → RevocationSystem C → Prop
  | issue {i : UInt32} {signature : CredentialSignature C} {t : Grouping C} :
      i ∈ indices setup.maxCredNum →
      (setup.issuanceByDefault = false → i ∉ s.registry.valid) →
      blinded.ur = some (Prover.generateBlindedRevocationCredentialSecrets rPubKey vrPrime).ur →
      Issuer.signCredentialWithRevoc env proverId blinded proof credentialNonce issuanceNonce
        values setup.credPubKey setup.credPrivKey i setup.maxCredNum setup.issuanceByDefault
        s.registry.revReg setup.revKeyPriv setup.accessor.accessTail signDraws draws =
          (.ok (signature, correctnessProof, published), revReg) →
      signature.rCredential = some issued →
      t.leaves = s.log ++ published.toList →
      newFrom order i setup.maxCredNum setup.issuanceByDefault t setup.accessor.accessTail =
        .ok witness →
      Prover.processNonRevocationCredential issued vrPrime rPubKey revKeyPub revReg witness =
        (result, rCred) →
      Step env setup rPubKey revKeyPub s
        { registry :=
            { revReg
              delta := publish s.registry.delta published
              valid := if setup.issuanceByDefault then s.registry.valid
                else insert i s.registry.valid
              issued := issued :: s.registry.issued }
          log := s.log ++ published.toList
          holders := ⟨rCred, witness, (s.log ++ published.toList).length⟩ :: s.holders }
  | revoke {i : UInt32} : i ∈ s.registry.valid →
      Issuer.revokeCredential s.registry.revReg setup.maxCredNum i setup.accessor.accessTail =
        .ok (published, revReg) →
      Step env setup rPubKey revKeyPub s
        { s with
          registry :=
            { s.registry with
              revReg
              delta := publish s.registry.delta (some published)
              valid := s.registry.valid.erase i }
          log := s.log ++ [published] }
  | recover {i : UInt32} : i ∈ indices setup.maxCredNum → i ∉ s.registry.valid →
      Issuer.recoveryCredential s.registry.revReg setup.maxCredNum i setup.accessor.accessTail =
        .ok (published, revReg) →
      Step env setup rPubKey revKeyPub s
        { s with
          registry :=
            { s.registry with
              revReg
              delta := publish s.registry.delta (some published)
              valid := insert i s.registry.valid }
          log := s.log ++ [published] }
  | update {holder : Holder C} {t : Grouping C} : s.holders[k]? = some holder →
      t.leaves <+: s.log.drop holder.seen →
      holder.update order setup.maxCredNum t setup.accessor.accessTail = .ok holder' →
      Step env setup rPubKey revKeyPub s { s with holders := s.holders.set k holder' }

-- What the issuer does is a run of the registry.
theorem Step.registry {setup : Setup C} {rPubKey : CredentialRevocationPublicKey C}
    {revKeyPub : RevocationKeyPublic C} {s s' : RevocationSystem C}
    (h : Step env setup rPubKey revKeyPub s s') :
    Relation.ReflGen (RegistryState.Step env setup) s.registry s'.registry := by
  cases h with
  | issue hi hvalid _ hsign hissued => exact .single <| .issue hi hvalid hsign hissued
  | revoke hvalid hrevoke => exact .single <| .revoke hvalid hrevoke
  | recover hi hvalid hrecover => exact .single <| .recover hi hvalid hrecover
  | update => exact .refl

-- The published deltas lead to the valid set `V` and to its accumulator.
structure Reached (setup : Setup C) (rPubKey : CredentialRevocationPublicKey C)
    (log : List (RevocationRegistryDelta C)) (V : HashSet UInt32) : Prop where
  subset : V ⊆ indices setup.maxCredNum
  chain : Chain (initialIndices setup.issuanceByDefault setup.maxCredNum) log V
  last : log.getLast?.map (·.accum) =
    some (∑ j ∈ V, accumTail setup.revKeyPriv.gamma rPubKey.gDash setup.maxCredNum j)

-- The witness of a holder is the one for what he has seen.
structure Kept (setup : Setup C) (rPubKey : CredentialRevocationPublicKey C)
    (revKeyPub : RevocationKeyPublic C) (log : List (RevocationRegistryDelta C))
    (holder : Holder C) : Prop where
  mem : holder.rCred.i ∈ indices setup.maxCredNum
  gI : holder.rCred.gI = setup.revKeyPriv.gamma ^ holder.rCred.i.toNat • rPubKey.g
  consistent : ∀ revReg witness, Holds holder.rCred rPubKey revKeyPub revReg witness →
    ProofBuilder.Consistent holder.rCred rPubKey revKeyPub revReg witness
  seen : holder.seen ≤ log.length
  witness : ∃ V, Reached setup rPubKey (log.take holder.seen) V ∧
    holder.witness.omega = ∑ j ∈ V.erase holder.rCred.i,
      tailValue holder.rCred.i setup.maxCredNum setup.accessor.accessTail j

structure Invariant (setup : Setup C) (rPubKey : CredentialRevocationPublicKey C)
    (revKeyPub : RevocationKeyPublic C) (s : RevocationSystem C) : Prop where
  registry : RegistryState.Invariant setup rPubKey s.registry
  current : Reached setup rPubKey s.log s.registry.valid
  history : ∀ n, 0 < n → n ≤ s.log.length → ∃ V, Reached setup rPubKey (s.log.take n) V
  holders : ∀ holder ∈ s.holders, Kept setup rPubKey revKeyPub s.log holder

section Invariant

variable {setup : Setup C} {rPubKey : CredentialRevocationPublicKey C}
variable {revKeyPub : RevocationKeyPublic C} {s s' : RevocationSystem C}
variable {registry revReg : RevocationRegistry C}
variable {log ds : List (RevocationRegistryDelta C)} {V W : HashSet UInt32} {holder : Holder C}

theorem invariant_initial (haccum : registry.accum =
      ∑ j ∈ initialIndices setup.issuanceByDefault setup.maxCredNum,
        accumTail setup.revKeyPriv.gamma rPubKey.gDash setup.maxCredNum j) :
    Invariant setup rPubKey revKeyPub
      (.initial registry setup.issuanceByDefault setup.maxCredNum) := by
  have hregistry : RegistryState.Invariant setup rPubKey
      (.initial registry setup.issuanceByDefault setup.maxCredNum) :=
    ⟨Witness.initialIndices_subset, haccum, RevocationRegistryDelta.between_self.symm,
      fun _ hcred => absurd hcred List.not_mem_nil⟩
  have hfirst : Reached setup rPubKey [.fromParts none registry ∅ ∅]
      (initialIndices setup.issuanceByDefault setup.maxCredNum) :=
    ⟨Witness.initialIndices_subset, .single <| SetDelta.leads_iff.mpr SetDelta.between_self.symm,
      congrArg some haccum⟩
  refine ⟨hregistry, hfirst,
    fun n hn _ => ⟨initialIndices setup.issuanceByDefault setup.maxCredNum, ?_⟩,
    fun _ hmem => absurd hmem List.not_mem_nil⟩
  rw [initial, List.take_of_length_le hn]
  exact hfirst

theorem Reached.ne_nil (h : Reached setup rPubKey log V) : log ≠ [] := by
  rintro rfl
  cases h.chain

theorem Reached.append (h : Reached setup rPubKey log V) {revReg registry : RevocationRegistry C}
    (haccum : revReg.accum =
      ∑ j ∈ V, accumTail setup.revKeyPriv.gamma rPubKey.gDash setup.maxCredNum j)
    (haccum' : registry.accum =
      ∑ j ∈ W, accumTail setup.revKeyPriv.gamma rPubKey.gDash setup.maxCredNum j)
    (hW : W ⊆ indices setup.maxCredNum)
    (hd : d = between (some revReg.accum) registry.accum V W) :
    Reached setup rPubKey (log ++ [d]) W := by
  obtain ⟨e, he, haccum_e⟩ := Option.map_eq_some_iff.mp h.last
  have hchain := h.chain.concat (W := W) he (a := registry.accum)
  rw [haccum_e, ← haccum, ← hd] at hchain
  refine ⟨hW, hchain, ?_⟩
  rw [List.getLast?_append, List.getLast?_singleton, Option.some_or, Option.map_some, hd, ← haccum']
  rfl

theorem Kept.append (h : Kept setup rPubKey revKeyPub log holder) :
    Kept setup rPubKey revKeyPub (log ++ ds) holder where
  mem := h.mem
  gI := h.gI
  consistent := h.consistent
  seen := h.seen.trans <| List.length_append ▸ Nat.le_add_right ..
  witness := by
    rw [List.take_append_of_le_length h.seen]
    exact h.witness

-- A delta is published.
theorem Invariant.publish (h : Invariant setup rPubKey revKeyPub s)
    {registry : RegistryState C}
    (hregistry : RegistryState.Invariant setup rPubKey registry)
    (hd : d = between (some s.registry.revReg.accum) registry.revReg.accum s.registry.valid
      registry.valid) :
    Invariant setup rPubKey revKeyPub { s with registry, log := s.log ++ [d] } := by
  have hcurrent : Reached setup rPubKey (s.log ++ [d]) registry.valid :=
    h.current.append h.registry.accum hregistry.accum hregistry.subset hd
  refine ⟨hregistry, hcurrent, fun n hn hle => ?_, fun holder hholder => ?_⟩
  · by_cases hlen : n ≤ s.log.length
    case pos =>
      rw [List.take_append_of_le_length hlen]
      exact h.history n hn hlen
    case neg =>
      rw [List.length_append, List.length_singleton] at hle
      rw [List.take_of_length_le (by simp; omega)]
      exact ⟨_, hcurrent⟩
  · exact (h.holders holder hholder).append

-- A holder reads some of the log.
theorem Kept.update (h : Kept setup rPubKey revKeyPub log holder)
    (hhistory : ∀ n, 0 < n → n ≤ log.length → ∃ V, Reached setup rPubKey (log.take n) V)
    {t : Grouping C} (ht : t.leaves <+: log.drop holder.seen)
    (hserves : Serves holder.rCred.i setup.maxCredNum setup.accessor.accessTail
      (indices setup.maxCredNum)) (order : HashOrder UInt32) :
    ∃ holder', holder.update order setup.maxCredNum t setup.accessor.accessTail = .ok holder' ∧
      Kept setup rPubKey revKeyPub log holder' := by
  obtain ⟨V, hV, homega⟩ := h.witness
  obtain ⟨rest, hrest⟩ := ht
  have hlog : log.take holder.seen ++ (t.leaves ++ rest) = log := by
    rw [hrest, List.take_append_drop]
  have hpos := List.length_pos_iff.mpr t.leaves_ne_nil
  have hlength : (log.drop holder.seen).length = t.leaves.length + rest.length := by
    rw [← hrest, List.length_append]
  rw [List.length_drop] at hlength
  have htake : log.take (holder.seen + t.leaves.length) = log.take holder.seen ++ t.leaves := by
    rw [List.take_add, ← hrest, List.take_left]
  obtain ⟨W, hW⟩ := hhistory (holder.seen + t.leaves.length) (by omega) (by omega)
  have hchain := hW.chain
  rw [htake] at hchain
  obtain ⟨V', hV', hleaves, -⟩ := RevocationRegistryDelta.chain_append hV.ne_nil t.leaves_ne_nil hchain
  obtain rfl := hV'.unique hV.chain
  have hsub {S T : HashSet UInt32} (hS : S ⊆ indices setup.maxCredNum) :
      Serves holder.rCred.i setup.maxCredNum setup.accessor.accessTail
        ((S \ T).erase holder.rCred.i) :=
    Witness.serves_mono hserves <| (Finset.erase_subset ..).trans <| Finset.sdiff_subset.trans hS
  obtain ⟨witness, hwitness⟩ : ∃ witness, holder.witness.update order holder.rCred.i
      setup.maxCredNum (between _ _ V' W) setup.accessor.accessTail = .ok witness :=
    ⟨⟨_⟩, update_eq_ok_iff.mpr ⟨hsub hV.subset, hsub hW.subset, rfl⟩⟩
  refine ⟨{ holder with witness, seen := holder.seen + t.leaves.length }, ?_, h.mem, h.gI,
    h.consistent, by simp only; omega, W, hW, ?_⟩
  · rw [Holder.update, Grouping.merged_eq hleaves, ok_bind, hwitness]
    rfl
  · obtain ⟨-, -, homega'⟩ := update_eq_ok_iff.mp hwitness
    rw [homega', homega, add_sub_cancel]

variable {gen gen' : RevocationTailsGenerator C} {rPrivKey : CredentialRevocationPrivateKey C}
variable {keyDraws : Issuer.RevocationKeyDraws C} {genG1 : PointG1 C} {genG2 : PointG2 C}
variable (hkeys : Issuer.newCredentialRevocationKeys genG1 genG2 keyDraws = (rPubKey, rPrivKey))
variable (hpub : setup.credPubKey.rKey = some rPubKey)
variable (hpriv : setup.credPrivKey.rKey = some rPrivKey)
variable (hgen : RevocationTailsGenerator.new setup.maxCredNum setup.revKeyPriv.gamma
  rPubKey.gDash = .ok gen)
variable (hnew : SimpleTailsAccessor.new gen = .ok (setup.accessor, gen'))

-- With issuance by default nothing is published for a new credential.
include hgen hnew in
theorem Invariant.issue (h : Invariant setup rPubKey revKeyPub s)
    {published : Option (RevocationRegistryDelta C)}
    (hregistry : RegistryState.Invariant setup rPubKey
      { revReg := revReg', delta
        valid := if setup.issuanceByDefault then s.registry.valid else insert i s.registry.valid
        issued })
    (hi : i ∈ indices setup.maxCredNum)
    (hvalid : setup.issuanceByDefault = false → i ∉ s.registry.valid)
    (hpublished : if setup.issuanceByDefault then published = none ∧ revReg' = s.registry.revReg
      else ∃ delta, published = some delta ∧ Issuer.addIndex setup.maxCredNum i s.registry.revReg
        setup.accessor.accessTail = .ok (delta, revReg')) :
    Invariant setup rPubKey revKeyPub
      { s with
        registry :=
          { revReg := revReg', delta
            valid := if setup.issuanceByDefault then s.registry.valid
              else insert i s.registry.valid
            issued }
        log := s.log ++ published.toList } := by
  split_ifs at hpublished hregistry ⊢ with hdefault
  case pos =>
    obtain ⟨rfl, rfl⟩ := hpublished
    rw [Option.toList_none, List.append_nil]
    exact ⟨hregistry, h.current, h.history, h.holders⟩
  case neg =>
    obtain ⟨published, rfl, hadd⟩ := hpublished
    have hvalid := hvalid <| Bool.eq_false_of_not_eq_true hdefault
    exact h.publish hregistry <| RegistryState.addIndex_between hgen hnew hi hvalid hadd

include hkeys hpub hpriv

-- The holder of a new credential.
theorem kept_of_issued {blinded : BlindedCredentialSecrets C} {t : Grouping C}
    {published : Option (RevocationRegistryDelta C)} (hi : i ∈ indices setup.maxCredNum)
    (hblinded : blinded.ur =
      some (Prover.generateBlindedRevocationCredentialSecrets rPubKey vrPrime).ur)
    (hissued : Issuer.newNonRevocationCredential i ctx blinded setup.credPubKey setup.credPrivKey
      setup.maxCredNum setup.issuanceByDefault revReg setup.revKeyPriv accessor draws =
        .ok ((issued, published), revReg'))
    (hprocessed : Prover.processNonRevocationCredential issued vrPrime rPubKey revKeyPub revReg'
      witness = (result, rCred))
    (hlog : Reached setup rPubKey t.leaves V)
    (hwitness : newFrom order i setup.maxCredNum setup.issuanceByDefault t
      setup.accessor.accessTail = .ok witness) :
    Kept setup rPubKey revKeyPub t.leaves ⟨rCred, witness, t.leaves.length⟩ := by
  obtain ⟨_, rPubKey', _, _, -, hpub', -, -, -, -, hform, -⟩ :=
    Issuer.newNonRevocationCredential_eq_ok hissued
  obtain rfl := Option.some.inj <| hpub.symm.trans hpub'
  have hrCred := (Prod.mk.inj hprocessed).right
  have hindex : rCred.i = i := by rw [← hrCred, hform]; rfl
  have homega := ((newFrom_eq_ok_iff hlog.chain hlog.subset).mp hwitness).right
  refine ⟨hindex ▸ hi, ?_, fun revReg witness hholds => ?_, le_rfl, V, ?_, ?_⟩
  · rw [hindex, ← hrCred, hform]
    rfl
  · exact consistent_of_issued hkeys hpub hpriv hblinded hissued hprocessed hholds
  · rwa [List.take_length]
  · rw [hindex]
    exact homega

include hgen hnew

theorem invariant_step (h : Invariant setup rPubKey revKeyPub s)
    (hstep : Step env setup rPubKey revKeyPub s s') :
    Invariant setup rPubKey revKeyPub s' := by
  have hregistry : RegistryState.Invariant setup rPubKey s'.registry := by
    obtain hsame | hregistry := (Relation.reflGen_iff ..).mp hstep.registry
    · exact hsame ▸ h.registry
    · exact RegistryState.invariant_step hpub hgen hnew h.registry hregistry
  cases hstep with
  | revoke hvalid hrevoke =>
    exact h.publish hregistry <|
      RegistryState.revokeCredential_between hgen hnew (h.registry.subset hvalid) hvalid hrevoke
  | recover hi hvalid hrecover =>
    exact h.publish hregistry <|
      RegistryState.addIndex_between hgen hnew hi hvalid hrecover
  | update hholder hleaves hupdate =>
    obtain ⟨hi, hiL⟩ := List.getElem?_eq_some_iff.mp hholder
    have hkept := h.holders _ <| hiL ▸ List.getElem_mem hi
    obtain ⟨holder', hupdate', hkept'⟩ := hkept.update h.history hleaves
      (serves_simple hgen hnew hkept.mem) _
    obtain rfl := Except.ok.inj <| hupdate.symm.trans hupdate'
    refine ⟨h.registry, h.current, h.history, fun holder hmem => ?_⟩
    obtain hmem | rfl := List.mem_or_eq_of_mem_set hmem
    · exact h.holders holder hmem
    · exact hkept'
  | issue hi hvalid hblinded hsign hsigned hleaves hwitness hprocessed =>
    obtain ⟨_, hsigned', hissued⟩ := Issuer.signCredentialWithRevoc_eq_ok hsign
    obtain rfl := Option.some.inj <| hsigned.symm.trans hsigned'
    obtain ⟨_, _, _, _, -, -, -, -, -, -, -, hpublished⟩ :=
      Issuer.newNonRevocationCredential_eq_ok hissued
    have hsystem := h.issue hgen hnew hregistry hi hvalid hpublished
    have hkept := kept_of_issued hkeys hpub hpriv hi hblinded hissued hprocessed
      (hleaves ▸ hsystem.current) hwitness
    rw [hleaves] at hkept
    refine ⟨hregistry, hsystem.current, hsystem.history, List.forall_mem_cons.mpr ⟨?_, ?_⟩⟩
    · exact hkept
    · exact hsystem.holders

theorem invariant_of_run (h : Invariant setup rPubKey revKeyPub s)
    (hrun : Relation.ReflTransGen (Step env setup rPubKey revKeyPub) s s') :
    Invariant setup rPubKey revKeyPub s' := by
  induction hrun with
  | refl => exact h
  | tail _ hstep hi => exact invariant_step hkeys hpub hpriv hgen hnew hi hstep

omit hkeys hpub hpriv

-- All but the term of the own index is in the witness.
theorem pair_accum_eq {omega : PointG2 C} (hV : V ⊆ indices setup.maxCredNum)
    (hi : holder.rCred.i ∈ indices setup.maxCredNum)
    (hgI : holder.rCred.gI = setup.revKeyPriv.gamma ^ holder.rCred.i.toNat • rPubKey.g)
    (haccum : revReg.accum =
      ∑ j ∈ V, accumTail setup.revKeyPriv.gamma rPubKey.gDash setup.maxCredNum j)
    (homega : omega = ∑ j ∈ V.erase holder.rCred.i,
      tailValue holder.rCred.i setup.maxCredNum setup.accessor.accessTail j) :
    C.pair holder.rCred.gI revReg.accum = C.pair rPubKey.g omega +
      if holder.rCred.i ∈ V then
        setup.revKeyPriv.gamma ^ (setup.maxCredNum.toNat + 1) • C.pair rPubKey.g rPubKey.gDash
      else 0 := by
  have homega' : omega = ∑ j ∈ V.erase holder.rCred.i, setup.revKeyPriv.gamma ^
      (setup.maxCredNum.toNat + 1 - j.toNat + holder.rCred.i.toNat) • rPubKey.gDash := by
    refine homega.trans <| Finset.sum_congr rfl fun j hj => ?_
    rw [tailValue, witnessTail_simple hgen hnew hi (hV <| Finset.mem_of_mem_erase hj)]
    rfl
  rw [← sub_eq_iff_eq_add', sub_eq_add_neg, hgI, haccum, homega', pair_accum_sub_omega hV]

-- A witness holds for the accumulator that it is made for, if its own index is in there.
theorem Reached.holds_iff (hV : V ⊆ indices setup.maxCredNum)
    (hi : holder.rCred.i ∈ indices setup.maxCredNum)
    (hgI : holder.rCred.gI = setup.revKeyPriv.gamma ^ holder.rCred.i.toNat • rPubKey.g)
    (haccum : revReg.accum =
      ∑ j ∈ V, accumTail setup.revKeyPriv.gamma rPubKey.gDash setup.maxCredNum j)
    (homega : holder.witness.omega = ∑ j ∈ V.erase holder.rCred.i,
      tailValue holder.rCred.i setup.maxCredNum setup.accessor.accessTail j)
    (hz : revKeyPub.z = setup.revKeyPriv.gamma ^ (setup.maxCredNum.toNat + 1) •
      C.pair rPubKey.g rPubKey.gDash)
    (hne : revKeyPub.z ≠ 0) :
    Holds holder.rCred rPubKey revKeyPub revReg holder.witness ↔ holder.rCred.i ∈ V := by
  rw [Holds, pair_accum_eq hgen hnew hV hi hgI haccum homega, ← hz, add_right_inj]
  split_ifs with hvalid
  · exact iff_of_true rfl hvalid
  · exact iff_of_false hne.symm hvalid

-- Whoever is not in the accumulator needs a witness with the tail at `L + 1` left out.
theorem holds_revoked_iff (hC : C.PrimeOrder) (hpair : C.pair rPubKey.g rPubKey.gDash ≠ 0)
    {omega : PointG2 C} {witness : Witness C} (hV : V ⊆ indices setup.maxCredNum)
    (hi : holder.rCred.i ∈ indices setup.maxCredNum) (hrevoked : holder.rCred.i ∉ V)
    (hgI : holder.rCred.gI = setup.revKeyPriv.gamma ^ holder.rCred.i.toNat • rPubKey.g)
    (haccum : revReg.accum =
      ∑ j ∈ V, accumTail setup.revKeyPriv.gamma rPubKey.gDash setup.maxCredNum j)
    (homega : omega = ∑ j ∈ V.erase holder.rCred.i,
      tailValue holder.rCred.i setup.maxCredNum setup.accessor.accessTail j)
    (hz : revKeyPub.z = setup.revKeyPriv.gamma ^ (setup.maxCredNum.toNat + 1) •
      C.pair rPubKey.g rPubKey.gDash) :
    Holds holder.rCred rPubKey revKeyPub revReg witness ↔ witness.omega =
      omega - setup.revKeyPriv.gamma ^ (setup.maxCredNum.toNat + 1) • rPubKey.gDash := by
  have hg : rPubKey.g ≠ 0 := by
    intro hg
    rw [hg, Curve.pair_zero_left] at hpair
    exact hpair rfl
  rw [Holds, pair_accum_eq hgen hnew hV hi hgI haccum homega, if_neg hrevoked, add_zero, hz,
    ← Curve.pair_smul_right, ← Curve.pair_add_right, (hC.pair_injective_right hg).eq_iff,
    eq_sub_iff_add_eq, eq_comm]

end Invariant
end RevocationSystem

-- Issuance, revocation and recovery in any order, and holders who read what is published whenever
-- they like: what a holder has seen decides for which registry his proof is one, and he can always
-- read on.
theorem holders_prove {setup : RegistryState.Setup C} {gen gen' : RevocationTailsGenerator C}
    {revKeyPub : RevocationKeyPublic C} {registry : RevocationRegistry C}
    {rPubKey : CredentialRevocationPublicKey C} {rPrivKey : CredentialRevocationPrivateKey C}
    (hkeys : Issuer.newCredentialRevocationKeys genG1 genG2 keyDraws = (rPubKey, rPrivKey))
    (hpub : setup.credPubKey.rKey = some rPubKey) (hpriv : setup.credPrivKey.rKey = some rPrivKey)
    (hdef : Issuer.newRevocationRegistryDef setup.credPubKey setup.maxCredNum
      setup.issuanceByDefault gamma = .ok (revKeyPub, setup.revKeyPriv, registry, gen))
    (hnew : SimpleTailsAccessor.new gen = .ok (setup.accessor, gen'))
    (hpair : C.pair rPubKey.g rPubKey.gDash ≠ 0) (hgamma : gamma ≠ 0)
    (hrun : Relation.ReflTransGen (RevocationSystem.Step env setup rPubKey revKeyPub)
      (.initial registry setup.issuanceByDefault setup.maxCredNum) s)
    (hholder : holder ∈ s.holders) :
    (∀ order (t : Grouping C), t.leaves <+: s.log.drop holder.seen →
      ∃ holder', holder.update order setup.maxCredNum t setup.accessor.accessTail = .ok holder') ∧
    ∃ V accum, Chain (initialIndices setup.issuanceByDefault setup.maxCredNum)
        (s.log.take holder.seen) V ∧
      (s.log.take holder.seen).getLast?.map (·.accum) = some accum ∧
      (holder.seen = s.log.length → V = s.registry.valid ∧ accum = s.registry.revReg.accum) ∧
      ∀ cHash c, bignumToGroupElement C cHash = .ok c → c ≠ 0 →
        ∀ cListDraws tauListParams,
          let initProof := ProofBuilder.initNonRevocationProof holder.rCred ⟨accum⟩ rPubKey
            holder.witness cListDraws tauListParams
          ∃ proof tau, ProofBuilder.finalizeNonRevocationProof initProof cHash = .ok proof ∧
            ProofVerifier.verifyNonRevocationProof rPubKey ⟨accum⟩ revKeyPub cHash proof =
              .ok tau ∧
            (tau = initProof.tauList ↔ holder.rCred.i ∈ V) := by
  obtain ⟨-, hgen, rfl, hz, haccum⟩ := Issuer.newRevocationRegistryDef_eq_ok hdef hpub
  have hinv := RevocationSystem.invariant_of_run hkeys hpub hpriv hgen hnew
    (RevocationSystem.invariant_initial haccum) hrun
  have hkept := hinv.holders holder hholder
  obtain ⟨V, hV, homega⟩ := hkept.witness
  refine ⟨fun order t ht => ?_, V, _, hV.chain, hV.last, fun hseen => ?_, ?_⟩
  · obtain ⟨holder', hupdate, -⟩ :=
      hkept.update hinv.history ht (serves_simple hgen hnew hkept.mem) order
    exact ⟨holder', hupdate⟩
  · have hsame := hV.chain
    rw [hseen, List.take_length] at hsame
    obtain rfl := hsame.unique hinv.current.chain
    exact ⟨rfl, hinv.registry.accum.symm⟩
  · intro cHash c hc hne cListDraws tauListParams initProof
    obtain ⟨proof, tau, hproof, hverify, hrecovered⟩ := ProofBuilder.recovered_iff
      (hkept.consistent _ _) hc hne cListDraws tauListParams
    refine ⟨proof, tau, hproof, hverify, hrecovered.trans ?_⟩
    refine RevocationSystem.Reached.holds_iff hgen hnew hV.subset hkept.mem hkept.gI rfl homega hz ?_
    rw [hz]
    exact smul_ne_zero (pow_ne_zero _ hgamma) hpair

section Residues

open ProofVerifier (curveMod11 mod11 rPubKeyMod11)

-- A credential for the index 1 is issued and revoked.
def revokedSystemMod11 (issued rCred : NonRevocationCredentialSignature curveMod11) :
    RevocationSystem curveMod11 :=
  let first : RevocationRegistryDelta curveMod11 := .fromParts none { accum := 0 } ∅ ∅
  let issuance : RevocationRegistryDelta curveMod11 := ⟨some (mod11 0), mod11 10, {1}, ∅⟩
  let revocation : RevocationRegistryDelta curveMod11 := ⟨some (mod11 10), mod11 0, ∅, {1}⟩
  let delta := RegistryState.publish first (some issuance)
  { registry := ⟨⟨mod11 0⟩, RegistryState.publish delta (some revocation),
      (insert 1 ∅ : Finset _).erase 1, [issued]⟩
    log := [first, issuance, revocation]
    holders := [⟨rCred, ⟨mod11 0⟩, 2⟩] }

theorem revokedSystem_mod11 (env : Env) : ∃ issued rCred, rCred.i = 1 ∧
    Relation.ReflTransGen (RevocationSystem.Step env setupMod11 rPubKeyMod11 ⟨mod11 9⟩)
      (.initial { accum := 0 } false 2) (revokedSystemMod11 issued rCred) := by
  let first : RevocationRegistryDelta curveMod11 := .fromParts none { accum := 0 } ∅ ∅
  let issuance : RevocationRegistryDelta curveMod11 := ⟨some (mod11 0), mod11 10, {1}, ∅⟩
  let revocation : RevocationRegistryDelta curveMod11 := ⟨some (mod11 10), mod11 0, ∅, {1}⟩
  obtain ⟨signature, correctnessProof, published, revReg, hsign, issued, hsigned⟩ :=
    issue_mod11 env 5 { accum := 0 } false
  obtain ⟨_, hsigned', hissued⟩ := Issuer.signCredentialWithRevoc_eq_ok hsign
  obtain rfl := Option.some.inj <| hsigned.symm.trans hsigned'
  obtain ⟨_, _, _, _, -, -, -, -, -, -, hform, delta, rfl, hadd⟩ :=
    Issuer.newNonRevocationCredential_eq_ok hissued
  have hadded : Issuer.addIndex 2 1 { accum := 0 } setupMod11.accessor.accessTail =
      .ok (issuance, ⟨mod11 10⟩) := rfl
  obtain ⟨rfl, rfl⟩ := Prod.mk.inj <| Except.ok.inj <| hadd.symm.trans hadded
  obtain ⟨result, rCred, hprocessed⟩ : ∃ result rCred, Prover.processNonRevocationCredential issued
      0 rPubKeyMod11 ⟨mod11 9⟩ ⟨mod11 10⟩ ⟨mod11 0⟩ = (result, rCred) := ⟨_, _, rfl⟩
  have hindex : rCred.i = 1 := by
    rw [← (Prod.mk.inj hprocessed).right, hform]
    rfl
  let afterIssuance : RevocationSystem curveMod11 :=
    { registry := ⟨⟨mod11 10⟩, RegistryState.publish first (some issuance), insert 1 ∅, [issued]⟩
      log := [first, issuance]
      holders := [⟨rCred, ⟨mod11 0⟩, 2⟩] }
  have hissue : RevocationSystem.Step env setupMod11 rPubKeyMod11 ⟨mod11 9⟩
      (.initial { accum := 0 } false 2) afterIssuance :=
    .issue (t := .merge (.delta first) (.delta issuance)) (by decide) (fun _ => by decide) rfl hsign
      hsigned rfl (rfl : newFrom Witness.ascending 1 2 false _ setupMod11.accessor.accessTail =
        .ok ⟨mod11 0⟩) hprocessed
  have hrevoke : RevocationSystem.Step env setupMod11 rPubKeyMod11 ⟨mod11 9⟩ afterIssuance
      (revokedSystemMod11 issued rCred) :=
    .revoke (Finset.mem_insert_self 1 ∅) (rfl : Issuer.revokeCredential ⟨mod11 10⟩ 2 1
      setupMod11.accessor.accessTail = .ok (revocation, ⟨mod11 0⟩))
  exact ⟨issued, rCred, hindex, (Relation.ReflTransGen.single hissue).tail hrevoke⟩

theorem definition_mod11 : Issuer.newRevocationRegistryDef setupMod11.credPubKey 2 false (mod11 2) =
    .ok (⟨mod11 9⟩, setupMod11.revKeyPriv, { accum := 0 }, generatorMod11 0) := rfl

theorem keys_mod11 : Issuer.newCredentialRevocationKeys (mod11 1) (mod11 1) keyDrawsMod11 =
    (rPubKeyMod11, { x := mod11 4, sk := mod11 3 }) := rfl

-- The holder reads on.
theorem holders_prove_mod11 :
    ∃ (s : RevocationSystem curveMod11) (holder : Holder curveMod11) (proof : NonRevocProof curveMod11)
      (tau : NonRevocProofTauList curveMod11), holder ∈ s.holders ∧ holder.rCred.i = 1 ∧
      holder.seen = s.log.length ∧
      let initProof := ProofBuilder.initNonRevocationProof holder.rCred s.registry.revReg
        rPubKeyMod11 holder.witness cListDrawsMod11 (.fromList [])
      ProofBuilder.finalizeNonRevocationProof initProof 5 = .ok proof ∧
        ProofVerifier.verifyNonRevocationProof rPubKeyMod11 s.registry.revReg ⟨mod11 9⟩ 5 proof =
          .ok tau ∧
        tau ≠ initProof.tauList := by
  let env : Env := .sorted (fun _ => List.replicate 32 0) fun _ => List.length_replicate
  have hpair : curveMod11.pair rPubKeyMod11.g rPubKeyMod11.gDash ≠ 0 := by decide
  have hgamma : mod11 2 ≠ 0 := by decide
  obtain ⟨issued, rCred, hindex, hrun⟩ := revokedSystem_mod11 env
  obtain ⟨hread, -⟩ := holders_prove keys_mod11 rfl rfl definition_mod11 accessor_mod11 hpair hgamma
    hrun (.head _)
  obtain ⟨holder, hupdate⟩ := hread Witness.ascending
    (.delta ⟨some (mod11 10), mod11 0, ∅, {1}⟩) (List.prefix_refl _)
  obtain ⟨hrCred, hcount⟩ := Holder.of_update hupdate
  have hrun := hrun.tail <| .update (k := 0) rfl (List.prefix_refl _) hupdate
  obtain ⟨-, V, accum, -, -, hseen, hproof⟩ := holders_prove keys_mod11 rfl rfl definition_mod11
    accessor_mod11 hpair hgamma hrun (.head _)
  obtain ⟨rfl, rfl⟩ := hseen hcount
  obtain ⟨proof, tau, hfinalize, hverify, hrecovered⟩ :=
    hproof 5 (mod11 5) rfl (by decide) cListDrawsMod11 (.fromList [])
  have hcurrent : holder.rCred.i = 1 := (congrArg (·.i) hrCred).trans hindex
  refine ⟨{ revokedSystemMod11 issued rCred with holders := [holder] }, holder, proof, tau, .head _,
    hcurrent, hcount, hfinalize, hverify, fun heq => ?_⟩
  have hvalid := hrecovered.mp heq
  rw [hcurrent] at hvalid
  exact Finset.notMem_erase _ _ hvalid

end Residues
end Ursa
