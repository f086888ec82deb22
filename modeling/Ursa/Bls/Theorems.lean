import Ursa.Bls

namespace Ursa.Bls

open UrsaCryptoResult

variable {C : Curve} {env : BlsEnv C} {gen : Generator C} {message : List UInt8}

-- The point that a message is hashed to.
def hashPoint (env : BlsEnv C) (hasher : Digest) (message : List UInt8) : PointG1 C :=
  env.searchPoint <| hasher.result message

theorem hash_eq {hasher : Digest} :
    hash env message hasher = .ok (hashPoint env hasher message) := by
  have hlen : ¬GroupOrderElement.bytesReprSize < (hasher.result message).length := by
    rw [hasher.length_result]
    exact lt_irrefl _
  rw [hash, BlsEnv.fromHash, GroupOrderElement.fromBytes, if_neg hlen]
  rfl

theorem genSignature_eq {hasher : Digest} {signKey : SignKey C} :
    genSignature env message signKey hasher =
      .ok (signKey.groupOrderElement • hashPoint env hasher message) := by
  rw [genSignature, hash_eq, ok_bind]
  rfl

theorem sign_eq {signKey : SignKey C} : sign env message signKey = .ok
    { point := signKey.groupOrderElement • hashPoint env env.sha256 message
      bytes := C.toBytes₁ (signKey.groupOrderElement • hashPoint env env.sha256 message) } := by
  rw [sign, genSignature_eq, ok_bind]
  rfl

theorem ProofOfPossession.new_eq {verKey : VerKey C} {signKey : SignKey C} :
    ProofOfPossession.new env verKey signKey = .ok
      { point := signKey.groupOrderElement • hashPoint env env.keccak256 verKey.bytes
        bytes := C.toBytes₁ <|
          signKey.groupOrderElement • hashPoint env env.keccak256 verKey.bytes } := by
  rw [ProofOfPossession.new, genSignature_eq, ok_bind]
  rfl

theorem VerKey.new_point {signKey : SignKey C} {verKey : VerKey C}
    (h : VerKey.new gen signKey = .ok verKey) :
    verKey.point = signKey.groupOrderElement • gen.point :=
  congrArg VerKey.point (Except.ok.inj h).symm

-- The two pairings cancel each other for one point only, once no other point is paired with the
-- generator to the same value.
theorem verifySignature_eq (hgen : Function.Injective fun x => C.pair x gen.point)
    {hasher : Digest} {signature : PointG1 C} {k : GroupOrderElement C} :
    verifySignature env message signature (k • gen.point) gen hasher =
      .ok (decide (signature = k • hashPoint env hasher message)) := by
  rw [verifySignature, hash_eq, ok_bind]
  refine congrArg Except.ok <| decide_eq_decide.mpr ?_
  have hneg : C.pair signature (-gen.point) = -C.pair signature gen.point := map_neg ..
  rw [hneg, neg_add_eq_zero, C.pair_smul_right, ← C.pair_smul_left]
  exact hgen.eq_iff

theorem verify_eq (hgen : Function.Injective fun x => C.pair x gen.point) {signKey : SignKey C}
    {verKey : VerKey C} (hkey : verKey.point = signKey.groupOrderElement • gen.point)
    {signature : Signature C} :
    verify env message signature verKey gen = .ok (decide
      (signature.point = signKey.groupOrderElement • hashPoint env env.sha256 message)) := by
  rw [verify, hkey, verifySignature_eq hgen]

theorem verifyProofOfPosession_eq (hgen : Function.Injective fun x => C.pair x gen.point)
    {signKey : SignKey C} {verKey : VerKey C}
    (hkey : verKey.point = signKey.groupOrderElement • gen.point) {pop : ProofOfPossession C} :
    verifyProofOfPosession env pop verKey gen = .ok (decide
      (pop.point = signKey.groupOrderElement • hashPoint env env.keccak256 verKey.bytes)) := by
  rw [verifyProofOfPosession, hkey, verifySignature_eq hgen]

-- What the owner of a key signs is accepted, and so is the proof that the key is its own.
theorem verify_sign (hgen : Function.Injective fun x => C.pair x gen.point)
    {signKey : SignKey C} {verKey : VerKey C} {signature : Signature C}
    (hkey : VerKey.new gen signKey = .ok verKey)
    (hsign : sign env message signKey = .ok signature) :
    verify env message signature verKey gen = .ok true := by
  rw [sign_eq] at hsign
  obtain rfl := Except.ok.inj hsign
  rw [verify_eq hgen <| VerKey.new_point hkey, decide_eq_true rfl]

theorem verifyProofOfPosession_new (hgen : Function.Injective fun x => C.pair x gen.point)
    {signKey : SignKey C} {verKey : VerKey C} {pop : ProofOfPossession C}
    (hkey : VerKey.new gen signKey = .ok verKey)
    (hpop : ProofOfPossession.new env verKey signKey = .ok pop) :
    verifyProofOfPosession env pop verKey gen = .ok true := by
  rw [ProofOfPossession.new_eq] at hpop
  obtain rfl := Except.ok.inj hpop
  rw [verifyProofOfPosession_eq hgen <| VerKey.new_point hkey, decide_eq_true rfl]

section MultiSignature

variable {signKeys : List (SignKey C)} {verKeys : List (VerKey C)}
variable {signatures : List (Signature C)} {multiSig : MultiSignature C}

-- The two loops are the sums of the points.
theorem MultiSignature.new_eq : MultiSignature.new signatures = .ok
    { point := (signatures.map (·.point)).sum
      bytes := C.toBytes₁ (signatures.map (·.point)).sum } := by
  rw [MultiSignature.new, List.sum_eq_foldl, List.foldl_map]

theorem verifyMultiSig_sum : verifyMultiSig env message multiSig verKeys gen =
    verifySignature env message multiSig.point (verKeys.map (·.point)).sum gen env.sha256 := by
  rw [verifyMultiSig, List.sum_eq_foldl, List.foldl_map]

-- The sum of the keys is the key of the sum of the exponents, and likewise for the signatures.
theorem sum_map_smul {M : Type} [AddCommGroup M] [Module (GroupOrderElement C) M] (x : M) :
    (signKeys.map (·.groupOrderElement • x)).sum =
      (signKeys.map (·.groupOrderElement)).sum • x := by
  rw [List.sum_smul, List.map_map]
  rfl

theorem verifyMultiSig_eq (hgen : Function.Injective fun x => C.pair x gen.point)
    (hkeys : verKeys.map (·.point) = signKeys.map (·.groupOrderElement • gen.point)) :
    verifyMultiSig env message multiSig verKeys gen = .ok (decide
      (multiSig.point = (signKeys.map (·.groupOrderElement)).sum •
        hashPoint env env.sha256 message)) := by
  rw [verifyMultiSig_sum, hkeys, sum_map_smul, verifySignature_eq hgen]

theorem point_of_mapM_sign (h : signKeys.mapM (sign env message) = .ok signatures) :
    (signatures.map (·.point)).sum =
      (signKeys.map (·.groupOrderElement)).sum • hashPoint env env.sha256 message := by
  rw [mapM_eq_map fun _ _ => sign_eq] at h
  obtain rfl := Except.ok.inj h
  rw [List.map_map, ← sum_map_smul]
  rfl

theorem points_of_mapM_new (h : signKeys.mapM (VerKey.new gen) = .ok verKeys) :
    verKeys.map (·.point) = signKeys.map (·.groupOrderElement • gen.point) :=
  mapM_map _ _ (fun _ _ _ => VerKey.new_point) h

-- The signers run the module from their keys to the signature of all.
theorem verifyMultiSig_new (hgen : Function.Injective fun x => C.pair x gen.point)
    (hkeys : signKeys.mapM (VerKey.new gen) = .ok verKeys)
    (hsign : signKeys.mapM (sign env message) = .ok signatures)
    (hnew : MultiSignature.new signatures = .ok multiSig) :
    verifyMultiSig env message multiSig verKeys gen = .ok true := by
  rw [MultiSignature.new_eq] at hnew
  obtain rfl := Except.ok.inj hnew
  rw [verifyMultiSig_eq hgen <| points_of_mapM_new hkeys, point_of_mapM_sign hsign,
    decide_eq_true rfl]

theorem MultiSignature.new_perm {signatures' : List (Signature C)}
    (h : signatures.Perm signatures') :
    MultiSignature.new signatures = MultiSignature.new signatures' := by
  rw [MultiSignature.new_eq, MultiSignature.new_eq, (h.map _).sum_eq]

theorem verifyMultiSig_perm {verKeys' : List (VerKey C)} (h : verKeys.Perm verKeys') :
    verifyMultiSig env message multiSig verKeys gen =
      verifyMultiSig env message multiSig verKeys' gen := by
  rw [verifyMultiSig_sum, verifyMultiSig_sum, (h.map _).sum_eq]

theorem verifyMultiSig_exact (hgen : Function.Injective fun x => C.pair x gen.point)
    (hkeys : verKeys.map (·.point) = signKeys.map (·.groupOrderElement • gen.point)) :
    (∀ multiSig : MultiSignature C,
      verifyMultiSig env message multiSig verKeys gen = .ok true ↔
        multiSig.point = (signKeys.map (·.groupOrderElement)).sum •
          hashPoint env env.sha256 message) ∧
    (∃ signatures multiSig, signKeys.mapM (sign env message) = .ok signatures ∧
      MultiSignature.new signatures = .ok multiSig ∧
      verifyMultiSig env message multiSig verKeys gen = .ok true) ∧
    (∀ signatures signatures' : List (Signature C), signatures.Perm signatures' →
      MultiSignature.new signatures = MultiSignature.new signatures') ∧
    ∀ (multiSig : MultiSignature C) verKeys', verKeys.Perm verKeys' →
      verifyMultiSig env message multiSig verKeys gen =
        verifyMultiSig env message multiSig verKeys' gen := by
  refine ⟨fun multiSig => ?_, ?_, fun _ _ => MultiSignature.new_perm,
    fun _ _ => verifyMultiSig_perm⟩
  · rw [verifyMultiSig_eq hgen hkeys, Except.ok.injEq, decide_eq_true_iff]
  · obtain ⟨signatures, hsign⟩ : ∃ signatures, signKeys.mapM (sign env message) = .ok signatures :=
      mapM_ok fun _ _ => ⟨_, sign_eq⟩
    refine ⟨signatures, _, hsign, MultiSignature.new_eq, ?_⟩
    rw [verifyMultiSig_eq hgen hkeys, Except.ok.injEq, decide_eq_true_iff]
    exact point_of_mapM_sign hsign

end MultiSignature

section Sample

def curveMod11 : Curve := .residues 11 Nat.prime_eleven

def mod11 (x : ℕ) : GroupOrderElement curveMod11 :=
  (x : ZMod 11)

def zeroHash (_ : List UInt8) : List UInt8 :=
  List.replicate 32 0

theorem length_zeroHash (bs : List UInt8) : (zeroHash bs).length = 32 :=
  List.length_replicate

def zeroDigest : Digest where
  result := zeroHash
  length_result := length_zeroHash

def envMod11 : BlsEnv curveMod11 where
  sha256 := zeroDigest
  keccak256 := zeroDigest
  searchPoint _ := mod11 4

def genMod11 : Generator curveMod11 where
  point := mod11 5
  bytes := [5]

def signKeyMod11 (x : ℕ) : SignKey curveMod11 where
  groupOrderElement := mod11 x
  bytes := [UInt8.ofNat x]

def verKeyMod11 (x : ℕ) : VerKey curveMod11 where
  point := mod11 x • genMod11.point
  bytes := [UInt8.ofNat x]

theorem pair_genMod11_injective : Function.Injective fun x => curveMod11.pair x genMod11.point := by
  have h : ∀ x y : ZMod 11, x * 5 = y * 5 → x = y := by decide
  exact h

-- The exponents 2, 3 and 3 again, and the message at 4.
theorem verifyMultiSig_sample :
    verifyMultiSig envMod11 [1, 2] ⟨mod11 10, [10]⟩ [verKeyMod11 2, verKeyMod11 3, verKeyMod11 3]
      genMod11 = .ok true := by
  have hkeys : [verKeyMod11 2, verKeyMod11 3, verKeyMod11 3].map (·.point) =
      [signKeyMod11 2, signKeyMod11 3, signKeyMod11 3].map
        (·.groupOrderElement • genMod11.point) := rfl
  exact ((verifyMultiSig_exact pair_genMod11_injective hkeys).1 ⟨mod11 10, [10]⟩).mpr rfl

end Sample

end Ursa.Bls
