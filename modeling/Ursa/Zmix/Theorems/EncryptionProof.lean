import Ursa.Zmix.Theorems.Encryption

namespace Ursa

open BigNumber UrsaCryptoResult ModArith
open Issuer (bnRandRange)

namespace VerifiableEncryption

variable {env : Env} {keypair : CSKeypair} {numMessages : ℕ} {n r rTilde rHat challenge : ℤ}
variable {group : PaillierGroup} {pubKey : CSEncPubkey} {messages blindings : List BigNumber}

-- The powers that the proof takes of the bases, in three equations: the exponents are those of the
-- ciphertext, of the response and of the commitment.
theorem exponent_eq (hr : 0 ≤ r) (hc : 0 ≤ challenge) (hTilde : 0 ≤ rTilde)
    (hHat : rHat = rTilde - r * challenge) :
    ((r.toNat * (2 * challenge).toNat : ℕ) : ℤ) + 2 * rHat = ((2 * rTilde).toNat : ℕ) := by
  rw [Nat.cast_mul, Int.toNat_of_nonneg hr, Int.toNat_of_nonneg (by omega),
    Int.toNat_of_nonneg (by omega), hHat]
  ring

theorem computeEntry_eq_ok (h : computeEntry messages r pubKey i = .ok e) :
    ∃ y1 m y hM, index pubKey.y1 i = .ok y1 ∧ index messages i = .ok m ∧
      modExp y1 r pubKey.paillierGroup.modulus = .ok y ∧
      modExp pubKey.paillierGroup.h m pubKey.paillierGroup.modulus = .ok hM ∧
      modMul y hM pubKey.paillierGroup.modulus = .ok e := by
  simp only [computeEntry, bind_eq_ok_iff] at h
  obtain ⟨y1, hy1, y, hy, m, hm, hM, hhM, he⟩ := h
  exact ⟨y1, m, y, hM, hy1, hm, hy, hhM, he⟩

section Entry

variable {h : (Residues pubKey.paillierGroup)ˣ} {ciphertext : CSCiphertext}
variable {responses : List BigNumber} {i : ℕ} {e t y1 m b : BigNumber}

-- The verifier's component is the commitment: what the response is short of, the ciphertext has.
theorem reconstructEntry_eq (hM : 1 < pubKey.paillierGroup.modulus.natAbs)
    (hh : (pubKey.paillierGroup.h : Residues pubKey.paillierGroup) = h)
    (hr : 0 ≤ r) (hc : 0 ≤ challenge) (hTilde : 0 ≤ rTilde)
    (hHat : rHat = rTilde - r * challenge)
    (he : computeEntry messages r pubKey i = .ok e) (hindex : index ciphertext.e i = .ok e)
    (ht : computeEntry (blindings.map lshift1) (2 * rTilde) pubKey i = .ok t)
    (hm : index messages i = .ok m) (hb : index (blindings.map lshift1) i = .ok (2 * b : ℤ))
    (hresponse : index responses i = .ok (b - challenge * m : ℤ))
    (hy1 : index pubKey.y1 i = .ok y1)
    (hdefined : PowDefined y1 (2 * rHat) pubKey.paillierGroup.modulus) :
    reconstructEntry ciphertext responses (2 * rHat) (2 * challenge) pubKey i = .ok t := by
  have hM₀ := ne_zero_of_one_lt hM
  obtain ⟨y1', m', y, hMsg, hy1', hm', hy, hhM, he⟩ := computeEntry_eq_ok he
  obtain rfl := Except.ok.inj <| hy1.symm.trans hy1'
  obtain rfl := Except.ok.inj <| hm.symm.trans hm'
  obtain ⟨y1'', b', yT, hBlind, hy1'', hb', hyT, hhB, ht⟩ := computeEntry_eq_ok ht
  obtain rfl := Except.ok.inj <| hy1.symm.trans hy1''
  obtain rfl := Except.ok.inj <| hb.symm.trans hb'
  obtain ⟨eC, heC⟩ := modExp_ok_of_nonneg (x := e) (e := 2 * challenge) hM₀ (by omega)
  obtain ⟨yHat, hyHat⟩ := modExp_ok_iff.mpr ⟨hM₀, hdefined⟩
  obtain ⟨hHatM, hhHat, -, hcastHat⟩ := computes_modExp hM hh (2 * (b - challenge * m))
  obtain ⟨product, hproduct⟩ := modMul_ok hM₀ eC yHat
  obtain ⟨t', ht'⟩ := modMul_ok hM₀ product hHatM
  have heq : t' = t := by
    refine canonical_unique (modMul_canonical ht') (modMul_canonical ht) ?_
    have hbase := pow_mul_modExp hyHat <| exponent_eq hr hc hTilde hHat
    have hmessage : ((h ^ m) ^ (2 * challenge).toNat * h ^ (2 * (b - challenge * m)) :
        (Residues pubKey.paillierGroup)ˣ) = h ^ (2 * b) := by
      rw [← zpow_natCast, ← zpow_mul, ← zpow_add, Int.toNat_of_nonneg (by omega)]
      congr 1
      ring
    calc (t' : Residues pubKey.paillierGroup)
        = ((y1 : Residues pubKey.paillierGroup) ^ r.toNat * ↑(h ^ m)) ^ (2 * challenge).toNat *
            yHat * ↑(h ^ (2 * (b - challenge * m))) := by
          rw [modMul_cast ht', modMul_cast hproduct, hcastHat, modExp_pow heC (by omega),
            modMul_cast he, modExp_pow hy hr, modExp_unit hhM hh]
      _ = (y1 : Residues pubKey.paillierGroup) ^ (r.toNat * (2 * challenge).toNat) * yHat *
            ↑((h ^ m) ^ (2 * challenge).toNat * h ^ (2 * (b - challenge * m))) := by
          rw [mul_pow, pow_mul, Units.val_mul, Units.val_pow_eq_pow_val _ (Int.toNat _)]
          ring
      _ = t := by
          rw [hbase, hmessage, modMul_cast ht, modExp_pow hyT (by omega), modExp_unit hhB hh]
  simp only [reconstructEntry, hindex, ok_bind, PaillierGroup.exponentiate, heC, hy1, hyHat,
    hresponse, PaillierGroup.exponentiateH, lshift1, hhHat, hproduct, ht', heq]

end Entry

section Check

variable {hs : ℤ}

-- `y2 * y3 ^ hash`
def checkBase (hs : BigNumber) (pubKey : CSEncPubkey) : UrsaCryptoResult BigNumber := do
  let y3Hs ← pubKey.paillierGroup.exponentiate pubKey.y3 hs
  pubKey.y2.modMul y3Hs pubKey.paillierGroup.modulus

theorem computeV_eq (r hs : ℤ) (pubKey : CSEncPubkey) :
    computeV r hs pubKey false =
      checkBase hs pubKey >>= fun w => pubKey.paillierGroup.exponentiate w r := by
  simp only [computeV, checkBase, Bool.false_eq_true, if_false, bind_ok_right, bind_assoc]

-- An even power does not see the sign that `abs` takes away.
theorem pow_abs (hM : 0 < group.modulus) (h : group.abs a = .ok v) (hc : 0 ≤ challenge) :
    (v : Residues group) ^ (2 * challenge).toNat = (a : Residues group) ^ (2 * challenge).toNat := by
  have heven : (2 * challenge).toNat = 2 * challenge.toNat := by omega
  obtain ⟨-, hcast | hcast⟩ := abs_eq_ok hM h
  · rw [hcast]
  · rw [hcast, heven, pow_mul, neg_sq, ← pow_mul]

theorem reconstructV_eq (hM : 1 < pubKey.paillierGroup.modulus.natAbs)
    (hpos : 0 < pubKey.paillierGroup.modulus) (hr : 0 ≤ r) (hc : 0 ≤ challenge)
    (hTilde : 0 ≤ rTilde) (hHat : rHat = rTilde - r * challenge)
    (hv : computeV r hs pubKey true = .ok v) (ht : computeV (2 * rTilde) hs pubKey false = .ok t)
    (hw : checkBase hs pubKey = .ok w)
    (hdefined : PowDefined w (2 * rHat) pubKey.paillierGroup.modulus) :
    ∃ vC wHat, modExp v (2 * challenge) pubKey.paillierGroup.modulus = .ok vC ∧
      modExp w (2 * rHat) pubKey.paillierGroup.modulus = .ok wHat ∧
      modMul vC wHat pubKey.paillierGroup.modulus = .ok t := by
  have hM₀ := ne_zero_of_one_lt hM
  simp only [computeV_abs, computeV_eq, hw, ok_bind, bind_eq_ok_iff] at hv ht
  obtain ⟨a, ha, habs⟩ := hv
  obtain ⟨vC, hvC⟩ := modExp_ok_of_nonneg (x := v) (e := 2 * challenge) hM₀ (by omega)
  obtain ⟨wHat, hwHat⟩ := modExp_ok_iff.mpr ⟨hM₀, hdefined⟩
  obtain ⟨t', ht'⟩ := modMul_ok hM₀ vC wHat
  refine ⟨vC, wHat, hvC, hwHat, ?_⟩
  rw [ht']
  congr 1
  refine canonical_unique (modMul_canonical ht') (modExp_canonical ht) ?_
  have hbase := pow_mul_modExp hwHat <| exponent_eq hr hc hTilde hHat
  rw [modMul_cast ht', modExp_pow hvC (by omega), pow_abs hpos habs hc, modExp_pow ha hr,
    ← pow_mul, hbase, modExp_pow ht (by omega)]

end Check

section Proof

variable {ciphertext t : CSCiphertext} {label : List UInt8} {draws : CSKeyDraws}

theorem randForEnc_eq_ok (h : group.randForEnc draw = .ok r) : 0 ≤ r ∧ r < group.nBy4 := by
  unfold PaillierGroup.randForEnc bnRandRange at h
  split_ifs at h with hpos
  obtain rfl := Except.ok.inj h
  exact ⟨Int.emod_nonneg _ hpos.ne', Int.emod_lt_of_pos _ hpos⟩

-- The product of the second phase is smaller than the modulus, so that it is not reduced.
theorem product_lt (hn : 1 < n) (hr : 0 ≤ r) (hlt : r < rshift n 2) (hc : 0 ≤ challenge)
    (hlt' : challenge < n) : 0 ≤ r * challenge ∧ r * challenge < n * n := by
  have hquarter : rshift n 2 = n / 4 := Int.tdiv_eq_ediv_of_nonneg (by omega)
  have hrn : r < n := by
    rw [hquarter] at hlt
    omega
  exact ⟨mul_nonneg hr hc, mul_lt_mul'' hrn hlt' hr hc⟩

theorem phase2_eq_ok (hmodulus : pubKey.paillierGroup.modulus = n * n)
    (hproduct : 0 ≤ r * challenge ∧ r * challenge < n * n)
    (h : encryptAndProvePhase2 r rTilde challenge pubKey = .ok rHat) :
    rHat = rTilde - r * challenge := by
  simp only [encryptAndProvePhase2, modMul, hmodulus, bind_eq_ok_iff, pure_eq_ok_iff,
    Int.emod_eq_of_lt hproduct.1 hproduct.2] at h
  obtain ⟨product, h, rfl⟩ := h
  split_ifs at h
  rw [Except.ok.inj h]

structure Phase1 (env : Env) (messages blindings : List BigNumber) (label : List UInt8)
    (pubKey : CSEncPubkey) (ciphertext t : CSCiphertext) (r rTilde : BigNumber) : Prop where
  length : messages.length = blindings.length
  length_le : messages.length ≤ pubKey.y1.length
  u : computeU r pubKey = .ok ciphertext.u
  e : computeE messages r pubKey = .ok ciphertext.e
  v : computeV r (hash env ciphertext.u ciphertext.e label) pubKey true = .ok ciphertext.v
  tU : computeU rTilde.lshift1 pubKey = .ok t.u
  tE : computeE (blindings.map lshift1) rTilde.lshift1 pubKey = .ok t.e
  tV : computeV rTilde.lshift1 (hash env ciphertext.u ciphertext.e label) pubKey false = .ok t.v

theorem phase1_eq_ok (h : encryptAndProvePhase1 env messages blindings label pubKey draw drawTilde =
    .ok (ciphertext, t, r, rTilde)) :
    pubKey.paillierGroup.randForEnc draw = .ok r ∧
      pubKey.paillierGroup.randForEnc drawTilde = .ok rTilde ∧
      Phase1 env messages blindings label pubKey ciphertext t r rTilde := by
  simp only [encryptAndProvePhase1, encryptUsingRandomValue, ciphertextTValues,
    ite_error_bind_eq_ok_iff, bind_eq_ok_iff, pure_eq_ok_iff, Prod.mk.injEq] at h
  obtain ⟨hlen, hle, _, hr, _, hTilde, _, ⟨u, hu, e, he, v, hv, rfl⟩, _,
    ⟨tu, htu, te, hte, tv, htv, rfl⟩, rfl, rfl, rfl, rfl⟩ := h
  exact ⟨hr, hTilde, not_not.mp hlen, not_lt.mp hle, hu, he, hv, htu, hte, htv⟩

-- The exponents that can get negative are those of the bases in the keys.
structure BasesDefined (pubKey : CSEncPubkey) (hs exponent : BigNumber) : Prop where
  g : PowDefined pubKey.paillierGroup.g exponent pubKey.paillierGroup.modulus
  y1 : ∀ y1 ∈ pubKey.y1, PowDefined y1 exponent pubKey.paillierGroup.modulus
  w : ∀ w, checkBase hs pubKey = .ok w → PowDefined w exponent pubKey.paillierGroup.modulus

def responses (messages blindings : List BigNumber) (challenge : BigNumber) : List BigNumber :=
  List.zipWith (fun m b => b - challenge * m) messages blindings

theorem length_responses (h : messages.length = blindings.length) :
    (responses messages blindings challenge).length = messages.length := by
  rw [responses, List.length_zipWith, ← h, Nat.min_self]

theorem reconstructE_eq {h : (Residues pubKey.paillierGroup)ˣ}
    (hM : 1 < pubKey.paillierGroup.modulus.natAbs)
    (hh : (pubKey.paillierGroup.h : Residues pubKey.paillierGroup) = h) (hr : 0 ≤ r)
    (hc : 0 ≤ challenge) (hTilde : 0 ≤ rTilde) (hHat : rHat = rTilde - r * challenge)
    (hphase : Phase1 env messages blindings label pubKey ciphertext t r rTilde)
    (hdefined : ∀ y1 ∈ pubKey.y1, PowDefined y1 (2 * rHat) pubKey.paillierGroup.modulus) :
    (List.range (responses messages blindings challenge).length).mapM
      (reconstructEntry ciphertext (responses messages blindings challenge) (2 * rHat)
        (2 * challenge) pubKey) = .ok t.e := by
  have hTE := mapM_eq_ok_iff.mp hphase.tE
  rw [List.length_map, ← hphase.length] at hTE
  rw [length_responses hphase.length, mapM_eq_ok_iff]
  refine (List.forall₂_iff_get.mpr ⟨hTE.length_eq, fun i hi hi' => ?_⟩)
  have hi₀ : i < messages.length := by simpa using hi
  have hy : i < pubKey.y1.length := hi₀.trans_le hphase.length_le
  have hb : i < blindings.length := hphase.length ▸ hi₀
  have ht := hTE.get hi hi'
  simp only [List.get_eq_getElem, List.getElem_range] at ht ⊢
  obtain ⟨e, hindex, he⟩ := getElem?_of_mapM_range hphase.e hi₀
  refine reconstructEntry_eq hM hh hr hc hTilde hHat he (index_eq_ok_iff.mpr hindex) ht
    (index_getD hi₀) (b := blindings.getD i 0) ?_ ?_ (index_getD hy) ?_
  case refine_1 =>
    rw [index, List.getElem?_map, List.getElem?_eq_getElem hb, List.getD_eq_getElem _ _ hb]
    rfl
  case refine_2 =>
    rw [index, responses, List.getElem?_zipWith, List.getElem?_eq_getElem hi₀,
      List.getElem?_eq_getElem hb, List.getD_eq_getElem _ _ hb, List.getD_eq_getElem _ _ hi₀]
    rfl
  case refine_3 =>
    rw [List.getD_eq_getElem _ _ hy]
    exact hdefined _ <| List.getElem_mem hy

theorem reconstruct_eq {h : (Residues pubKey.paillierGroup)ˣ}
    (hM : 1 < pubKey.paillierGroup.modulus.natAbs) (hpos : 0 < pubKey.paillierGroup.modulus)
    (hh : (pubKey.paillierGroup.h : Residues pubKey.paillierGroup) = h) (hr : 0 ≤ r)
    (hc : 0 ≤ challenge) (hTilde : 0 ≤ rTilde) (hHat : rHat = rTilde - r * challenge)
    (hphase : Phase1 env messages blindings label pubKey ciphertext t r rTilde)
    (hdefined : BasesDefined pubKey (hash env ciphertext.u ciphertext.e label) (2 * rHat)) :
    reconstructBlindingsCiphertext env ciphertext (responses messages blindings challenge) rHat
      challenge label pubKey = .ok t := by
  have hM₀ := ne_zero_of_one_lt hM
  obtain ⟨uC, huC⟩ := modExp_ok_of_nonneg (x := ciphertext.u) (e := 2 * challenge) hM₀ (by omega)
  obtain ⟨gHat, hgHat⟩ := modExp_ok_iff.mpr ⟨hM₀, hdefined.g⟩
  obtain ⟨u', hu'⟩ := modMul_ok hM₀ uC gHat
  have hu : u' = t.u := by
    refine canonical_unique (modMul_canonical hu') (modExp_canonical hphase.tU) ?_
    have hbase := pow_mul_modExp hgHat <| exponent_eq hr hc hTilde hHat
    rw [modMul_cast hu', modExp_pow huC (by omega), modExp_pow hphase.u hr, ← pow_mul, hbase,
      modExp_pow hphase.tU (by unfold lshift1; omega)]
    rfl
  have hv := hphase.v
  obtain ⟨w, hw⟩ : ∃ w, checkBase (hash env ciphertext.u ciphertext.e label) pubKey = .ok w := by
    rw [computeV_abs, computeV_eq, bind_eq_ok_iff] at hv
    obtain ⟨_, hv, -⟩ := hv
    rw [bind_eq_ok_iff] at hv
    exact hv.imp fun _ => And.left
  obtain ⟨vC, wHat, hvC, hwHat, ht⟩ := reconstructV_eq hM hpos hr hc hTilde hHat hv hphase.tV hw
    (hdefined.w w hw)
  have he := reconstructE_eq hM hh hr hc hTilde hHat hphase hdefined.y1
  have hnot : ¬pubKey.y1.length < (responses messages blindings challenge).length := by
    rw [length_responses hphase.length]
    exact not_lt.mpr hphase.length_le
  simp only [checkBase, bind_eq_ok_iff] at hw
  obtain ⟨y3Hs, hy3Hs, hw⟩ := hw
  simp only [PaillierGroup.exponentiate] at hy3Hs
  simp only [reconstructBlindingsCiphertext, if_neg hnot, PaillierGroup.exponentiateG,
    PaillierGroup.exponentiate, lshift1]
  rw [huC, ok_bind, hgHat, ok_bind, hu', ok_bind, he, ok_bind, hvC, ok_bind, hy3Hs, ok_bind, hw,
    ok_bind, hwHat, ok_bind, ht, ok_bind, hu]
  rfl

theorem basesDefined_of_nonneg (h : 0 ≤ k) (hs : BigNumber) : BasesDefined pubKey hs k :=
  ⟨.inl h, fun _ _ => .inl h, fun _ _ => .inl h⟩

-- All bases are powers of `g`.
theorem basesDefined_of_gcd (hgen : keypair.Generated n numMessages) (hn : 1 < n)
    (hg : Int.gcd keypair.pubKey.paillierGroup.g n = 1) (hs k : BigNumber) :
    BasesDefined keypair.pubKey hs k := by
  obtain ⟨T⟩ := exists_trapdoor hgen.modulus hgen.h hn hg
  have hM := one_lt_modulus T.modulus hn
  have hdefined {x : ℤ} {w : (Residues keypair.pubKey.paillierGroup)ˣ}
      (h : (x : Residues keypair.pubKey.paillierGroup) = w) :
      PowDefined x k keypair.pubKey.paillierGroup.modulus :=
    .inr ⟨hM, isUnit_cast_iff.mp <| h ▸ w.isUnit⟩
  refine ⟨hdefined T.g_eq, fun y1 hy1 => ?_, fun w hw => ?_⟩
  case refine_1 =>
    obtain ⟨i, hi, rfl⟩ := List.getElem_of_mem hy1
    have hi' : i < numMessages := by rwa [← hgen.length, hgen.y1.length_eq]
    obtain ⟨-, -, hpower⟩ := y1_eq hgen hi'
    rw [List.getD_eq_getElem _ _ hi] at hpower
    exact hdefined <| modExp_unit hpower T.g_eq
  case refine_2 =>
    simp only [checkBase, bind_eq_ok_iff] at hw
    obtain ⟨y3Hs, hy3Hs, hw⟩ := hw
    have hcast := modMul_cast hw
    rw [modExp_unit hgen.y2 T.g_eq, modExp_unit hy3Hs (modExp_unit hgen.y3 T.g_eq),
      ← Units.val_mul] at hcast
    exact hdefined hcast

-- The proof of a ciphertext is accepted unless the response is negative where `g` has no inverse.
theorem reconstruct_iff (env : Env) (hn : 1 < n)
    (hkeypair : CSKeypair.ofModulus n numMessages draws = .ok keypair)
    (hc : 0 ≤ challenge ∧ challenge < n)
    (hphase1 : encryptAndProvePhase1 env messages blindings label keypair.pubKey draw drawTilde =
      .ok (ciphertext, t, r, rTilde))
    (hphase2 : encryptAndProvePhase2 r rTilde challenge keypair.pubKey = .ok rHat) :
    reconstructBlindingsCiphertext env ciphertext (responses messages blindings challenge) rHat
        challenge label keypair.pubKey = .ok t ↔
      Int.gcd keypair.pubKey.paillierGroup.g n = 1 ∨ r * challenge ≤ rTilde := by
  have hgen := CSKeypair.ofModulus_eq_ok hkeypair
  obtain ⟨hr, hTilde, hphase⟩ := phase1_eq_ok hphase1
  obtain ⟨hr, hlt⟩ := randForEnc_eq_ok hr
  obtain ⟨hTilde, -⟩ := randForEnc_eq_ok hTilde
  have hproduct := product_lt hn hr (hgen.nBy4 ▸ hlt) hc.1 hc.2
  have hHat := phase2_eq_ok hgen.modulus hproduct hphase2
  have hM := one_lt_modulus hgen.modulus hn
  have hpos : (0 : ℤ) < keypair.pubKey.paillierGroup.modulus := by
    rw [hgen.modulus]
    positivity
  obtain ⟨h, hh, -⟩ := exists_h hgen.modulus hgen.h hn
  constructor
  case mp =>
    intro hok
    simp only [reconstructBlindingsCiphertext, ite_error_bind_eq_ok_iff, bind_eq_ok_iff] at hok
    obtain ⟨-, _, -, gHat, hgHat, -⟩ := hok
    obtain ⟨-, hnonneg | ⟨-, hgcd⟩⟩ := modExp_ok_iff.mp ⟨gHat, hgHat⟩
    case inl =>
      refine .inr ?_
      unfold lshift1 at hnonneg
      omega
    case inr =>
      rw [hgen.modulus, ← Int.isCoprime_iff_gcd_eq_one] at hgcd
      exact .inl <| Int.isCoprime_iff_gcd_eq_one.mp hgcd.of_mul_right_left
  case mpr =>
    rintro (hg | hle)
    · exact reconstruct_eq hM hpos hh hr hc.1 hTilde hHat hphase <|
        basesDefined_of_gcd hgen hn hg _ _
    · have hnonneg : 0 ≤ 2 * rHat := by omega
      exact reconstruct_eq hM hpos hh hr hc.1 hTilde hHat hphase <|
        basesDefined_of_nonneg hnonneg _

def keypair35 (gPrime : ℕ) : UrsaCryptoResult CSKeypair :=
  CSKeypair.new 1 ⟨5, Nat.prime_five, Nat.prime_two⟩ ⟨7, Nat.prime_seven, Nat.prime_three⟩
    { gPrime, x1 := fun _ => 2, x2 := 3, x3 := 4 }

-- All that a prover and a verifier do, with a label of no bytes.
def prove (env : Env) (keypair : UrsaCryptoResult CSKeypair) (message blinding challenge : BigNumber)
    (draw drawTilde : ℕ) :
    UrsaCryptoResult (CSKeypair × (CSCiphertext × CSCiphertext × BigNumber × BigNumber) ×
      BigNumber) := do
  let keypair ← keypair
  let phase1 ←
    encryptAndProvePhase1 env [message] [blinding] [] keypair.pubKey draw drawTilde
  let rHat ← encryptAndProvePhase2 phase1.2.2.1 phase1.2.2.2 challenge keypair.pubKey
  pure (keypair, phase1, rHat)

theorem prove_eq_ok (h : prove env (keypair35 gPrime) message blinding challenge draw drawTilde =
    .ok (keypair, (ciphertext, t, r, rTilde), rHat)) :
    keypair35 gPrime = .ok keypair ∧
      CSKeypair.ofModulus 35 1 { gPrime, x1 := fun _ => 2, x2 := 3, x3 := 4 } = .ok keypair ∧
      encryptAndProvePhase1 env [message] [blinding] [] keypair.pubKey draw drawTilde =
        .ok (ciphertext, t, r, rTilde) ∧
      encryptAndProvePhase2 r rTilde challenge keypair.pubKey = .ok rHat := by
  simp only [prove, bind_eq_ok_iff, pure_eq_ok_iff, Prod.mk.injEq] at h
  obtain ⟨_, hkeypair, _, hphase1, _, hphase2, rfl, rfl, rfl⟩ := h
  exact ⟨hkeypair, hkeypair, hphase1, hphase2⟩

theorem exists_of_isOk {x : UrsaCryptoResult α} (h : x.isOk = true) : ∃ a, x = .ok a := by
  cases x with
  | error e => cases h
  | ok a => exact ⟨a, rfl⟩

-- The response is negative here.
theorem reconstruct_thirtyFive :
    let env : Env := .sorted (fun _ => List.replicate 32 1) fun _ => List.length_replicate
    ∃ keypair ciphertext t r rTilde rHat,
      prove env (keypair35 2) 4 9 5 7 0 = .ok (keypair, (ciphertext, t, r, rTilde), rHat) ∧
        reconstructBlindingsCiphertext env ciphertext (responses [4] [9] 5) rHat 5 []
          keypair.pubKey = .ok t := by
  intro env
  obtain ⟨⟨keypair, ⟨ciphertext, t, r, rTilde⟩, rHat⟩, hprove⟩ :
      ∃ x, prove env (keypair35 2) 4 9 5 7 0 = .ok x := exists_of_isOk (by decide +kernel)
  obtain ⟨-, hkeypair, hphase1, hphase2⟩ := prove_eq_ok hprove
  have hg : (keypair35 2).map (·.pubKey.paillierGroup.g) = .ok 324 := by decide +kernel
  rw [show keypair35 2 = .ok keypair from hkeypair] at hg
  have hg : keypair.pubKey.paillierGroup.g = 324 := Except.ok.inj hg
  refine ⟨keypair, ciphertext, t, r, rTilde, rHat, hprove, ?_⟩
  refine (reconstruct_iff env (by decide) hkeypair (by decide) hphase1 hphase2).mpr <| .inl ?_
  rw [hg]
  decide

-- The number 0 that `PaillierGroup::new` can draw gives the key without inverses.
theorem not_reconstructed : ¬∀ (env : Env) (numMessages : ℕ) (pSafe qSafe : Issuer.SafePrime)
    (draws : CSKeyDraws) (keypair : CSKeypair) (messages blindings : List BigNumber)
    (label : List UInt8) (draw drawTilde : ℕ) (ciphertext t : CSCiphertext)
    (r rTilde rHat challenge : BigNumber),
    CSKeypair.new numMessages pSafe qSafe draws = .ok keypair → 0 ≤ challenge →
      challenge < pSafe.value * qSafe.value →
      encryptAndProvePhase1 env messages blindings label keypair.pubKey draw drawTilde =
        .ok (ciphertext, t, r, rTilde) →
      encryptAndProvePhase2 r rTilde challenge keypair.pubKey = .ok rHat →
      reconstructBlindingsCiphertext env ciphertext (responses messages blindings challenge) rHat
        challenge label keypair.pubKey = .ok t := by
  intro h
  let env : Env := .sorted (fun _ => List.replicate 32 1) fun _ => List.length_replicate
  obtain ⟨⟨keypair, ⟨ciphertext, t, r, rTilde⟩, rHat⟩, hprove⟩ :
      ∃ x, prove env (keypair35 0) 4 9 5 7 0 = .ok x := exists_of_isOk (by decide +kernel)
  obtain ⟨hnew, hkeypair, hphase1, hphase2⟩ := prove_eq_ok hprove
  have hrun := h env 1 _ _ _ keypair [4] [9] [] 7 0 ciphertext t r rTilde rHat 5 hnew (by decide)
    (by decide) hphase1 hphase2
  have hresult : (prove env (keypair35 0) 4 9 5 7 0).map
      (fun x => (x.1.pubKey.paillierGroup.g, x.2.1.2.2)) = .ok (0, 7, 0) := by decide +kernel
  rw [hprove] at hresult
  obtain ⟨hg, hr, hTilde⟩ : keypair.pubKey.paillierGroup.g = 0 ∧ r = 7 ∧ rTilde = 0 := by
    simpa [Except.map] using hresult
  have hiff := (reconstruct_iff env (by decide) hkeypair (by decide) hphase1 hphase2).mp hrun
  rw [hg, hr, hTilde] at hiff
  revert hiff
  decide

end Proof

end VerifiableEncryption
end Ursa
