import Ursa.Math.Paillier
import Ursa.Zmix.VerifiableEncryption

namespace Ursa

open BigNumber UrsaCryptoResult ModArith
open Issuer (bnRandRange)

namespace CSKeypair

variable {n : ℤ} {numMessages : ℕ} {draws : CSKeyDraws} {keypair : CSKeypair}

-- What the keys are: all bases are powers of `g`, with exponents that the owner keeps.
structure Generated (n : BigNumber) (numMessages : ℕ) (keypair : CSKeypair) : Prop where
  modulus : keypair.pubKey.paillierGroup.modulus = n * n
  h : keypair.pubKey.paillierGroup.h = n.natAbs + 1
  nBy4 : keypair.pubKey.paillierGroup.nBy4 = rshift n 2
  twoInvTimes2 : ∃ inv, BigNumber.inverse 2 n = .ok inv ∧ keypair.pubKey.twoInvTimes2 = 2 * inv
  length : keypair.priKey.x1.length = numMessages
  y1 : List.Forall₂ (fun x y => keypair.pubKey.paillierGroup.exponentiateG x = .ok y)
    keypair.priKey.x1 keypair.pubKey.y1
  y2 : keypair.pubKey.paillierGroup.exponentiateG keypair.priKey.x2 = .ok keypair.pubKey.y2
  y3 : keypair.pubKey.paillierGroup.exponentiateG keypair.priKey.x3 = .ok keypair.pubKey.y3
  n : keypair.pubKey.n = n

theorem ofModulus_eq_ok (h : ofModulus n numMessages draws = .ok keypair) :
    Generated n numMessages keypair := by
  simp only [ofModulus, PaillierGroup.new, bind_eq_ok_iff, pure_eq_ok_iff] at h
  obtain ⟨inv, hinv, group, ⟨gPrime, -, g, -, rfl⟩, xy1, hxy1, x2, -, x3, -, y2, hy2, y3, hy3,
    rfl⟩ := h
  have hloop := mapM_eq_ok_iff.mp hxy1
  simp only [bind_eq_ok_iff, pure_eq_ok_iff] at hloop
  refine ⟨rfl, rfl, rfl, ⟨inv, hinv, rfl⟩, ?_, ?_, hy2, hy3, rfl⟩
  case refine_1 =>
    dsimp only
    rw [List.length_map, ← hloop.length_eq, List.length_range]
  case refine_2 =>
    dsimp only
    rw [List.forall₂_map_left_iff, List.forall₂_map_right_iff, List.forall₂_same]
    refine mapM_forall (fun i _ xy hxy => ?_) hxy1
    simp only [bind_eq_ok_iff, pure_eq_ok_iff] at hxy
    obtain ⟨x, -, y, hy, rfl⟩ := hxy
    exact hy

theorem bnRandRange_ok {n : ℤ} (hn : 0 < n) (draw : ℕ) :
    ∃ x, bnRandRange n draw = .ok x ∧ 0 ≤ x :=
  ⟨draw % n, if_pos hn, Int.emod_nonneg _ hn.ne'⟩

theorem exponentiateG_ok {group : PaillierGroup} (hmodulus : group.modulus ≠ 0) {x : ℤ}
    (hx : 0 ≤ x) : ∃ y, group.exponentiateG x = .ok y :=
  modExp_ok_of_nonneg hmodulus hx

-- Every odd modulus has keys.
theorem ofModulus_ok (hodd : Odd n) (hn : 1 < n) (numMessages : ℕ) (draws : CSKeyDraws) :
    ∃ keypair, ofModulus n numMessages draws = .ok keypair := by
  have hthree : 3 ≤ n := by
    obtain ⟨k, rfl⟩ := hodd
    omega
  have hsqr : 9 ≤ n * n := by nlinarith
  have hquarter : 0 < Int.tdiv (n * n) (2 ^ 2) := by
    rw [Int.tdiv_eq_ediv_of_nonneg (by omega)]
    omega
  have hgcd : Int.gcd 2 n = 1 := by
    rw [← Int.isCoprime_iff_gcd_eq_one]
    obtain ⟨k, rfl⟩ := hodd
    exact ⟨-k, 1, by ring⟩
  obtain ⟨inv, hinv⟩ := inverse_ok (by omega) hgcd
  obtain ⟨gPrime, hgPrime, -⟩ := bnRandRange_ok (n := n * n) (by omega) draws.gPrime
  obtain ⟨g, hg⟩ : ∃ g, modExp gPrime (2 * n) (n * n) = .ok g :=
    modExp_ok_of_nonneg (by omega) (by omega)
  let group : PaillierGroup :=
    { g, h := increment n, nBy4 := rshift n 2, modulus := n * n }
  have hgroup : PaillierGroup.new n draws.gPrime = .ok group := by
    simp only [PaillierGroup.new, BigNumber.sqr, lshift1, hgPrime, hg, ok_bind]
    rfl
  have hdraw (draw : ℕ) : ∃ x y, bnRandRange (group.modulus.rshift 2) draw = .ok x ∧
      group.exponentiateG x = .ok y := by
    obtain ⟨x, hx, hnonneg⟩ := bnRandRange_ok hquarter draw
    have hmodulus : n * n ≠ 0 := by omega
    obtain ⟨y, hy⟩ : ∃ y, group.exponentiateG x = .ok y := exponentiateG_ok hmodulus hnonneg
    exact ⟨x, y, hx, hy⟩
  obtain ⟨xy1, hxy1⟩ : ∃ xy1, ((List.range numMessages).mapM fun i => do
      let x ← bnRandRange (group.modulus.rshift 2) (draws.x1 i)
      let y ← group.exponentiateG x
      pure (x, y)) = .ok xy1 := by
    refine mapM_ok fun i _ => ?_
    obtain ⟨x, y, hx, hy⟩ := hdraw (draws.x1 i)
    exact ⟨(x, y), by simp [hx, hy]⟩
  obtain ⟨x2, y2, hx2, hy2⟩ := hdraw draws.x2
  obtain ⟨x3, y3, hx3, hy3⟩ := hdraw draws.x3
  simp only [ofModulus, hinv, hgroup, ok_bind, hxy1, hx2, hx3, hy2, hy3]
  exact ⟨_, rfl⟩

end CSKeypair

namespace VerifiableEncryption

variable {env : Env} {keypair : CSKeypair} {numMessages : ℕ} {n r : ℤ} {messages : List BigNumber}

abbrev Residues (group : PaillierGroup) := ZMod group.modulus.natAbs

-- A group with a unit `g`, and a unit `h` whose powers are known.
structure Trapdoor (group : PaillierGroup) (n : ℤ) where
  modulus : group.modulus = n * n
  g : (Residues group)ˣ
  h : (Residues group)ˣ
  g_eq : (group.g : Residues group) = g
  h_eq : (group.h : Residues group) = h
  h_zpow (k : ℤ) : ((h ^ k : (Residues group)ˣ) : Residues group) = (1 + k * n : ℤ)

variable {group : PaillierGroup}

theorem exists_h (hmodulus : group.modulus = n * n) (hh : group.h = n.natAbs + 1) (hn : 1 < n) :
    ∃ h : (Residues group)ˣ, (group.h : Residues group) = h ∧
      ∀ k : ℤ, ((h ^ k : (Residues group)ˣ) : Residues group) = (1 + k * n : ℤ) := by
  have hsq : (n : Residues group) * n = 0 := by
    rw [← Int.cast_mul, ← hmodulus]
    exact cast_self_natAbs group.modulus
  obtain ⟨h, hone, hinv⟩ := Paillier.exists_unit hsq
  refine ⟨h, ?_, fun k => ?_⟩
  case refine_1 =>
    have habs : (n.natAbs : ℤ) = n := Int.natAbs_of_nonneg (by omega)
    rw [hh, habs, hone]
    push_cast
    exact add_comm _ _
  case refine_2 =>
    rw [Paillier.zpow_eq hsq hone hinv]
    push_cast
    rfl

theorem exists_trapdoor (hmodulus : group.modulus = n * n) (hh : group.h = n.natAbs + 1)
    (hn : 1 < n) (hg : Int.gcd group.g n = 1) : Nonempty (Trapdoor group n) := by
  obtain ⟨h, hcast, hzpow⟩ := exists_h hmodulus hh hn
  have hgcd : Int.gcd group.g group.modulus = 1 := by
    rw [hmodulus, ← Int.isCoprime_iff_gcd_eq_one] at *
    exact hg.mul_right hg
  obtain ⟨g, hg⟩ := isUnit_cast_iff.mpr hgcd
  exact ⟨⟨hmodulus, g, h, hg.symm, hcast, hzpow⟩⟩

theorem index_getD {l : List BigNumber} (hi : i < l.length) : index l i = .ok (l.getD i 0) := by
  rw [index, List.getElem?_eq_getElem hi, List.getD_eq_getElem _ _ hi]
  rfl

section Abs

variable {a v : ℤ}

theorem rshift_one {M : ℤ} (hM : 0 < M) : rshift M 1 = M / 2 :=
  Int.tdiv_eq_ediv_of_nonneg hM.le

-- `abs` takes the smaller one of `a` and `-a`.
theorem abs_eq_ok (hM : 0 < group.modulus) (h : group.abs a = .ok v) :
    (0 ≤ v ∧ v ≤ group.modulus.rshift 1 ∧ v < group.modulus) ∧
      ((v : Residues group) = a ∨ (v : Residues group) = -a) := by
  simp only [PaillierGroup.abs, modulus, if_neg hM.ne', ok_bind] at h
  have hnonneg : 0 ≤ a % group.modulus := Int.emod_nonneg _ hM.ne'
  have hlt : a % group.modulus < group.modulus := Int.emod_lt_of_pos _ hM
  have hhalf := rshift_one hM
  split_ifs at h with hbig
  case pos =>
    obtain rfl := Except.ok.inj h
    refine ⟨?_, .inr ?_⟩
    · have hneg : ∀ M x : ℤ, 0 ≤ x → M / 2 < x → x < M →
          0 ≤ M - x ∧ M - x ≤ M / 2 ∧ M - x < M := by omega
      rw [hhalf] at hbig ⊢
      exact hneg _ _ hnonneg hbig hlt
    · rw [Int.cast_sub, cast_emod, cast_self_natAbs, zero_sub]
  case neg =>
    obtain rfl := Except.ok.inj h
    exact ⟨⟨hnonneg, not_lt.mp hbig, hlt⟩, .inl <| cast_emod _ _⟩

theorem abs_ok (hM : group.modulus ≠ 0) (a : BigNumber) : ∃ v, group.abs a = .ok v := by
  simp only [PaillierGroup.abs, modulus, if_neg hM, ok_bind]
  split_ifs
  all_goals exact ⟨_, rfl⟩

theorem abs_self (hv : 0 ≤ v ∧ v ≤ group.modulus.rshift 1 ∧ v < group.modulus) :
    group.abs v = .ok v := by
  obtain ⟨hnonneg, hhalf, hlt⟩ := hv
  have hM : (group.modulus : ℤ) ≠ 0 := by
    rintro heq
    exact absurd (heq ▸ hlt) <| not_lt.mpr hnonneg
  simp only [PaillierGroup.abs, modulus, if_neg hM, ok_bind, Int.emod_eq_of_lt hnonneg hlt]
  exact if_neg <| not_lt.mpr hhalf

end Abs

theorem computeV_abs (r hash : ℤ) (pubKey : CSEncPubkey) :
    computeV r hash pubKey true =
      computeV r hash pubKey false >>= fun v => pubKey.paillierGroup.abs v := by
  simp only [computeV, if_true, Bool.false_eq_true, if_false, bind_assoc, ok_bind]

section Encrypt

variable (T : Trapdoor keypair.pubKey.paillierGroup n) (hgen : keypair.Generated n numMessages)

theorem one_lt_modulus (hmodulus : group.modulus = n * n) (hn : 1 < n) :
    1 < group.modulus.natAbs := by
  have habs : 1 < n.natAbs := by omega
  rw [hmodulus, Int.natAbs_mul]
  exact Nat.one_lt_mul_iff.mpr ⟨by omega, by omega, .inl habs⟩

include hgen

theorem y1_eq (hi : i < numMessages) :
    i < keypair.pubKey.y1.length ∧ i < keypair.priKey.x1.length ∧
      keypair.pubKey.paillierGroup.exponentiateG (keypair.priKey.x1.getD i 0) =
        .ok (keypair.pubKey.y1.getD i 0) := by
  have hx : i < keypair.priKey.x1.length := hgen.length ▸ hi
  have hy : i < keypair.pubKey.y1.length := hgen.y1.length_eq ▸ hx
  refine ⟨hy, hx, ?_⟩
  rw [List.getD_eq_getElem _ _ hx, List.getD_eq_getElem _ _ hy]
  exact hgen.y1.get hx hy

-- The `i`-th component of `e`, and the value before `abs` of `v`, as group elements.
def entry (T : Trapdoor keypair.pubKey.paillierGroup n) (messages : List BigNumber) (r : ℤ)
    (i : ℕ) : (Residues keypair.pubKey.paillierGroup)ˣ :=
  (T.g ^ keypair.priKey.x1.getD i 0) ^ r * T.h ^ messages.getD i 0

def check (T : Trapdoor keypair.pubKey.paillierGroup n) (hash r : ℤ) :
    (Residues keypair.pubKey.paillierGroup)ˣ :=
  (T.g ^ keypair.priKey.x2 * (T.g ^ keypair.priKey.x3) ^ hash) ^ r

variable (hn : 1 < n)

include hn

theorem computes_computeEntry (hi : i < messages.length) (hlen : messages.length ≤ numMessages) :
    Computes keypair.pubKey.paillierGroup.modulus (computeEntry messages r keypair.pubKey i)
      (entry T messages r i) := by
  have hM := one_lt_modulus T.modulus hn
  obtain ⟨hy, -, hpower⟩ := y1_eq hgen (hi.trans_le hlen)
  have hcast := modExp_unit hpower T.g_eq
  rw [computeEntry, index_getD hy, ok_bind]
  refine (computes_modExp hM hcast r).bind fun y hy => ?_
  rw [index_getD hi, ok_bind]
  exact (computes_modExp hM T.h_eq _).bind fun hMes hcastH =>
    computes_modMul (ne_zero_of_one_lt hM) hy hcastH

theorem computeE_eq (hlen : messages.length ≤ numMessages) :
    computeE messages r keypair.pubKey = .ok ((List.range messages.length).map fun i =>
      residue keypair.pubKey.paillierGroup.modulus (entry T messages r i)) := by
  have hM := one_lt_modulus T.modulus hn
  refine mapM_eq_map fun i hi => ?_
  exact (computes_computeEntry T hgen hn (List.mem_range.mp hi) hlen).eq_residue
    (ne_zero_of_one_lt hM)

theorem computes_computeV (hash : ℤ) : Computes keypair.pubKey.paillierGroup.modulus
    (computeV r hash keypair.pubKey false) (check T hash r) := by
  have hM := one_lt_modulus T.modulus hn
  have hy2 := modExp_unit hgen.y2 T.g_eq
  have hy3 := modExp_unit hgen.y3 T.g_eq
  simp only [computeV, Bool.false_eq_true, if_false, bind_ok_right]
  refine (computes_modExp hM hy3 hash).bind fun y3Hs hcast => ?_
  refine (computes_modMul (ne_zero_of_one_lt hM) hy2 hcast).bind fun y2Y3Hs hcast => ?_
  exact computes_modExp hM hcast r

def components (T : Trapdoor keypair.pubKey.paillierGroup n) (messages : List BigNumber)
    (r : ℤ) : List BigNumber :=
  (List.range messages.length).map fun i =>
    residue keypair.pubKey.paillierGroup.modulus (entry T messages r i)

-- The ciphertext that comes out for the random value `r`; `v` is the one of two numbers that
-- `abs` takes.
structure Encrypts (env : Env) (T : Trapdoor keypair.pubKey.paillierGroup n)
    (messages : List BigNumber) (label : List UInt8) (r : ℤ) (ciphertext : CSCiphertext) :
    Prop where
  u : ciphertext.u = residue keypair.pubKey.paillierGroup.modulus (T.g ^ r)
  e : ciphertext.e = components T messages r
  v : keypair.pubKey.paillierGroup.abs
    (residue keypair.pubKey.paillierGroup.modulus
      (check T (hash env ciphertext.u ciphertext.e label) r)) = .ok ciphertext.v

theorem encryptUsingRandomValue_ok (env : Env) (r : ℤ) (label : List UInt8)
    (hlen : messages.length ≤ numMessages) :
    ∃ ciphertext, encryptUsingRandomValue env r messages label keypair.pubKey = .ok ciphertext ∧
      Encrypts env T messages label r ciphertext := by
  have hM := ne_zero_of_one_lt <| one_lt_modulus T.modulus hn
  let u := residue keypair.pubKey.paillierGroup.modulus (T.g ^ r)
  have hu : computeU r keypair.pubKey = .ok u :=
    (computes_modExp (one_lt_modulus T.modulus hn) T.g_eq r).eq_residue hM
  have he : computeE messages r keypair.pubKey = .ok (components T messages r) :=
    computeE_eq T hgen hn hlen
  have hv := (computes_computeV (r := r) T hgen hn
    (hash env u (components T messages r) label)).eq_residue hM
  obtain ⟨v, habs⟩ := abs_ok hM (residue keypair.pubKey.paillierGroup.modulus
    (check T (hash env u (components T messages r) label) r))
  refine ⟨⟨u, components T messages r, v⟩, ?_, rfl, rfl, habs⟩
  simp only [encryptUsingRandomValue, hu, he, ok_bind]
  rw [computeV_abs, hv, ok_bind, habs]
  rfl

end Encrypt

section Decrypt

variable {T : Trapdoor keypair.pubKey.paillierGroup n} {hgen : keypair.Generated n numMessages}
variable {ciphertext : CSCiphertext} {label : List UInt8}

theorem cast_one_add (T : Trapdoor group n) (hk : n ∣ k - k') :
    ((1 + k * n : ℤ) : Residues group) = (1 + k' * n : ℤ) := by
  obtain ⟨j, hj⟩ := hk
  have hsplit : 1 + k * n = 1 + k' * n + n * n * j := by linear_combination n * hj
  have hzero : ((n * n : ℤ) : Residues group) = 0 := by
    rw [← T.modulus]
    exact cast_self_natAbs group.modulus
  rw [hsplit, Int.cast_add, Int.cast_mul, hzero, zero_mul, add_zero]

-- The message is read off the power of `h`, modulo `n`.
theorem readMessage (hn : 1 < n) (T : Trapdoor group n) (m : ℤ) :
    0 ≤ 1 + m % n * n ∧ 1 + m % n * n < group.modulus ∧ (1 + m % n * n) % n = 1 ∧
      Int.tdiv (1 + m % n * n - 1) n = m % n := by
  have hnonneg : 0 ≤ m % n := Int.emod_nonneg _ (by omega)
  have hlt : m % n < n := Int.emod_lt_of_pos _ (by omega)
  refine ⟨by positivity, ?_, ?_, ?_⟩
  · rw [T.modulus]
    nlinarith
  · rw [Int.add_mul_emod_self_right, Int.emod_eq_of_lt zero_le_one hn]
  · rw [add_sub_cancel_left, Int.mul_tdiv_cancel _ (by omega)]

-- The exponent of `m_hat` is even, so that only the square of what is left of a component counts.
theorem decryptEntry_of_sq (T : Trapdoor keypair.pubKey.paillierGroup n)
    (hgen : keypair.Generated n numMessages) (hn : 1 < n) (hi : i < numMessages)
    {u e : (Residues keypair.pubKey.paillierGroup)ˣ} {ei m : ℤ}
    (hu : (ciphertext.u : Residues keypair.pubKey.paillierGroup) = u)
    (hei : index ciphertext.e i = .ok ei)
    (he : (ei : Residues keypair.pubKey.paillierGroup) = e)
    (hsq : (e * (u ^ keypair.priKey.x1.getD i 0)⁻¹) ^ 2 = (T.h ^ m) ^ 2) :
    decryptEntry ciphertext keypair.pubKey keypair.priKey i = .ok (m % n) := by
  have hM := one_lt_modulus T.modulus hn
  have hM₀ := ne_zero_of_one_lt hM
  obtain ⟨-, hx, -⟩ := y1_eq hgen hi
  let x := keypair.priKey.x1.getD i 0
  obtain ⟨inv, hinv, htwo⟩ := hgen.twoInvTimes2
  have huX1 : keypair.pubKey.paillierGroup.exponentiate ciphertext.u x = .ok (residue _ (u ^ x)) :=
    (computes_modExp hM hu x).eq_residue hM₀
  have hinverse := (computes_inverse hM (cast_residue (u := u ^ x) hM₀)).eq_residue hM₀
  have hproduct := (computes_modMul hM₀ he (cast_residue (u := (u ^ x)⁻¹) hM₀)).eq_residue hM₀
  obtain ⟨hnonneg, hlt, hmod, hdiv⟩ := readMessage hn T m
  have hmHat : keypair.pubKey.paillierGroup.exponentiate (residue _ (e * (u ^ x)⁻¹))
      keypair.pubKey.twoInvTimes2 = .ok (1 + m % n * n) := by
    obtain ⟨y, hy, hcanonical, hcast⟩ :=
      computes_modExp hM (cast_residue (u := e * (u ^ x)⁻¹) hM₀) keypair.pubKey.twoInvTimes2
    have hdvd : n ∣ m * (2 * inv) - m % n := by
      obtain ⟨j, hj⟩ := dvd_of_inverse hinv
      have hm := Int.emod_add_mul_ediv m n
      exact ⟨m * j + m / n, by linear_combination m * hj - hm⟩
    have hpower : (e * (u ^ x)⁻¹) ^ (2 * inv) = T.h ^ (m * (2 * inv)) := by
      rw [zpow_mul, zpow_ofNat, hsq, ← zpow_ofNat, ← zpow_mul, ← zpow_mul]
    rw [htwo, hpower, T.h_zpow, cast_one_add T hdvd] at hcast
    have hlt' : 1 + m % n * n < (keypair.pubKey.paillierGroup.modulus.natAbs : ℤ) :=
      hlt.trans_le Int.le_natAbs
    rw [← canonical_unique hcanonical ⟨hnonneg, hlt'⟩ hcast]
    exact hy
  rw [decryptEntry, index_getD hx]
  simp only [ok_bind]
  rw [huX1, ok_bind, hinverse, ok_bind, hei, ok_bind, hproduct, ok_bind, hmHat, ok_bind]
  have hn₀ : n ≠ 0 := by omega
  simp only [modulus, hgen.n, if_neg hn₀, hM₀, if_false, ok_bind, hmod, if_true, BigNumber.div,
    Int.emod_eq_of_lt hnonneg hlt, hdiv]

theorem decryptEntry_eq (hgen : keypair.Generated n numMessages) (hn : 1 < n)
    (h : Encrypts env T messages label r ciphertext) (hi : i < messages.length)
    (hlen : messages.length ≤ numMessages) :
    decryptEntry ciphertext keypair.pubKey keypair.priKey i = .ok (messages.getD i 0 % n) := by
  have hM₀ := ne_zero_of_one_lt <| one_lt_modulus T.modulus hn
  have hu : (ciphertext.u : Residues keypair.pubKey.paillierGroup) = ↑(T.g ^ r) := by
    rw [h.u]
    exact cast_residue hM₀
  have he : index ciphertext.e i = .ok (residue _ (entry T messages r i)) := by
    rw [h.e, index, components, List.getElem?_map, List.getElem?_range hi]
    rfl
  refine decryptEntry_of_sq T hgen hn (hi.trans_le hlen) hu he (cast_residue hM₀) ?_
  -- The power of `g` cancels.
  rw [entry, ← zpow_mul, ← zpow_mul, mul_comm r, mul_right_comm, mul_inv_cancel, one_mul]

theorem check_sq (T : Trapdoor keypair.pubKey.paillierGroup n) (hs r : ℤ) :
    (T.g ^ r) ^ (2 * (hs * keypair.priKey.x3 + keypair.priKey.x2)) =
      check T hs r * check T hs r := by
  simp only [check, ← zpow_mul, ← zpow_add]
  congr 1
  ring

-- The square does not tell which of the two numbers `abs` took.
theorem sqr_of_abs (hM : 0 < group.modulus) {v : ℤ} {w : (Residues group)ˣ}
    (h : group.abs (residue group.modulus w) = .ok v) :
    group.sqr v = .ok (residue group.modulus (w * w)) := by
  have hM₀ := hM.ne'
  obtain ⟨-, hcast⟩ := abs_eq_ok hM h
  have hsq : ((v * v : ℤ) : Residues group) = ↑(w * w) := by
    rw [Int.cast_mul, Units.val_mul, ← cast_residue (u := w) hM₀]
    obtain hcast | hcast := hcast
    · rw [hcast]
    · rw [hcast, neg_mul_neg]
  simp only [PaillierGroup.sqr, BigNumber.sqr, modulus, if_neg hM₀]
  congr 1
  exact canonical_unique (emod_canonical hM₀) (residue_canonical hM₀) <|
    (cast_emod _ _).trans <| hsq.trans (cast_residue hM₀).symm

theorem decrypt_eq (hgen : keypair.Generated n numMessages) (hn : 1 < n)
    (h : Encrypts env T messages label r ciphertext) (hlen : messages.length ≤ numMessages) :
    decrypt env label ciphertext keypair.pubKey keypair.priKey =
      .ok (messages.map (· % n)) := by
  have hM := one_lt_modulus T.modulus hn
  have hM₀ := ne_zero_of_one_lt hM
  have hpos : (0 : ℤ) < keypair.pubKey.paillierGroup.modulus := by
    rw [T.modulus]
    positivity
  have hlength : ciphertext.e.length = messages.length := by
    rw [h.e, components, List.length_map, List.length_range]
  have habs := abs_self (abs_eq_ok hpos h.v).1
  have hu : (ciphertext.u : Residues keypair.pubKey.paillierGroup) = ↑(T.g ^ r) := by
    rw [h.u]
    exact cast_residue hM₀
  let hs := hash env ciphertext.u ciphertext.e label
  have huSqr : keypair.pubKey.paillierGroup.exponentiate ciphertext.u
      (lshift1 (hs * keypair.priKey.x3 + keypair.priKey.x2)) =
        .ok (residue _ (check T hs r * check T hs r)) := by
    rw [← check_sq]
    exact (computes_modExp hM hu _).eq_residue hM₀
  have hmessages : (List.range ciphertext.e.length).mapM
      (decryptEntry ciphertext keypair.pubKey keypair.priKey) =
        .ok ((List.range messages.length).map fun i => messages.getD i 0 % n) := by
    rw [hlength]
    exact mapM_eq_map fun i hi => decryptEntry_eq hgen hn h (List.mem_range.mp hi) hlen
  have hnot : ¬keypair.priKey.x1.length < ciphertext.e.length := by
    rw [hgen.length, hlength]
    exact not_lt.mpr hlen
  have hlist : ((List.range messages.length).map fun i => messages.getD i 0 % n) =
      messages.map (· % n) := by
    refine List.ext_getElem (by simp) fun i hi hi' => ?_
    rw [List.length_map] at hi'
    simp [List.getElem?_eq_getElem hi']
  simp only [decrypt, if_neg hnot, habs, ok_bind, ne_eq, not_true_eq_false, if_false]
  rw [huSqr, ok_bind, sqr_of_abs hpos h.v, ok_bind, if_neg (not_not.mpr rfl), hmessages, hlist]

end Decrypt

-- The keys are those of `new`, for any odd `n` in place of the product of two safe primes.
theorem decrypt_encrypt (env : Env) (hodd : Odd n) (hn : 1 < n) (numMessages : ℕ)
    (draws : CSKeyDraws) :
    ∃ keypair, CSKeypair.ofModulus n numMessages draws = .ok keypair ∧
      (∀ pSafe qSafe : Issuer.SafePrime, n = pSafe.value * qSafe.value → 1 ≤ numMessages →
        CSKeypair.new numMessages pSafe qSafe draws = .ok keypair) ∧
      (Int.gcd keypair.pubKey.paillierGroup.g n = 1 →
        ∀ (messages : List BigNumber) (label : List UInt8) (r : BigNumber),
          messages.length ≤ numMessages →
          ∃ ciphertext, encryptUsingRandomValue env r messages label keypair.pubKey =
              .ok ciphertext ∧
            (∀ draw, keypair.pubKey.paillierGroup.randForEnc draw = .ok r →
              encrypt env messages label keypair.pubKey draw = .ok ciphertext) ∧
            decrypt env label ciphertext keypair.pubKey keypair.priKey =
              .ok (messages.map (· % n)) ∧
            ((∀ m ∈ messages, 0 ≤ m ∧ m < n) →
              decrypt env label ciphertext keypair.pubKey keypair.priKey = .ok messages)) := by
  obtain ⟨keypair, hkeypair⟩ := CSKeypair.ofModulus_ok hodd hn numMessages draws
  refine ⟨keypair, hkeypair, fun pSafe qSafe hprod hnum => ?_, fun hg messages label r hlen => ?_⟩
  case refine_1 =>
    rw [CSKeypair.new, if_neg (not_lt.mpr hnum), ← hkeypair, hprod]
  have hgen := CSKeypair.ofModulus_eq_ok hkeypair
  obtain ⟨T⟩ := exists_trapdoor hgen.modulus hgen.h hn hg
  obtain ⟨ciphertext, hencrypt, hencrypts⟩ := encryptUsingRandomValue_ok T hgen hn env r label hlen
  have hdecrypt := decrypt_eq hgen hn hencrypts hlen
  refine ⟨ciphertext, hencrypt, fun draw hdraw => ?_, hdecrypt, fun hm => ?_⟩
  case refine_1 =>
    have hnot : ¬keypair.pubKey.y1.length < messages.length := by
      rw [← hgen.y1.length_eq, hgen.length]
      exact not_lt.mpr hlen
    simp only [encrypt, if_neg hnot, hdraw, ok_bind, hencrypt]
  case refine_2 =>
    rw [hdecrypt]
    congr 1
    refine Eq.trans (List.map_congr_left fun m hmem => ?_) (List.map_id messages)
    exact Int.emod_eq_of_lt (hm m hmem).1 (hm m hmem).2

def keyDraws15 : CSKeyDraws where
  gPrime := 2
  x1 i := i + 7
  x2 := 11
  x3 := 5

theorem keypair_fifteen : ∃ keypair, CSKeypair.ofModulus 15 2 keyDraws15 = .ok keypair ∧
    Int.gcd keypair.pubKey.paillierGroup.g 15 = 1 := by
  obtain ⟨keypair, hkeypair⟩ := CSKeypair.ofModulus_ok (n := 15) (by decide) (by decide) 2 keyDraws15
  have hg : (CSKeypair.ofModulus 15 2 keyDraws15).map (·.pubKey.paillierGroup.g) = .ok 199 := by
    decide +kernel
  rw [hkeypair] at hg
  have hg : keypair.pubKey.paillierGroup.g = 199 := Except.ok.inj hg
  refine ⟨keypair, hkeypair, ?_⟩
  rw [hg]
  decide

theorem decrypt_encrypt_fifteen :
    let env : Env := .sorted (fun _ => List.replicate 32 1) fun _ => List.length_replicate
    ∃ keypair ciphertext, CSKeypair.ofModulus 15 2 keyDraws15 = .ok keypair ∧
      encryptUsingRandomValue env 2 [4, 9] [1] keypair.pubKey = .ok ciphertext ∧
      decrypt env [1] ciphertext keypair.pubKey keypair.priKey = .ok [4, 9] := by
  intro env
  obtain ⟨keypair, hkeypair, -, h⟩ :=
    decrypt_encrypt env (n := 15) (by decide) (by decide) 2 keyDraws15
  obtain ⟨keypair', hkeypair', hg⟩ := keypair_fifteen
  obtain rfl := Except.ok.inj <| hkeypair.symm.trans hkeypair'
  obtain ⟨ciphertext, hencrypt, -, -, hdecrypt⟩ := h hg [4, 9] [1] 2 (by decide)
  exact ⟨keypair, ciphertext, hkeypair, hencrypt, hdecrypt (by decide)⟩

end VerifiableEncryption
end Ursa
