import Ursa.Math.SquareSigma
import Ursa.Zmix.Theorems.Coverage

namespace Ursa

open BigNumber UrsaCryptoResult ModArith
open Issuer (SafePrime)

namespace VerifiableEncryption

variable {env : Env} {keypair : CSKeypair} {numMessages : ℕ} {n c c' rHat rHat' : ℤ}
variable {ciphertext t : CSCiphertext} {label : List UInt8} {s s' : List BigNumber}

-- All numbers of the ciphertext have inverses.
structure Invertible (ciphertext : CSCiphertext) (n : BigNumber) : Prop where
  u : Int.gcd ciphertext.u n = 1
  e : ∀ e ∈ ciphertext.e, Int.gcd e n = 1
  v : Int.gcd ciphertext.v n = 1

-- The message behind two responses with the difference `x`, to challenges with the difference `d`.
def extract (n d x : BigNumber) : BigNumber :=
  (((x : ZMod n.natAbs) * (d : ZMod n.natAbs)⁻¹).val : ℤ)

def extracted (n d : BigNumber) (s s' : List BigNumber) : List BigNumber :=
  List.zipWith (fun s s' => extract n d (s' - s)) s s'

section Safe

variable {pSafe qSafe : SafePrime}

theorem two_mul_half (p : SafePrime) : 2 * (p.value / 2) = p.value - 1 := by
  have htwo := p.safe.two_le
  obtain heq | hodd := p.prime.eq_two_or_odd
  case inl => omega
  case inr => omega

-- The order of all squares modulo `n * n`.
def squareOrder (p q : SafePrime) : ℕ :=
  p.value * (p.value / 2 * (q.value / 2)) * (p.value * q.value)

theorem sq_pow_squareOrder {N : ℕ}
    (hN : N = pSafe.value * qSafe.value * (pSafe.value * qSafe.value)) (u : (ZMod N)ˣ) :
    (u ^ 2) ^ squareOrder pSafe qSafe = 1 := by
  subst hN
  have : Fact pSafe.value.Prime := ⟨pSafe.prime⟩
  have : Fact qSafe.value.Prime := ⟨qSafe.prime⟩
  refine Paillier.sq_pow_eq_one (mul_ne_zero pSafe.prime.ne_zero qSafe.prime.ne_zero) ?_ u
  exact sq_pow_mul_half_mul_half (two_mul_half pSafe) (two_mul_half qSafe)

theorem isCoprime_squareOrder {d : ℤ} (hd : d ≠ 0) (hp : d.natAbs < pSafe.value / 2)
    (hq : d.natAbs < qSafe.value / 2) : IsCoprime d (squareOrder pSafe qSafe) := by
  have hpos : d.natAbs ≠ 0 := Int.natAbs_ne_zero.mpr hd
  have hcoprime {P : ℕ} (hprime : P.Prime) (hlt : d.natAbs < P) : d.natAbs.Coprime P :=
    (Nat.coprime_of_lt_prime hpos hlt hprime).symm
  have hp' := hcoprime pSafe.prime (hp.trans_le <| Nat.div_le_self _ _)
  have hq' := hcoprime qSafe.prime (hq.trans_le <| Nat.div_le_self _ _)
  rw [Int.isCoprime_iff_gcd_eq_one, Int.gcd, Int.natAbs_natCast]
  exact (hp'.mul_right <| (hcoprime pSafe.safe hp).mul_right <| hcoprime qSafe.safe hq).mul_right <|
    hp'.mul_right hq'

end Safe

section Accepted

variable {T : Trapdoor keypair.pubKey.paillierGroup n}

theorem length_le_of_reconstruct {pubKey : CSEncPubkey}
    (h : reconstructBlindingsCiphertext env ciphertext s rHat c label pubKey = .ok t) :
    s.length ≤ pubKey.y1.length := by
  rw [reconstructBlindingsCiphertext, ite_error_bind_eq_ok_iff] at h
  exact not_lt.mp h.left

-- What the verifier computes of a ciphertext with inverses.
theorem reconstruct_units (T : Trapdoor keypair.pubKey.paillierGroup n)
    (hgen : keypair.Generated n numMessages)
    (h : reconstructBlindingsCiphertext env ciphertext s rHat c label keypair.pubKey = .ok t)
    {u v : (Residues keypair.pubKey.paillierGroup)ˣ}
    (hu : (ciphertext.u : Residues keypair.pubKey.paillierGroup) = u)
    (hv : (ciphertext.v : Residues keypair.pubKey.paillierGroup) = v) :
    (t.u : Residues keypair.pubKey.paillierGroup) = ↑(u ^ (2 * c) * T.g ^ (2 * rHat)) ∧
      (t.v : Residues keypair.pubKey.paillierGroup) =
        ↑(v ^ (2 * c) * check T (hash env ciphertext.u ciphertext.e label) (2 * rHat)) ∧
      ∀ i < s.length, ∃ ti ei, index t.e i = .ok ti ∧ index ciphertext.e i = .ok ei ∧
        ∀ e : (Residues keypair.pubKey.paillierGroup)ˣ,
          (ei : Residues keypair.pubKey.paillierGroup) = e →
          (ti : Residues keypair.pubKey.paillierGroup) =
            ↑(e ^ (2 * c) * (T.g ^ keypair.priKey.x1.getD i 0) ^ (2 * rHat) *
              T.h ^ (2 * s.getD i 0)) := by
  have hlen := length_le_of_reconstruct h
  simp only [reconstruct_parts hlen, reconstructU, reconstructV, checkBase, bind_eq_ok_iff,
    pure_eq_ok_iff] at h
  obtain ⟨tu, ⟨uC, huC, gHat, hgHat, htu⟩, te, hte, tv, ⟨vC, hvC, w, ⟨y3Hs, hy3Hs, hw⟩, wHat, hwHat,
    htv⟩, rfl⟩ := h
  refine ⟨?u, ?v, fun i hi => ?e⟩
  case u => rw [modMul_cast htu, modExp_unit huC hu, modExp_unit hgHat T.g_eq, Units.val_mul]
  case v =>
    have hbase := modMul_cast hw
    rw [modExp_unit hgen.y2 T.g_eq, modExp_unit hy3Hs (modExp_unit hgen.y3 T.g_eq),
      ← Units.val_mul] at hbase
    rw [modMul_cast htv, modExp_unit hvC hv, modExp_unit hwHat hbase, ← Units.val_mul]
    rfl
  case e =>
    obtain ⟨ti, hti, hentry⟩ := getElem?_of_mapM_range hte hi
    have hi' : i < numMessages := by
      rw [← hgen.length, hgen.y1.length_eq]
      exact hi.trans_le hlen
    obtain ⟨hy, -, hpower⟩ := y1_eq hgen hi'
    simp only [reconstructEntry, index_getD hy, index_getD hi, bind_eq_ok_iff, Except.ok.injEq,
      exists_eq_left', lshift1] at hentry
    obtain ⟨ei, hei, eC, heC, yHat, hyHat, hHat, hhHat, product, hproduct, hti'⟩ := hentry
    refine ⟨ti, ei, index_eq_ok_iff.mpr hti, hei, fun e he => ?_⟩
    rw [modMul_cast hti', modMul_cast hproduct, modExp_unit heC he,
      modExp_unit hyHat (modExp_unit hpower T.g_eq), modExp_unit hhHat T.h_eq, Units.val_mul,
      Units.val_mul]

end Accepted

section Decrypted

variable {k : ℕ} (T : Trapdoor keypair.pubKey.paillierGroup n)
variable {u v e : (Residues keypair.pubKey.paillierGroup)ˣ}

theorem zpow_h_congr (T : Trapdoor keypair.pubKey.paillierGroup n) (h : n ∣ a - b) :
    T.h ^ a = T.h ^ b := by
  ext
  rw [T.h_zpow, T.h_zpow, cast_one_add T h]

-- `check` is a power of `g` that was raised before.
theorem check_eq (T : Trapdoor keypair.pubKey.paillierGroup n) (hs r : ℤ) :
    check T hs r = (T.g ^ (hs * keypair.priKey.x3 + keypair.priKey.x2)) ^ r := by
  rw [check, zpow_add, mul_comm, mul_comm hs, zpow_mul T.g _ hs]

theorem extract_emod (hn : 0 < n) (d x : ℤ) : extract n d x % n = extract n d x := by
  have : NeZero n.natAbs := ⟨Int.natAbs_ne_zero.mpr hn.ne'⟩
  apply Int.emod_eq_of_lt (Int.natCast_nonneg _)
  rw [← Int.natAbs_of_nonneg hn.le]
  exact Int.ofNat_lt.mpr <| ZMod.val_lt _

theorem dvd_sub_mul_extract (hn : n ≠ 0) (hd : IsCoprime d n) (x : ℤ) :
    n ∣ x - d * extract n d x := by
  have : NeZero n.natAbs := ⟨Int.natAbs_ne_zero.mpr hn⟩
  rw [← Int.natAbs_dvd, ← ZMod.intCast_eq_intCast_iff_dvd_sub]
  have hunit : IsUnit (d : ZMod n.natAbs) := isUnit_cast_iff.mpr <| Int.isCoprime_iff_gcd_eq_one.mp hd
  rw [Int.cast_mul, extract, Int.cast_natCast, ZMod.natCast_zmod_val, mul_left_comm,
    ZMod.mul_inv_of_unit _ hunit, mul_one]

theorem exists_residue (T : Trapdoor keypair.pubKey.paillierGroup n) {x : ℤ}
    (hx : Int.gcd x n = 1) :
    ∃ u : (Residues keypair.pubKey.paillierGroup)ˣ,
      (x : Residues keypair.pubKey.paillierGroup) = u := by
  have hgcd : Int.gcd x keypair.pubKey.paillierGroup.modulus = 1 := by
    rw [T.modulus, ← Int.isCoprime_iff_gcd_eq_one] at *
    exact hx.mul_right hx
  obtain ⟨u, hu⟩ := isUnit_cast_iff.mpr hgcd
  exact ⟨u, hu.symm⟩

theorem sqr_eq {group : PaillierGroup} {x : ℤ} {w : (Residues group)ˣ} (hM : group.modulus ≠ 0)
    (hx : (x : Residues group) = w) : group.sqr x = .ok (residue group.modulus (w * w)) := by
  have hsq : ((x * x : ℤ) : Residues group) = ↑(w * w) := by
    rw [Int.cast_mul, hx, Units.val_mul]
  simp only [PaillierGroup.sqr, BigNumber.sqr, modulus, if_neg hM]
  congr 1
  exact canonical_unique (emod_canonical hM) (residue_canonical hM) <|
    (cast_emod _ _).trans <| hsq.trans (cast_residue hM).symm

-- Two answers of a prover to whom the ciphertext is fixed.
structure Answered (env : Env) (keypair : CSKeypair) (ciphertext : CSCiphertext)
    (label : List UInt8) (c c' : BigNumber) (s s' : List BigNumber) : Prop where
  length : s.length = ciphertext.e.length
  length' : s'.length = ciphertext.e.length
  reconstructed : ∃ t rHat rHat',
    reconstructBlindingsCiphertext env ciphertext s rHat c label keypair.pubKey = .ok t ∧
      reconstructBlindingsCiphertext env ciphertext s' rHat' c' label keypair.pubKey = .ok t

theorem Answered.checks (h : Answered env keypair ciphertext label c c' s s')
    (T : Trapdoor keypair.pubKey.paillierGroup n) (hgen : keypair.Generated n numMessages)
    (hk : ∀ x : (Residues keypair.pubKey.paillierGroup)ˣ, (x ^ 2) ^ k = 1)
    (hd : IsCoprime (c - c') k) (hdn : IsCoprime (c - c') n) (hn : 1 < n)
    (hu : (ciphertext.u : Residues keypair.pubKey.paillierGroup) = u)
    (hv : (ciphertext.v : Residues keypair.pubKey.paillierGroup) = v)
    (he : ∀ e ∈ ciphertext.e, Int.gcd e n = 1) :
    v * v = u ^ (2 * (hash env ciphertext.u ciphertext.e label * keypair.priKey.x3 +
        keypair.priKey.x2)) ∧
      ∀ i < ciphertext.e.length, decryptEntry ciphertext keypair.pubKey keypair.priKey i =
        .ok (extract n (c - c') (s'.getD i 0 - s.getD i 0)) := by
  obtain ⟨hlen, hlen', t, rHat, rHat', hok, hok'⟩ := h
  obtain ⟨htu, htv, hte⟩ := reconstruct_units T hgen hok hu hv
  obtain ⟨htu', htv', hte'⟩ := reconstruct_units T hgen hok' hu hv
  have hanswerU := Units.ext <| htu.symm.trans htu'
  have hanswerV := Units.ext <| htv.symm.trans htv'
  rw [check_eq, check_eq] at hanswerV
  constructor
  case left =>
    have hsq := SquareSigma.sq_eq_zpow hk hd _ hanswerU hanswerV
    rwa [pow_two, ← zpow_natCast, ← zpow_mul, mul_comm _ ((2 : ℕ) : ℤ)] at hsq
  case right =>
    intro i hi
    obtain ⟨ti, ei, hti, hei, hvalue⟩ := hte i (hlen ▸ hi)
    obtain ⟨ti', ei', hti', hei', hvalue'⟩ := hte' i (hlen' ▸ hi)
    obtain rfl := Except.ok.inj <| hti.symm.trans hti'
    obtain rfl := Except.ok.inj <| hei.symm.trans hei'
    obtain ⟨e, hcast⟩ := exists_residue T <| he ei <| List.mem_of_getElem? <| index_eq_ok_iff.mp hei
    have hanswer := Units.ext <| (hvalue e hcast).symm.trans (hvalue' e hcast)
    have hmessage := zpow_h_congr T <|
      dvd_sub_mul_extract (by omega) hdn (s'.getD i 0 - s.getD i 0)
    have hi' : i < numMessages := by
      rw [← hgen.length, hgen.y1.length_eq]
      exact (hlen ▸ hi).trans_le <| length_le_of_reconstruct hok
    rw [decryptEntry_of_sq T hgen hn hi' hu hei hcast
      (SquareSigma.sq_eq_zpow_mul hk hd _ _ hanswerU hanswer hmessage), extract_emod (by omega)]

theorem mapM_extracted (hlen : s.length = ciphertext.e.length)
    (hlen' : s'.length = ciphertext.e.length)
    (h : ∀ i < ciphertext.e.length, decryptEntry ciphertext keypair.pubKey keypair.priKey i =
      .ok (extract n d (s'.getD i 0 - s.getD i 0))) :
    (List.range ciphertext.e.length).mapM
      (decryptEntry ciphertext keypair.pubKey keypair.priKey) = .ok (extracted n d s s') := by
  rw [mapM_eq_map fun i hi => h i (List.mem_range.mp hi)]
  apply congrArg Except.ok
  refine List.ext_getElem (by simp [extracted, hlen, hlen']) fun i hi hi' => ?_
  rw [List.length_map, List.length_range] at hi
  simp [extracted, hi, hlen, hlen']

end Decrypted

-- Whoever can answer two challenges for a ciphertext has encrypted the messages that his answers give
-- away: the owner of the keys decrypts to them, unless `v` is the greater one of two numbers. The
-- challenges are shorter than the primes of the modulus.
theorem reconstructed_decrypts (env : Env) {pSafe qSafe : SafePrime} {draws : CSKeyDraws}
    (hnew : CSKeypair.new numMessages pSafe qSafe draws = .ok keypair)
    (hg : Int.gcd keypair.pubKey.paillierGroup.g (pSafe.value * qSafe.value) = 1)
    (hinv : Invertible ciphertext (pSafe.value * qSafe.value : ℤ)) (hne : c ≠ c')
    (hp : (c - c').natAbs < pSafe.value / 2) (hq : (c - c').natAbs < qSafe.value / 2)
    (h : Answered env keypair ciphertext label c c' s s') (messages : List BigNumber) :
    decrypt env label ciphertext keypair.pubKey keypair.priKey = .ok messages ↔
      keypair.pubKey.paillierGroup.abs ciphertext.v = .ok ciphertext.v ∧
        messages = extracted (pSafe.value * qSafe.value : ℤ) (c - c') s s' := by
  let n : ℤ := pSafe.value * qSafe.value
  have hn : 1 < n := by
    have hlt := Nat.one_lt_mul_iff.mpr
      ⟨pSafe.prime.pos, qSafe.prime.pos, .inl pSafe.prime.one_lt⟩
    change (1 : ℤ) < pSafe.value * qSafe.value
    exact_mod_cast hlt
  rw [CSKeypair.new, ite_error_bind_eq_ok_iff] at hnew
  have hgen : keypair.Generated n numMessages := CSKeypair.ofModulus_eq_ok hnew.right
  obtain ⟨T⟩ := exists_trapdoor hgen.modulus hgen.h hn hg
  have hM₀ := ne_zero_of_one_lt <| one_lt_modulus T.modulus hn
  have hN : keypair.pubKey.paillierGroup.modulus.natAbs =
      pSafe.value * qSafe.value * (pSafe.value * qSafe.value) := by
    rw [T.modulus, Int.natAbs_mul, Int.natAbs_mul, Int.natAbs_natCast, Int.natAbs_natCast]
  have hd := isCoprime_squareOrder (sub_ne_zero.mpr hne) hp hq
  have hdn : IsCoprime (c - c') n := by
    rw [squareOrder, Nat.cast_mul] at hd
    have hright := hd.of_mul_right_right
    rwa [Nat.cast_mul] at hright
  obtain ⟨u, hu⟩ := exists_residue T hinv.u
  obtain ⟨v, hv⟩ := exists_residue T hinv.v
  obtain ⟨hsq, hentries⟩ := h.checks T hgen (sq_pow_squareOrder hN) hd hdn hn hu hv hinv.e
  have hmessages := mapM_extracted h.length h.length' hentries
  have hlen : ¬keypair.priKey.x1.length < ciphertext.e.length := by
    obtain ⟨t, rHat, rHat', hok, -⟩ := h.reconstructed
    rw [← h.length, hgen.y1.length_eq]
    exact not_lt.mpr <| length_le_of_reconstruct hok
  obtain ⟨a, ha⟩ := abs_ok hM₀ ciphertext.v
  have huSqr : keypair.pubKey.paillierGroup.exponentiate ciphertext.u
      (lshift1 (hash env ciphertext.u ciphertext.e label * keypair.priKey.x3 +
        keypair.priKey.x2)) = .ok (residue _ (v * v)) := by
    rw [hsq]
    exact (computes_modExp (one_lt_modulus T.modulus hn) hu _).eq_residue hM₀
  simp only [decrypt, if_neg hlen, ha, ok_bind, ite_error_bind_eq_ok_iff, huSqr, sqr_eq hM₀ hv,
    ne_eq, not_true_eq_false, if_false, hmessages, not_not, Except.ok.injEq]
  rw [eq_comm (a := a), eq_comm (a := messages)]

section Seventyseven

def keypair77 : CSKeypair where
  priKey := { x1 := [2], x2 := 3, x3 := 4 }
  pubKey :=
    { n := 77, twoInvTimes2 := 78, y1 := [4722], y2 := 4558, y3 := 4244
      paillierGroup := { g := 5714, h := 78, nBy4 := 19, modulus := 5929 } }

theorem new_keypair77 : CSKeypair.new 1 ⟨7, Nat.prime_seven, Nat.prime_three⟩
    ⟨11, Nat.prime_eleven, Nat.prime_five⟩
    { gPrime := 2, x1 := fun _ => 2, x2 := 3, x3 := 4 } = .ok keypair77 := by
  decide +kernel

-- The challenges are 5 and 3, and the message is 4.
theorem reconstructed_decrypts_seventyseven :
    let env : Env := .sorted (fun _ => List.replicate 32 1) fun _ => List.length_replicate
    let ciphertext : CSCiphertext := ⟨3754, [3749], 1207⟩
    reconstructBlindingsCiphertext env ciphertext [-11] (-35) 5 [] keypair77.pubKey =
        reconstructBlindingsCiphertext env ciphertext [-3] (-21) 3 [] keypair77.pubKey ∧
      decrypt env [] ciphertext keypair77.pubKey keypair77.priKey = .ok [4] := by
  intro env ciphertext
  have hok : reconstructBlindingsCiphertext env ciphertext [-11] (-35) 5 [] keypair77.pubKey =
      .ok ⟨1, [1387], 1⟩ := by
    decide +kernel
  have hok' : reconstructBlindingsCiphertext env ciphertext [-3] (-21) 3 [] keypair77.pubKey =
      .ok ⟨1, [1387], 1⟩ := by
    decide +kernel
  have hinv : Invertible ciphertext (7 * 11) :=
    { u := by decide, e := by decide, v := by decide }
  have hanswered : Answered env keypair77 ciphertext [] 5 3 [-11] [-3] :=
    ⟨rfl, rfl, _, _, _, hok, hok'⟩
  have hdecrypts := reconstructed_decrypts env new_keypair77 (by decide) hinv (by decide)
    (by decide) (by decide) hanswered [4]
  exact ⟨hok.trans hok'.symm, hdecrypts.mpr ⟨by decide +kernel, by decide +kernel⟩⟩

end Seventyseven

section Undecryptable

variable {M : ℤ}

theorem modExp_zero (hM : 1 < M.natAbs) {k : ℤ} (hk : 0 < k) : modExp 0 k M = .ok 0 := by
  have hM₀ := ne_zero_of_one_lt hM
  obtain ⟨y, hy⟩ := modExp_ok_of_nonneg (x := 0) hM₀ hk.le
  have hcast := modExp_pow hy hk.le
  rw [Int.cast_zero, zero_pow (by omega)] at hcast
  have hzero : (0 : ℤ) ≤ 0 ∧ (0 : ℤ) < M.natAbs := ⟨le_rfl, by omega⟩
  rw [hy, canonical_unique (modExp_canonical hy) hzero (hcast.trans Int.cast_zero.symm)]

theorem modMul_zero (hM : M ≠ 0) (a : ℤ) : modMul 0 a M = .ok 0 := by
  rw [modMul_eq_ok_iff]
  exact ⟨hM, by rw [zero_mul, Int.zero_emod]⟩

def zeros (k : ℕ) : CSCiphertext where
  u := 0
  e := List.replicate k 0
  v := 0

theorem index_replicate (hi : i < k) : index (List.replicate k (0 : BigNumber)) i = .ok 0 := by
  rw [index_eq_ok_iff, List.getElem?_replicate_of_lt hi]

theorem reconstruct_zeros (hgen : keypair.Generated n numMessages) (hn : 1 < n)
    (hs : s.length ≤ numMessages) (hc : 0 < c) (hr : 0 ≤ rHat) (label : List UInt8) :
    reconstructBlindingsCiphertext env (zeros s.length) s rHat c label keypair.pubKey =
      .ok (zeros s.length) := by
  have hM := one_lt_modulus hgen.modulus hn
  have hM₀ := ne_zero_of_one_lt hM
  obtain ⟨h, hh, -⟩ := exists_h hgen.modulus hgen.h hn
  have hlen : s.length ≤ keypair.pubKey.y1.length := by
    rwa [← hgen.y1.length_eq, hgen.length]
  have hpower := modExp_zero hM (k := 2 * c) (by omega)
  have hbase (x : ℤ) : ∃ y, modExp x (2 * rHat) keypair.pubKey.paillierGroup.modulus = .ok y :=
    modExp_ok_of_nonneg hM₀ (by omega)
  have hu : reconstructU (zeros s.length) rHat c keypair.pubKey = .ok 0 := by
    obtain ⟨g, hg⟩ := hbase keypair.pubKey.paillierGroup.g
    simp only [reconstructU, PaillierGroup.exponentiate, PaillierGroup.exponentiateG, zeros, hpower,
      hg, ok_bind, modMul_zero hM₀]
  have hv : reconstructV env (zeros s.length) rHat c label keypair.pubKey = .ok 0 := by
    obtain ⟨w, hw⟩ : ∃ w, checkBase (hash env (zeros s.length).u (zeros s.length).e label)
        keypair.pubKey = .ok w := by
      obtain ⟨y3Hs, hy3Hs⟩ := modExp_ok_of_nonneg (x := keypair.pubKey.y3) hM₀
        (getHashAsInt_nonneg env _)
      obtain ⟨w, hw⟩ := modMul_ok hM₀ keypair.pubKey.y2 y3Hs
      exact ⟨w, by rw [checkBase, PaillierGroup.exponentiate, hash, hy3Hs, ok_bind, hw]⟩
    obtain ⟨wHat, hwHat⟩ := hbase w
    have hvC : modExp (zeros s.length).v (2 * c) keypair.pubKey.paillierGroup.modulus = .ok 0 := hpower
    simp only [reconstructV, PaillierGroup.exponentiate, hvC, hw, hwHat, ok_bind, modMul_zero hM₀]
  have he : (List.range s.length).mapM
      (reconstructEntry (zeros s.length) s (2 * rHat) (2 * c) keypair.pubKey) =
        .ok (List.replicate s.length 0) := by
    rw [mapM_const (b := 0), List.length_range]
    intro i hi
    have hi := List.mem_range.mp hi
    obtain ⟨y, hy⟩ := hbase (keypair.pubKey.y1.getD i 0)
    obtain ⟨m, hm, -⟩ := computes_modExp hM hh (2 * s.getD i 0)
    simp only [reconstructEntry, PaillierGroup.exponentiate, PaillierGroup.exponentiateH, zeros,
      index_replicate hi, index_getD hi, index_getD (hi.trans_le hlen), lshift1, hpower, hy, hm,
      ok_bind, modMul_zero hM₀]
  rw [reconstruct_parts hlen, hu, ok_bind, he, ok_bind, hv, ok_bind]
  rfl

theorem not_decrypted_zeros (hgen : keypair.Generated n numMessages) (hn : 1 < n) (hk : 0 < k) :
    decrypt env label (zeros k) keypair.pubKey keypair.priKey ≠ .ok messages := by
  have hM := one_lt_modulus hgen.modulus hn
  obtain ⟨inv, hinv, htwo⟩ := hgen.twoInvTimes2
  have hpos : 0 < 2 * inv := by
    obtain ⟨-, -, -, hnonneg, -⟩ := inverse_eq_ok hinv
    have hne : inv ≠ 0 := by
      rintro rfl
      have hdvd := dvd_of_inverse hinv
      rw [zero_mul, zero_sub, dvd_neg] at hdvd
      exact absurd (Int.le_of_dvd one_pos hdvd) <| not_le.mpr hn
    exact mul_pos two_pos <| lt_of_le_of_ne hnonneg hne.symm
  intro h
  simp only [decrypt, ite_error_bind_eq_ok_iff, bind_eq_ok_iff] at h
  obtain ⟨-, -, -, -, -, -, -, -, -, hmessages⟩ := h
  have hlen : 0 < (zeros k).e.length := by
    rwa [zeros, List.length_replicate]
  obtain ⟨m, -, hentry⟩ := getElem?_of_mapM_range hmessages hlen
  simp only [decryptEntry, bind_eq_ok_iff] at hentry
  obtain ⟨x, -, uX1, -, uX1Inv, -, e, he, product, hproduct, mHat, hmHat, r, hr, hfinal⟩ := hentry
  obtain rfl := Except.ok.inj <| (index_replicate hk).symm.trans he
  rw [modMul_zero (ne_zero_of_one_lt hM)] at hproduct
  obtain rfl := Except.ok.inj hproduct
  rw [PaillierGroup.exponentiate, htwo, modExp_zero hM hpos] at hmHat
  obtain rfl := Except.ok.inj hmHat
  have hn₀ : n ≠ 0 := by omega
  rw [hgen.n, modulus, if_neg hn₀, Int.zero_emod] at hr
  obtain rfl := Except.ok.inj hr
  cases hfinal

-- Without inverses there is an answer to every challenge but 0, with any messages, for a ciphertext
-- that the owner of the keys can not decrypt.
theorem forged_reconstructed (env : Env) {draws : CSKeyDraws}
    (hkeypair : CSKeypair.ofModulus n numMessages draws = .ok keypair) (hn : 1 < n) (hk : 0 < k)
    (hle : k ≤ numMessages) (label : List UInt8) :
    (∀ (s : List BigNumber) (rHat c : BigNumber), s.length = k → 0 ≤ rHat → 0 < c →
      reconstructBlindingsCiphertext env (zeros k) s rHat c label keypair.pubKey = .ok (zeros k)) ∧
      ∀ messages, decrypt env label (zeros k) keypair.pubKey keypair.priKey ≠ .ok messages := by
  have hgen := CSKeypair.ofModulus_eq_ok hkeypair
  constructor
  case left =>
    rintro s rHat c rfl hr hc
    exact reconstruct_zeros hgen hn hle hc hr label
  case right => exact fun messages => not_decrypted_zeros hgen hn hk

theorem forged_reconstructed_seventyseven :
    let env : Env := .sorted (fun _ => List.replicate 32 1) fun _ => List.length_replicate
    (∀ c : BigNumber, 0 < c →
      reconstructBlindingsCiphertext env (zeros 1) [9] 8 c [] keypair77.pubKey = .ok (zeros 1)) ∧
      ∀ messages, decrypt env [] (zeros 1) keypair77.pubKey keypair77.priKey ≠ .ok messages := by
  intro env
  obtain ⟨hforged, hdecrypt⟩ := forged_reconstructed env new_keypair77 (by decide)
    one_pos le_rfl []
  exact ⟨fun c hc => hforged [9] 8 c rfl (by decide) hc, hdecrypt⟩

end Undecryptable

end VerifiableEncryption
end Ursa
