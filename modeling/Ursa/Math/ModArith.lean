import Mathlib.Data.ZMod.Basic
import Mathlib.Data.ZMod.Units
import Mathlib.FieldTheory.Finite.Basic
import Mathlib.NumberTheory.LucasPrimality

namespace ModArith

-- Square and multiply: `acc * b ^ e` modulo `n`, by one recursion step for each bit of `e`.
def powModAux (n : ℕ) : ℕ → ℕ → ℕ → ℕ → ℕ
  | 0, _, _, acc => acc
  | fuel + 1, b, e, acc =>
    if e = 0 then acc
    else powModAux n fuel (b * b % n) (e / 2) (if e % 2 = 1 then acc * b % n else acc)

def powMod (n b e : ℕ) : ℕ :=
  powModAux n (Nat.log2 e + 1) (b % n) e (1 % n)

theorem powModAux_modEq (b acc : ℕ) (h : e < 2 ^ fuel) :
    powModAux n fuel b e acc ≡ acc * b ^ e [MOD n] := by
  induction fuel generalizing b e acc
  case zero =>
    obtain rfl : e = 0 := by omega
    simpa [powModAux] using Nat.ModEq.refl acc
  case succ fuel hi =>
    by_cases he : e = 0
    case pos => simpa [powModAux, he] using Nat.ModEq.refl acc
    case neg =>
      have hlt : e / 2 < 2 ^ fuel := by rw [pow_succ] at h; omega
      have hsq : (b * b % n) ^ (e / 2) ≡ b ^ (2 * (e / 2)) [MOD n] := by
        rw [pow_mul, pow_two]
        exact (Nat.mod_modEq _ _).pow _
      have hstep := hi (b * b % n) (if e % 2 = 1 then acc * b % n else acc) hlt
      simp only [powModAux, he, if_false]
      refine hstep.trans <| (Nat.ModEq.mul_left _ hsq).trans ?_
      split
      case isTrue hodd =>
        have hexp : b ^ e = b * b ^ (2 * (e / 2)) := by rw [← pow_succ']; congr 1; omega
        rw [hexp, ← mul_assoc]
        exact (Nat.mod_modEq _ _).mul_right _
      case isFalse heven =>
        have hexp : 2 * (e / 2) = e := by omega
        rw [hexp]

theorem powModAux_lt (hn : 0 < n) (ha : acc < n) : powModAux n fuel b e acc < n := by
  induction fuel generalizing b e acc
  case zero => exact ha
  case succ fuel hi =>
    by_cases he : e = 0
    case pos => simpa [powModAux, he] using ha
    case neg =>
      simp only [powModAux, he, if_false]
      apply hi
      split
      · exact Nat.mod_lt _ hn
      · exact ha

theorem powMod_eq (hn : 0 < n) : powMod n b e = b ^ e % n := by
  have hlt : e < 2 ^ (Nat.log2 e + 1) := Nat.lt_log2_self
  have hm : powMod n b e ≡ b ^ e [MOD n] := by
    refine (powModAux_modEq _ _ hlt).trans ?_
    have h1 : 1 % n * (b % n) ^ e ≡ 1 * b ^ e [MOD n] :=
      (Nat.mod_modEq _ _).mul <| (Nat.mod_modEq _ _).pow _
    simpa using h1
  have hbound : powMod n b e < n := powModAux_lt hn (Nat.mod_lt _ hn)
  rw [← Nat.mod_eq_of_lt hbound]
  exact hm

theorem cast_powMod (hn : 0 < n) (b e : ℕ) : ((powMod n b e : ℕ) : ZMod n) = (b : ZMod n) ^ e := by
  rw [powMod_eq hn, ZMod.natCast_mod, Nat.cast_pow]

-- A prime is recognised by a primitive root, computed with `powMod`.
theorem prime_of_powMod {p b : ℕ} (hp : 1 < p) (hone : powMod p b (p - 1) = 1)
    (hroot : ∀ q, q.Prime → q ∣ p - 1 → powMod p b ((p - 1) / q) ≠ 1) : p.Prime := by
  have hpos : 0 < p := by omega
  refine lucas_primality p b ?_ fun q hq hdvd h => hroot q hq hdvd ?_
  · rw [← cast_powMod hpos, hone, Nat.cast_one]
  · have hmod := congrArg ZMod.val <| (cast_powMod hpos b ((p - 1) / q)).trans h
    have : Fact (1 < p) := ⟨hp⟩
    have hlt : powMod p b ((p - 1) / q) < p := powModAux_lt hpos (Nat.mod_lt _ hpos)
    rwa [ZMod.val_natCast_of_lt hlt, ZMod.val_one] at hmod

section Residues

variable {n : ℤ} {N : ℕ}

@[simp]
theorem cast_self_natAbs (n : ℤ) : ((n : ℤ) : ZMod n.natAbs) = 0 := by
  rw [ZMod.intCast_zmod_eq_zero_iff_dvd]
  exact Int.natAbs_dvd.mpr dvd_rfl

@[simp]
theorem cast_emod (x n : ℤ) : ((x % n : ℤ) : ZMod n.natAbs) = x := by
  rw [Int.emod_def]
  push_cast
  simp

-- A residue in `[0, |n|)` is determined by its class.
theorem canonical_unique {x y : ℤ} (hx : 0 ≤ x ∧ x < n.natAbs) (hy : 0 ≤ y ∧ y < n.natAbs)
    (h : (x : ZMod n.natAbs) = y) : x = y := by
  have hd := (ZMod.intCast_eq_intCast_iff_dvd_sub _ _ _).mp h
  have hz := Int.eq_zero_of_abs_lt_dvd hd (by rw [abs_lt]; omega)
  omega

theorem isUnit_cast_iff {x : ℤ} : IsUnit (x : ZMod n.natAbs) ↔ Int.gcd x n = 1 := by
  rw [ZMod.coe_int_isUnit_iff_isCoprime, Int.isCoprime_iff_gcd_eq_one, Int.gcd_comm]
  simp [Int.gcd, Int.natAbs_abs]

end Residues

-- The squares modulo a product of two odd primes.
theorem sq_pow_half_mul_half {P Q : ℕ} [Fact P.Prime] [Fact Q.Prime] (hne : P ≠ Q)
    (hP : 2 * (P / 2) = P - 1) (hQ : 2 * (Q / 2) = Q - 1) (u : (ZMod (P * Q))ˣ) :
    (u ^ 2) ^ (P / 2 * (Q / 2)) = 1 := by
  have hcoprime : P.Coprime Q := (Nat.coprime_primes Fact.out Fact.out).mpr hne
  let f := ZMod.chineseRemainder hcoprime
  obtain ⟨⟨x, hx⟩, ⟨y, hy⟩⟩ := Prod.isUnit_iff.mp <| u.isUnit.map f
  have hf : f ((u ^ 2) ^ (P / 2 * (Q / 2)) : ZMod (P * Q)) = 1 := by
    rw [← pow_mul, map_pow]
    refine Prod.ext ?fst ?snd
    case fst =>
      rw [Prod.pow_fst, ← hx, ← mul_assoc, hP, pow_mul, ← Units.val_pow_eq_pow_val,
        ZMod.units_pow_card_sub_one_eq_one, Units.val_one, one_pow, Prod.fst_one]
    case snd =>
      rw [Prod.pow_snd, ← hy, mul_left_comm, hQ, mul_comm, pow_mul, ← Units.val_pow_eq_pow_val,
        ZMod.units_pow_card_sub_one_eq_one, Units.val_one, one_pow, Prod.snd_one]
  refine Units.ext <| f.injective ?_
  rw [Units.val_pow_eq_pow_val, Units.val_pow_eq_pow_val, hf, Units.val_one, map_one]

-- With one prime twice the order has that prime as well.
theorem sq_pow_mul_half_mul_half {P Q : ℕ} [Fact P.Prime] [Fact Q.Prime]
    (hP : 2 * (P / 2) = P - 1) (hQ : 2 * (Q / 2) = Q - 1) (u : (ZMod (P * Q))ˣ) :
    (u ^ 2) ^ (P * (P / 2 * (Q / 2))) = 1 := by
  by_cases hne : P = Q
  case neg =>
    rw [mul_comm P (P / 2 * (Q / 2)), pow_mul, sq_pow_half_mul_half hne hP hQ, one_pow]
  case pos =>
    subst hne
    have hprime : P.Prime := Fact.out
    have htotient : (P * P).totient = 2 * (P * (P / 2)) := by
      rw [← pow_two, Nat.totient_prime_pow_succ hprime, pow_one, ← hP]
      ring
    rw [← mul_assoc, pow_mul, ← pow_mul u, ← htotient, ZMod.pow_totient, one_pow]

end ModArith
