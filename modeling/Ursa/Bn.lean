import Ursa.Collections
import Ursa.Errors
import Ursa.Math.ModArith

namespace Ursa

-- What the code takes from outside: SHA-256, and the order in which a hash table is walked.
structure Env where
  sha256 : List UInt8 → List UInt8
  sha256_length : ∀ bs, (sha256 bs).length = 32
  hashOrder : Finset String → List String
  mem_hashOrder : ∀ s a, a ∈ hashOrder s ↔ a ∈ s
  nodup_hashOrder : ∀ s, (hashOrder s).Nodup

-- The entries of a hash table in the order in which it is walked.
def Env.iter (env : Env) (m : HashMap V) : List (String × V) :=
  (env.hashOrder m.keys).filterMap fun k => (m.lookup k).map (k, ·)

theorem Env.map_iter {env : Env} {m : HashMap V} {f : String × V → α} {g : String → α}
    (h : ∀ k v, m.lookup k = some v → f (k, v) = g k) :
    (env.iter m).map f = (env.hashOrder m.keys).map g := by
  rw [Env.iter, ← List.filterMap_eq_map, ← List.filterMap_eq_map, List.filterMap_filterMap]
  refine List.filterMap_congr fun k hk => ?_
  rw [env.mem_hashOrder, Finmap.mem_keys, Finmap.mem_iff] at hk
  obtain ⟨v, hv⟩ := hk
  simp [hv, h k v hv]

theorem Env.map_fst_iter {env : Env} {m : HashMap V} :
    (env.iter m).map Prod.fst = env.hashOrder m.keys := by
  rw [Env.map_iter fun _ _ _ => rfl, List.map_id']

-- Hash tables that are walked in ascending order of their keys.
def Env.sorted (sha256 : List UInt8 → List UInt8) (h : ∀ bs, (sha256 bs).length = 32) : Env where
  sha256 := sha256
  sha256_length := h
  hashOrder s := BTreeSet.iter s
  mem_hashOrder _ _ := BTreeSet.mem_iter
  nodup_hashOrder := BTreeSet.nodup_iter

-- `bn/openssl.rs`. A `BIGNUM` is a signed integer of any size.
abbrev BigNumber := ℤ

namespace BigNumber

open ModArith

-- The magnitude, big endian and without leading zeros; the sign is lost.
def toBytes (self : BigNumber) : List UInt8 :=
  (Nat.digits 256 self.natAbs).reverse.map UInt8.ofNat

def magnitude (bytes : List UInt8) : ℕ :=
  bytes.foldl (fun acc b => 256 * acc + b.toNat) 0

def fromBytes (bytes : List UInt8) : BigNumber :=
  (magnitude bytes : ℤ)

def hash (env : Env) (data : List UInt8) : List UInt8 :=
  env.sha256 data

def hashArray (env : Env) (nums : List (List UInt8)) : List UInt8 :=
  env.sha256 nums.flatten

def isNegative (self : BigNumber) : Bool :=
  self < 0

def setNegative (self : BigNumber) (negative : Bool) : BigNumber :=
  if negative then -(self.natAbs : ℤ) else self.natAbs

-- `BN_rshift1`
def rshift1 (self : BigNumber) : BigNumber :=
  Int.tdiv self 2

def rshift (self : BigNumber) (k : ℕ) : BigNumber :=
  Int.tdiv self (2 ^ k)

def lshift1 (self : BigNumber) : BigNumber :=
  2 * self

def sqr (self : BigNumber) : BigNumber :=
  self * self

-- `increment` reads the number back from its bytes.
def increment (self : BigNumber) : BigNumber :=
  self.natAbs + 1

-- So do `decrement` and `try_clone`, which sets the sign again.
def decrement (self : BigNumber) : BigNumber :=
  fromBytes self.toBytes - 1

def tryClone (self : BigNumber) : BigNumber :=
  setNegative (fromBytes self.toBytes) self.isNegative

-- `BN_div` rounds towards zero.
def div (self a : BigNumber) : UrsaCryptoResult BigNumber :=
  if a = 0 then .error opensslError else .ok (Int.tdiv self a)

-- `BN_nnmod`: the result is in `[0, |n|)`.
def modulus (self n : BigNumber) : UrsaCryptoResult BigNumber :=
  if n = 0 then .error opensslError else .ok (self % n)

def modMul (self a n : BigNumber) : UrsaCryptoResult BigNumber :=
  if n = 0 then .error opensslError else .ok (self * a % n)

def modSub (self a n : BigNumber) : UrsaCryptoResult BigNumber :=
  if n = 0 then .error opensslError else .ok ((self - a) % n)

-- `BN_mod_inverse`
def inverse (self n : BigNumber) : UrsaCryptoResult BigNumber :=
  if 1 < n.natAbs ∧ Int.gcd self n = 1 then .ok (Int.gcdA self n % n) else .error opensslError

-- `BN_mod_exp`, for an exponent without sign
def bnModExp (base : BigNumber) (e : ℕ) (n : BigNumber) : UrsaCryptoResult BigNumber :=
  if n = 0 then .error opensslError
  else .ok (powMod n.natAbs (base % n).toNat e)

def modExp (self a b : BigNumber) : UrsaCryptoResult BigNumber :=
  if a.isNegative then do
    let inv ← self.inverse b
    bnModExp inv a.natAbs b
  else bnModExp self a.natAbs b

-- `(a * (1/b mod p) mod p)`
def modDiv (self b p : BigNumber) : UrsaCryptoResult BigNumber := do
  let inv ← b.inverse p
  self.modMul inv p

end BigNumber

def getHashAsInt (env : Env) (nums : List (List UInt8)) : BigNumber :=
  BigNumber.fromBytes (BigNumber.hashArray env nums)

-- `bn_rand(size)` draws one of the numbers of at most `size` bits, each with the same probability.
abbrev BnRand (size : ℕ) := Fin (2 ^ size)

def BnRand.value (draw : BnRand size) : BigNumber :=
  draw.val

def BnRand.zero : BnRand size :=
  ⟨0, Nat.two_pow_pos size⟩

-- `gen_1 ^ m * gen_2 ^ r` modulo `modulus`
def getPedersenCommitment (gen₁ m gen₂ r modulus : BigNumber) : UrsaCryptoResult BigNumber := do
  let x ← gen₁.modExp m modulus
  let y ← gen₂.modExp r modulus
  x.modMul y modulus

namespace BigNumber

open ModArith

theorem fromBytes_nonneg : 0 ≤ fromBytes bytes :=
  Int.natCast_nonneg _

section Bytes

theorem magnitude_append (bytes : List UInt8) (b : UInt8) :
    magnitude (bytes ++ [b]) = 256 * magnitude bytes + b.toNat := by
  simp [magnitude]

theorem magnitude_zeros (k : ℕ) (bytes : List UInt8) :
    magnitude (List.replicate k 0 ++ bytes) = magnitude bytes := by
  induction k
  case zero => simp
  case succ k hi => simpa [magnitude, List.replicate_succ] using hi

theorem magnitude_lt (bytes : List UInt8) : magnitude bytes < 256 ^ bytes.length := by
  induction bytes using List.reverseRecOn
  case nil => simp [magnitude]
  case append_singleton bytes b hi =>
    rw [magnitude_append, List.length_append, List.length_singleton, pow_succ]
    have hb : b.toNat < 256 := b.toNat_lt
    omega

theorem magnitude_eq_zero_iff {bytes : List UInt8} : magnitude bytes = 0 ↔ ∀ b ∈ bytes, b = 0 := by
  induction bytes using List.reverseRecOn
  case nil => simp [magnitude]
  case append_singleton bytes b hi =>
    have hb : b.toNat = 0 ↔ b = 0 := UInt8.toNat_inj (b := 0)
    rw [magnitude_append, List.forall_mem_append, List.forall_mem_singleton, ← hi, ← hb]
    omega

theorem magnitude_injective {bytes bytes' : List UInt8} (hlen : bytes.length = bytes'.length)
    (h : magnitude bytes = magnitude bytes') : bytes = bytes' := by
  induction bytes using List.reverseRecOn generalizing bytes'
  case nil => exact (List.length_eq_zero_iff.mp hlen.symm).symm
  case append_singleton bytes b hi =>
    obtain ⟨rest, b', rfl⟩ : ∃ rest b', bytes' = rest ++ [b'] := by
      refine ⟨_, _, (List.dropLast_append_getLast fun hnil => ?_).symm⟩
      simp [hnil] at hlen
    rw [magnitude_append, magnitude_append] at h
    have hb := b.toNat_lt
    have hb' := b'.toNat_lt
    obtain rfl : b = b' := UInt8.toNat.inj (by omega)
    rw [hi (by simpa using hlen) (by omega)]

theorem fromBytes_hash_inj {env : Env} {bytes bytes' : List UInt8}
    (h : fromBytes (hash env bytes) = fromBytes (hash env bytes')) :
    hash env bytes = hash env bytes' := by
  have hlen : (hash env bytes).length = (hash env bytes').length :=
    (env.sha256_length _).trans (env.sha256_length _).symm
  exact magnitude_injective hlen <| Int.natCast_inj.mp h

theorem magnitude_digits (hd : ∀ d ∈ digits, d < 256) :
    magnitude (digits.reverse.map UInt8.ofNat) = Nat.ofDigits 256 digits := by
  induction digits
  case nil => simp [magnitude]
  case cons d digits hi =>
    rw [List.reverse_cons, List.map_append, List.map_singleton, magnitude_append,
      hi fun d hd' => hd d <| .tail _ hd', Nat.ofDigits_cons,
      UInt8.toNat_ofNat_of_lt' (hd d (.head _)), add_comm]

theorem magnitude_toBytes (x : ℤ) : magnitude (toBytes x) = x.natAbs := by
  rw [toBytes, magnitude_digits fun d hd => Nat.digits_lt_base (by decide) hd, Nat.ofDigits_digits]

theorem toBytes_length_le {x : ℤ} (h : x.natAbs < 256 ^ k) : (toBytes x).length ≤ k := by
  rw [toBytes, List.length_map, List.length_reverse]
  exact (Nat.digits_length_le_iff (by decide) _).mpr h

end Bytes

theorem inverse_ok {x n : ℤ} (hn : 1 < n.natAbs) (h : Int.gcd x n = 1) :
    ∃ y, inverse x n = .ok y := by
  simp [inverse, hn, h]

section Residues

variable {x y n a e : ℤ}

theorem ne_zero_of_one_lt (hn : 1 < n.natAbs) : n ≠ 0 := by
  rintro rfl
  simp at hn

theorem emod_canonical (hn : n ≠ 0) : 0 ≤ x % n ∧ x % n < n.natAbs := by
  refine ⟨Int.emod_nonneg _ hn, ?_⟩
  rw [Int.natCast_natAbs]
  exact Int.emod_lt_abs _ hn

theorem modMul_eq_ok_iff : modMul x a n = .ok y ↔ n ≠ 0 ∧ x * a % n = y := by
  unfold modMul
  split <;> simp_all

theorem inverse_eq_ok (h : inverse x n = .ok y) :
    1 < n.natAbs ∧ Int.gcd x n = 1 ∧ (x * y : ZMod n.natAbs) = 1 ∧ 0 ≤ y ∧ y < n.natAbs := by
  unfold inverse at h
  split at h
  case isFalse => cases h
  case isTrue hc =>
    injection h with h
    obtain ⟨hn, hg⟩ := hc
    refine ⟨hn, hg, ?_, h ▸ emod_canonical (ne_zero_of_one_lt hn)⟩
    have hbez : ((x * Int.gcdA x n + n * Int.gcdB x n : ℤ) : ZMod n.natAbs) = ((1 : ℕ) : ℤ) := by
      rw [← Int.gcd_eq_gcd_ab, hg]
    rw [← h, cast_emod]
    simpa using hbez

theorem dvd_of_inverse (h : inverse x n = .ok y) : n ∣ y * x - 1 := by
  have hxy := (inverse_eq_ok h).2.2.1
  rw [mul_comm, ← Int.cast_mul, ← Int.cast_one, eq_comm,
    ZMod.intCast_eq_intCast_iff_dvd_sub] at hxy
  exact Int.natAbs_dvd.mp hxy

theorem bnModExp_eq_ok_iff {e : ℕ} :
    bnModExp x e n = .ok y ↔ n ≠ 0 ∧ x ^ e % n = y := by
  unfold bnModExp
  split
  case isTrue => simp_all
  case isFalse hn =>
    have hpos : 0 < n.natAbs := Int.natAbs_pos.mpr hn
    have hcast : ((powMod n.natAbs (x % n).toNat e : ℕ) : ℤ) = x ^ e % n := by
      rw [powMod_eq hpos, Int.natCast_mod, Nat.cast_pow, Int.toNat_of_nonneg (Int.emod_nonneg _ hn),
        Int.natCast_natAbs, Int.emod_abs]
      exact (Int.mod_modEq x n).pow e
    simp [hcast, hn]

theorem modMul_canonical (h : modMul x a n = .ok y) : 0 ≤ y ∧ y < n.natAbs := by
  obtain ⟨hn, rfl⟩ := modMul_eq_ok_iff.mp h
  exact emod_canonical hn

theorem modMul_cast (h : modMul x a n = .ok y) : (y : ZMod n.natAbs) = x * a := by
  obtain ⟨-, rfl⟩ := modMul_eq_ok_iff.mp h
  simp

theorem inverse_unit {u : (ZMod n.natAbs)ˣ} (h : inverse x n = .ok y) (hx : (x : ZMod n.natAbs) = u) :
    (y : ZMod n.natAbs) = ↑u⁻¹ := by
  have hxy := (inverse_eq_ok h).2.2.1
  rw [hx] at hxy
  exact eq_comm.mp <| Units.inv_eq_of_mul_eq_one_right hxy

-- An element has an inverse exactly when its class is a unit.
theorem inverse_isUnit (h : inverse x n = .ok y) : IsUnit (x : ZMod n.natAbs) :=
  isUnit_cast_iff.mpr (inverse_eq_ok h).2.1

theorem inverse_ok_of_isUnit (hn : 1 < n.natAbs) (hx : IsUnit (x : ZMod n.natAbs)) :
    ∃ y, inverse x n = .ok y :=
  inverse_ok hn <| isUnit_cast_iff.mp hx

theorem modExp_of_nonneg (he : 0 ≤ e) : modExp x e n = bnModExp x e.natAbs n := by
  simp [modExp, isNegative, not_lt.mpr he]

theorem modExp_of_neg (he : e < 0) :
    modExp x e n = (inverse x n >>= fun inv => bnModExp inv e.natAbs n) := by
  simp [modExp, isNegative, he]

theorem one_emod (hn : 1 < n.natAbs) : (1 : ℤ) % n = 1 := by
  rw [← Int.emod_abs]
  exact Int.emod_eq_of_lt zero_le_one (by rw [← Int.natCast_natAbs]; omega)

theorem modExp_zero (hn : 1 < n.natAbs) : modExp x 0 n = .ok 1 := by
  have hn₀ := ne_zero_of_one_lt hn
  rw [modExp_of_nonneg le_rfl, bnModExp_eq_ok_iff]
  exact ⟨hn₀, by rw [Int.natAbs_zero, pow_zero, one_emod hn]⟩

theorem modExp_pow (h : modExp x e n = .ok y) (he : 0 ≤ e) :
    (y : ZMod n.natAbs) = (x : ZMod n.natAbs) ^ e.toNat := by
  obtain ⟨-, rfl⟩ := bnModExp_eq_ok_iff.mp <| modExp_of_nonneg he ▸ h
  rw [cast_emod, Int.cast_pow]
  congr 1
  omega

theorem modExp_canonical (h : modExp x e n = .ok y) : 0 ≤ y ∧ y < n.natAbs := by
  cases lt_or_ge e 0
  case inl he =>
    rw [modExp_of_neg he, UrsaCryptoResult.bind_eq_ok_iff] at h
    obtain ⟨inv, -, h⟩ := h
    obtain ⟨hn, rfl⟩ := bnModExp_eq_ok_iff.mp h
    exact emod_canonical hn
  case inr he =>
    obtain ⟨hn, rfl⟩ := bnModExp_eq_ok_iff.mp <| modExp_of_nonneg he ▸ h
    exact emod_canonical hn

theorem modExp_unit {u : (ZMod n.natAbs)ˣ} (h : modExp x e n = .ok y)
    (hx : (x : ZMod n.natAbs) = u) : (y : ZMod n.natAbs) = ↑(u ^ e) := by
  cases lt_or_ge e 0
  case inl he =>
    rw [modExp_of_neg he, UrsaCryptoResult.bind_eq_ok_iff] at h
    obtain ⟨inv, hinv, h⟩ := h
    obtain ⟨-, rfl⟩ := bnModExp_eq_ok_iff.mp h
    obtain ⟨k, rfl⟩ : ∃ k : ℕ, e = -(k : ℤ) := ⟨e.natAbs, by omega⟩
    rw [cast_emod, Int.cast_pow, inverse_unit hinv hx, zpow_neg, zpow_natCast, ← inv_pow]
    simp
  case inr he =>
    rw [modExp_pow h he, hx, ← Units.val_pow_eq_pow_val, ← zpow_natCast, Int.toNat_of_nonneg he]

theorem inverse_ok_iff : (∃ y, inverse x n = .ok y) ↔ 1 < n.natAbs ∧ Int.gcd x n = 1 := by
  unfold inverse
  split <;> simp_all

-- A power exists if no inverse is needed, or if there is one.
def PowDefined (x e n : ℤ) : Prop :=
  0 ≤ e ∨ 1 < n.natAbs ∧ Int.gcd x n = 1

theorem modExp_ok_iff : (∃ y, modExp x e n = .ok y) ↔ n ≠ 0 ∧ PowDefined x e n := by
  cases lt_or_ge e 0
  case inr he => simp [modExp_of_nonneg he, bnModExp_eq_ok_iff, PowDefined, he]
  case inl he =>
    simp only [modExp_of_neg he, UrsaCryptoResult.bind_eq_ok_iff, bnModExp_eq_ok_iff, PowDefined,
      not_le.mpr he, false_or, ← inverse_ok_iff]
    constructor
    case mp =>
      rintro ⟨-, inv, hinv, hn, -⟩
      exact ⟨hn, inv, hinv⟩
    case mpr =>
      rintro ⟨hn, inv, hinv⟩
      exact ⟨_, inv, hinv, hn, rfl⟩

-- A power with a negative exponent is there only for a unit, and takes its part of a power away.
theorem pow_mul_modExp {k : ℤ} {j l : ℕ} (h : modExp x k n = .ok y) (hjl : j + k = l) :
    (x : ZMod n.natAbs) ^ j * y = (x : ZMod n.natAbs) ^ l := by
  cases lt_or_ge k 0
  case inr hk =>
    rw [modExp_pow h hk, ← pow_add]
    congr 1
    omega
  case inl hk =>
    obtain ⟨-, hdefined⟩ := modExp_ok_iff.mp ⟨y, h⟩
    obtain ⟨-, hgcd⟩ := hdefined.resolve_left <| not_le.mpr hk
    obtain ⟨w, hw⟩ := isUnit_cast_iff.mpr hgcd
    rw [modExp_unit h hw.symm, ← hw, ← Units.val_pow_eq_pow_val, ← Units.val_pow_eq_pow_val,
      ← Units.val_mul, ← zpow_natCast, ← zpow_natCast, ← zpow_add, hjl]

theorem powDefined_of_unit {b : (ZMod n.natAbs)ˣ} (hn : 1 < n.natAbs)
    (hx : (x : ZMod n.natAbs) = b) (e : ℤ) : PowDefined x e n :=
  .inr ⟨hn, isUnit_cast_iff.mp <| hx ▸ b.isUnit⟩

theorem modMul_ok (hn : n ≠ 0) (x a : ℤ) : ∃ y, modMul x a n = .ok y := by
  simp [modMul, hn]

theorem modExp_ok_of_nonneg (hn : n ≠ 0) (he : 0 ≤ e) : ∃ y, modExp x e n = .ok y := by
  simp [modExp_of_nonneg he, bnModExp_eq_ok_iff, hn]

theorem modExp_ok_of_isUnit (hn : 1 < n.natAbs) (hx : IsUnit (x : ZMod n.natAbs)) :
    ∃ y, modExp x e n = .ok y := by
  have hn₀ := ne_zero_of_one_lt hn
  cases lt_or_ge e 0
  case inr he => exact modExp_ok_of_nonneg hn₀ he
  case inl he =>
    obtain ⟨inv, hinv⟩ := inverse_ok_of_isUnit hn hx
    simp [modExp_of_neg he, hinv, bnModExp_eq_ok_iff, hn₀]

-- A power that is used is a unit only if the base is one.
def PowUnit (x e n : ℤ) : Prop :=
  e = 0 ∨ Int.gcd x n = 1

theorem isUnit_modExp_iff (hn : 1 < n.natAbs) (h : modExp x e n = .ok y) :
    IsUnit (y : ZMod n.natAbs) ↔ PowUnit x e n := by
  rw [PowUnit, ← isUnit_cast_iff]
  obtain he | rfl | he := lt_trichotomy e 0
  · obtain ⟨-, hdefined⟩ := modExp_ok_iff.mp ⟨y, h⟩
    obtain ⟨u, hu⟩ := isUnit_cast_iff.mpr (hdefined.resolve_left <| not_le.mpr he).2
    rw [modExp_unit h hu.symm, ← hu]
    simp
  · rw [modExp_zero hn] at h
    injection h with h
    simp [← h]
  · obtain ⟨-, rfl⟩ := bnModExp_eq_ok_iff.mp <| modExp_of_nonneg he.le ▸ h
    rw [cast_emod, Int.cast_pow, isUnit_pow_iff (by omega)]
    exact ⟨.inr, fun h => h.resolve_left he.ne'⟩

theorem modExp_ok_of_powUnit (hn : 1 < n.natAbs) (h : PowUnit x e n) :
    ∃ y, modExp x e n = .ok y ∧ IsUnit (y : ZMod n.natAbs) := by
  have hok : ∃ y, modExp x e n = .ok y := by
    rcases h with rfl | h
    · exact ⟨1, modExp_zero hn⟩
    · exact modExp_ok_of_isUnit hn <| isUnit_cast_iff.mpr h
  exact hok.imp fun y hy => ⟨hy, (isUnit_modExp_iff hn hy).mpr h⟩

theorem modDiv_ok (hn : 1 < n.natAbs) (ha : IsUnit (a : ZMod n.natAbs)) (x : ℤ) :
    ∃ y, modDiv x a n = .ok y := by
  obtain ⟨inv, hinv⟩ := inverse_ok_of_isUnit hn ha
  obtain ⟨y, hy⟩ := modMul_ok (ne_zero_of_one_lt hn) x inv
  exact ⟨y, by rw [modDiv, hinv, UrsaCryptoResult.ok_bind, hy]⟩

theorem modDiv_eq_ok (h : modDiv x a n = .ok y) :
    ∃ u : (ZMod n.natAbs)ˣ, (a : ZMod n.natAbs) = u ∧ (y : ZMod n.natAbs) = x * ↑u⁻¹ := by
  simp only [modDiv, UrsaCryptoResult.bind_eq_ok_iff] at h
  obtain ⟨inv, hinv, h⟩ := h
  obtain ⟨u, hu⟩ := inverse_isUnit hinv
  exact ⟨u, hu.symm, by rw [modMul_cast h, inverse_unit hinv hu.symm]⟩

theorem modDiv_unit {u v : (ZMod n.natAbs)ˣ} (h : modDiv x a n = .ok y)
    (hx : (x : ZMod n.natAbs) = u) (ha : (a : ZMod n.natAbs) = v) :
    (y : ZMod n.natAbs) = ↑(u / v) := by
  obtain ⟨w, hw, hy⟩ := modDiv_eq_ok h
  obtain rfl : v = w := Units.ext <| ha.symm.trans hw
  rw [hy, hx, ← Units.val_mul, div_eq_mul_inv]

theorem getPedersenCommitment_ok {g₁ m g₂ r : ℤ} (hn : n ≠ 0) (hm : PowDefined g₁ m n)
    (hr : PowDefined g₂ r n) : ∃ y, getPedersenCommitment g₁ m g₂ r n = .ok y := by
  obtain ⟨x, hx⟩ := modExp_ok_iff.mpr ⟨hn, hm⟩
  obtain ⟨y, hy⟩ := modExp_ok_iff.mpr ⟨hn, hr⟩
  obtain ⟨z, hz⟩ := modMul_ok hn x y
  exact ⟨z, by simp [getPedersenCommitment, hx, hy, hz]⟩

end Residues

section Panics

open UrsaCryptoResult

variable {x n a e : ℤ}

theorem not_panics_inverse : ¬Panics (inverse x n) := by
  unfold inverse
  split
  · exact not_panics_ok
  · exact not_panics_err

theorem not_panics_bnModExp : ¬Panics (bnModExp x k n) := by
  unfold bnModExp
  split
  · exact not_panics_err
  · exact not_panics_ok

theorem not_panics_modExp : ¬Panics (modExp x e n) := by
  unfold modExp
  split
  · exact not_panics_bind not_panics_inverse fun _ _ => not_panics_bnModExp
  · exact not_panics_bnModExp

theorem not_panics_modMul : ¬Panics (modMul x a n) := by
  unfold modMul
  split
  · exact not_panics_err
  · exact not_panics_ok

theorem not_panics_modDiv : ¬Panics (modDiv x a n) :=
  not_panics_bind not_panics_inverse fun _ _ => not_panics_modMul

theorem not_panics_modSub : ¬Panics (modSub x a n) := by
  unfold modSub
  split
  · exact not_panics_err
  · exact not_panics_ok

theorem not_panics_getPedersenCommitment {g₁ m g₂ r : ℤ} :
    ¬Panics (getPedersenCommitment g₁ m g₂ r n) :=
  not_panics_bind not_panics_modExp fun _ _ =>
    not_panics_bind not_panics_modExp fun _ _ => not_panics_modMul

end Panics

section Computes

variable {n x a e : ℤ} {u w : (ZMod n.natAbs)ˣ} {result result' : UrsaCryptoResult BigNumber}

-- The result is the canonical residue of `u`. Two computations of one unit have one result.
def Computes (n : ℤ) (result : UrsaCryptoResult BigNumber) (u : (ZMod n.natAbs)ˣ) : Prop :=
  ∃ y, result = .ok y ∧ (0 ≤ y ∧ y < n.natAbs) ∧ (y : ZMod n.natAbs) = u

theorem Computes.unique (h : Computes n result u) (h' : Computes n result' u) :
    result = result' := by
  obtain ⟨y, rfl, hy, hcast⟩ := h
  obtain ⟨y', rfl, hy', hcast'⟩ := h'
  rw [canonical_unique hy hy' <| hcast.trans hcast'.symm]

theorem Computes.cast (h : Computes n (.ok x) u) : (x : ZMod n.natAbs) = u := by
  obtain ⟨y, hy, -, hcast⟩ := h
  rwa [Except.ok.inj hy]

theorem Computes.bind {f : BigNumber → UrsaCryptoResult BigNumber} (h : Computes n result u)
    (hf : ∀ y : ℤ, (y : ZMod n.natAbs) = u → Computes n (f y) w) : Computes n (result >>= f) w := by
  obtain ⟨y, rfl, -, hcast⟩ := h
  exact hf y hcast

theorem computes_modMul (hn : n ≠ 0) (hx : (x : ZMod n.natAbs) = u)
    (ha : (a : ZMod n.natAbs) = w) : Computes n (modMul x a n) (u * w) := by
  obtain ⟨y, hy⟩ := modMul_ok hn x a
  exact ⟨y, hy, modMul_canonical hy, by rw [modMul_cast hy, hx, ha, Units.val_mul]⟩

theorem computes_modExp (hn : 1 < n.natAbs) (hx : (x : ZMod n.natAbs) = u) (e : ℤ) :
    Computes n (modExp x e n) (u ^ e) := by
  obtain ⟨y, hy⟩ := modExp_ok_of_isUnit (e := e) hn (hx ▸ u.isUnit)
  exact ⟨y, hy, modExp_canonical hy, modExp_unit hy hx⟩

theorem computes_inverse (hn : 1 < n.natAbs) (hx : (x : ZMod n.natAbs) = u) :
    Computes n (inverse x n) u⁻¹ := by
  obtain ⟨y, hy⟩ := inverse_ok_of_isUnit hn (hx ▸ u.isUnit)
  exact ⟨y, hy, (inverse_eq_ok hy).2.2.2, inverse_unit hy hx⟩

theorem computes_modDiv (hn : 1 < n.natAbs) (hx : (x : ZMod n.natAbs) = u)
    (ha : (a : ZMod n.natAbs) = w) : Computes n (modDiv x a n) (u / w) := by
  rw [div_eq_mul_inv]
  exact (computes_inverse hn ha).bind fun _ hinv => computes_modMul (ne_zero_of_one_lt hn) hx hinv

theorem computes_getPedersenCommitment (hn : 1 < n.natAbs) (hx : (x : ZMod n.natAbs) = u)
    (ha : (a : ZMod n.natAbs) = w) (m r : ℤ) :
    Computes n (getPedersenCommitment x m a r n) (u ^ m * w ^ r) :=
  (computes_modExp hn hx m).bind fun _ hy => (computes_modExp hn ha r).bind fun _ hz =>
    computes_modMul (ne_zero_of_one_lt hn) hy hz

-- Lists of residues are equal if they stand for the same classes.
theorem residues_unique {l l' : List BigNumber}
    (hl : ∀ x ∈ l, (0 : ℤ) ≤ x ∧ x < n.natAbs) (hl' : ∀ x ∈ l', (0 : ℤ) ≤ x ∧ x < n.natAbs)
    (hcast : l.map (fun x : BigNumber => (x : ZMod n.natAbs)) =
      l'.map fun x : BigNumber => (x : ZMod n.natAbs)) : l = l' := by
  induction l generalizing l'
  case nil => exact (List.map_eq_nil_iff.mp hcast.symm).symm
  case cons x l hi =>
    cases l'
    case nil => cases hcast
    case cons x' l' =>
      obtain ⟨hx, hcast⟩ := List.cons.inj hcast
      obtain ⟨hcanon, hl⟩ := List.forall_mem_cons.mp hl
      obtain ⟨hcanon', hl'⟩ := List.forall_mem_cons.mp hl'
      rw [canonical_unique hcanon hcanon' hx, hi hl hl' hcast]

-- The number in `[0, |n|)` that stands for a unit.
def residue (n : ℤ) (u : (ZMod n.natAbs)ˣ) : BigNumber :=
  ((u : ZMod n.natAbs).val : ℤ)

theorem cast_residue (hn : n ≠ 0) : ((residue n u : ℤ) : ZMod n.natAbs) = u := by
  have : NeZero n.natAbs := ⟨Int.natAbs_ne_zero.mpr hn⟩
  rw [residue, Int.cast_natCast, ZMod.natCast_zmod_val]

theorem residue_canonical (hn : n ≠ 0) : 0 ≤ residue n u ∧ residue n u < n.natAbs := by
  have : NeZero n.natAbs := ⟨Int.natAbs_ne_zero.mpr hn⟩
  exact ⟨Int.natCast_nonneg _, Int.ofNat_lt.mpr <| ZMod.val_lt _⟩

theorem Computes.eq_residue (hn : n ≠ 0) (h : Computes n result u) :
    result = .ok (residue n u) := by
  obtain ⟨y, rfl, hy, hcast⟩ := h
  rw [canonical_unique hy (residue_canonical hn) <| hcast.trans (cast_residue hn).symm]

-- A loop that multiplies one factor to the accumulator in every round.
theorem computes_foldlM {α : Type} {f : BigNumber → α → UrsaCryptoResult BigNumber} {l : List α}
    (g : α → (ZMod n.natAbs)ˣ)
    (step : ∀ b ∈ l, ∀ (y : ℤ) (w : (ZMod n.natAbs)ˣ), (y : ZMod n.natAbs) = w →
      Computes n (f y b) (g b * w)) (h : Computes n result u) :
    Computes n (result >>= fun y => l.foldlM f y) ((l.map g).prod * u) := by
  induction l generalizing result u
  case nil =>
    obtain ⟨y, rfl, hy⟩ := h
    rw [List.map_nil, List.prod_nil, one_mul]
    exact ⟨y, rfl, hy⟩
  case cons b l hi =>
    have hstep := h.bind fun y hy => step b (.head _) y u hy
    have hrest := hi (fun b hb => step b <| .tail _ hb) hstep
    rw [List.map_cons, List.prod_cons, mul_right_comm, mul_comm (g b * u)]
    obtain ⟨y, rfl, -⟩ := h
    exact hrest

-- The same for a loop that carries the result along.
theorem computes_foldResult {α : Type}
    {f : UrsaCryptoResult BigNumber → α → UrsaCryptoResult BigNumber} {l : List α}
    (g : α → (ZMod n.natAbs)ˣ)
    (step : ∀ b ∈ l, ∀ result u, Computes n result u → Computes n (f result b) (g b * u))
    (h : Computes n result u) : Computes n (foldResult f result l) ((l.map g).prod * u) := by
  induction l generalizing result u
  case nil => rwa [List.map_nil, List.prod_nil, one_mul]
  case cons b l hi =>
    have hrest := hi (fun b hb => step b <| .tail _ hb) <| step b (.head _) result u h
    obtain ⟨y, rfl, -⟩ := h
    rwa [List.map_cons, List.prod_cons, mul_right_comm, mul_comm (g b * u)]

end Computes
end BigNumber

theorem getHashAsInt_congr {env env' : Env} (h : env.sha256 = env'.sha256)
    (nums : List (List UInt8)) : getHashAsInt env nums = getHashAsInt env' nums := by
  rw [getHashAsInt, getHashAsInt, BigNumber.hashArray, BigNumber.hashArray, h]

theorem getHashAsInt_nonneg (env : Env) (nums : List (List UInt8)) : 0 ≤ getHashAsInt env nums :=
  BigNumber.fromBytes_nonneg

theorem getHashAsInt_lt (env : Env) (nums : List (List UInt8)) :
    getHashAsInt env nums < 256 ^ 32 := by
  have hlt := BigNumber.magnitude_lt (BigNumber.hashArray env nums)
  rw [BigNumber.hashArray, env.sha256_length] at hlt
  exact Int.ofNat_lt.mpr hlt

end Ursa
