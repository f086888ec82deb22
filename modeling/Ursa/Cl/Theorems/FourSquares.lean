import Mathlib.NumberTheory.SumFourSquares
import Ursa.Cl.Theorems.Helpers

namespace Ursa

variable {d k : ℕ} {roots : Roots}

def Roots.sumOfSquares (roots : Roots) : ℕ :=
  roots.r0 ^ 2 + roots.r1 ^ 2 + roots.r2 ^ 2 + roots.r3 ^ 2

-- Four squares whose roots do not increase, so that those which are 0 come last.
theorem exists_antitone_squares (d : ℕ) :
    ∃ a b c e, a ^ 2 + b ^ 2 + c ^ 2 + e ^ 2 = d ∧ b ≤ a ∧ c ≤ b ∧ e ≤ c := by
  obtain ⟨a, b, c, e, rfl⟩ := Nat.sum_four_squares d
  let l := [a, b, c, e].insertionSort (· ≥ ·)
  have hperm : l.Perm [a, b, c, e] := List.perm_insertionSort _ _
  have hsorted : l.Pairwise (· ≥ ·) := List.pairwise_insertionSort _ _
  have hsum : (l.map (· ^ 2)).sum = a ^ 2 + b ^ 2 + c ^ 2 + e ^ 2 := by
    rw [(hperm.map _).sum_eq]
    simp [add_assoc]
  obtain ⟨a', b', c', e', hl⟩ : ∃ a' b' c' e', l = [a', b', c', e'] := by
    have hlen := hperm.length_eq
    match l, hlen with
    | [a', b', c', e'], _ => exact ⟨a', b', c', e', rfl⟩
  rw [hl] at hsum hsorted
  refine ⟨a', b', c', e', by simpa [add_assoc] using hsum, ?_, ?_, ?_⟩
  all_goals simp_all

section Loops

variable {a b c e : ℕ}

-- The inner loops keep the roots of the outer ones.
structure Loop2Spec (d : ℕ) (roots : Roots) (run : Bool × Roots) : Prop where
  r0 : run.2.r0 = roots.r0
  r1 : run.2.r1 = roots.r1
  sum : run.1 = true → run.2.sumOfSquares = d

structure Loop1Spec (d : ℕ) (roots : Roots) (run : Bool × Roots) : Prop where
  r0 : run.2.r0 = roots.r0
  sum : run.1 = true → run.2.sumOfSquares = d

theorem fourSquaresLoop2_spec (d : ℕ) (roots : Roots) (k : ℕ) :
    Loop2Spec d roots (fourSquaresLoop2 d roots k) := by
  induction k generalizing roots
  case zero => exact ⟨rfl, rfl, fun h => by cases h⟩
  case succ k hi =>
    unfold fourSquaresLoop2
    dsimp only
    split
    case isTrue heq => exact ⟨rfl, rfl, fun _ => by simpa [Roots.sumOfSquares] using heq.symm⟩
    case isFalse =>
      split
      case isTrue heq => exact ⟨rfl, rfl, fun _ => heq.symm⟩
      case isFalse => exact ⟨(hi _).r0, (hi _).r1, (hi _).sum⟩

-- The loop does not pass by the root `c`.
theorem fourSquaresLoop2_found (hd : roots.r0 ^ 2 + roots.r1 ^ 2 + c ^ 2 + e ^ 2 = d) (hc : 0 < c)
    (hle : c ≤ k) : (fourSquaresLoop2 d roots k).1 = true := by
  induction k generalizing roots
  case zero => omega
  case succ k hi =>
    unfold fourSquaresLoop2
    dsimp only
    split
    case isTrue => rfl
    case isFalse =>
      split
      case isTrue => rfl
      case isFalse hne =>
        obtain rfl | hlt := hle.eq_or_lt
        case inl =>
          refine absurd ?_ hne
          have hrest : d - roots.r0 ^ 2 - roots.r1 ^ 2 - (k + 1) ^ 2 = e ^ 2 := by omega
          rw [hrest, largestSquareLessThan, Nat.sqrt_eq']
          exact hd.symm
        case inr => exact hi hd (by omega)

theorem fourSquaresLoop1_spec (d : ℕ) (roots : Roots) (k : ℕ) :
    Loop1Spec d roots (fourSquaresLoop1 d roots k) := by
  induction k generalizing roots
  case zero => exact ⟨rfl, fun h => by cases h⟩
  case succ k hi =>
    unfold fourSquaresLoop1
    dsimp only
    split
    case isTrue heq => exact ⟨rfl, fun _ => by simpa [Roots.sumOfSquares] using heq.symm⟩
    case isFalse =>
      split
      all_goals
        rename_i roots' heq
        have hspec := fourSquaresLoop2_spec d
          { roots with r1 := k + 1, r2 := largestSquareLessThan (d - roots.r0 ^ 2 - (k + 1) ^ 2) }
          (largestSquareLessThan (d - roots.r0 ^ 2 - (k + 1) ^ 2))
        rw [heq] at hspec
      case h_1 => exact ⟨hspec.r0, hspec.sum⟩
      case h_2 => exact ⟨(hi _).r0.trans hspec.r0, (hi _).sum⟩

theorem fourSquaresLoop1_found (hd : roots.r0 ^ 2 + b ^ 2 + c ^ 2 + e ^ 2 = d) (hb : 0 < b)
    (hle : b ≤ k) (hce : e ≤ c) : (fourSquaresLoop1 d roots k).1 = true := by
  induction k generalizing roots
  case zero => omega
  case succ k hi =>
    let r2 := largestSquareLessThan (d - roots.r0 ^ 2 - (k + 1) ^ 2)
    have hspec := fourSquaresLoop2_spec d { roots with r1 := k + 1, r2 := r2 } r2
    unfold fourSquaresLoop1
    dsimp only
    split
    case isTrue => rfl
    case isFalse hne =>
      split
      case h_1 => rfl
      case h_2 heq =>
        rw [heq] at hspec
        obtain rfl | hlt := hle.eq_or_lt
        case inl =>
          have hc : 0 < c := by
            refine Nat.pos_of_ne_zero fun hc => hne ?_
            obtain rfl : e = 0 := by omega
            simpa [hc] using hd.symm
          have hsqrt : c ≤ r2 := Nat.le_sqrt'.mpr (by omega)
          have hfound : (fourSquaresLoop2 d { roots with r1 := k + 1, r2 := r2 } r2).1 = true :=
            fourSquaresLoop2_found hd hc hsqrt
          rw [heq] at hfound
          cases hfound
        case inr => exact hi (hspec.r0 ▸ hd) (by omega)

theorem fourSquaresLoop0_sum (h : (fourSquaresLoop0 d roots k).1 = true) :
    (fourSquaresLoop0 d roots k).2.sumOfSquares = d := by
  induction k generalizing roots
  case zero => cases h
  case succ k hi =>
    unfold fourSquaresLoop0 at h ⊢
    dsimp only at h ⊢
    split
    case isTrue heq => simpa [Roots.sumOfSquares] using heq.symm
    case isFalse hne =>
      rw [if_neg hne] at h
      split
      case h_1 heq =>
        have hsum := (fourSquaresLoop1_spec d _ _).sum (congrArg Prod.fst heq)
        rwa [heq] at hsum
      case h_2 heq =>
        rw [heq] at h
        exact hi h

theorem fourSquaresLoop0_found (hd : a ^ 2 + b ^ 2 + c ^ 2 + e ^ 2 = d) (ha : 0 < a) (hle : a ≤ k)
    (hcb : c ≤ b) (hce : e ≤ c) : (fourSquaresLoop0 d roots k).1 = true := by
  induction k generalizing roots
  case zero => omega
  case succ k hi =>
    unfold fourSquaresLoop0
    dsimp only
    split
    case isTrue => rfl
    case isFalse hne =>
      split
      case h_1 => rfl
      case h_2 heq =>
        obtain rfl | hlt := hle.eq_or_lt
        case inl =>
          have hb : 0 < b := by
            refine Nat.pos_of_ne_zero fun hb => hne ?_
            obtain rfl : c = 0 := by omega
            obtain rfl : e = 0 := by omega
            simpa [hb] using hd.symm
          let r1 := largestSquareLessThan (d - (k + 1) ^ 2)
          have hsqrt : b ≤ r1 := Nat.le_sqrt'.mpr (by omega)
          have hfound : (fourSquaresLoop1 d { roots with r0 := k + 1, r1 := r1 } r1).1 = true :=
            fourSquaresLoop1_found hd hb hsqrt hce
          rw [heq] at hfound
          cases hfound
        case inr => exact hi (by omega)

end Loops

-- The search finds four squares of every number.
theorem fourSquaresLoop0_sumOfSquares (d : ℕ) :
    (fourSquaresLoop0 d ⟨largestSquareLessThan d, 0, 0, 0⟩
      (largestSquareLessThan d)).2.sumOfSquares = d := by
  obtain ⟨a, b, c, e, hd, hba, hcb, hec⟩ := exists_antitone_squares d
  obtain rfl | ha := Nat.eq_zero_or_pos a
  case inl =>
    obtain ⟨rfl, rfl, rfl⟩ : b = 0 ∧ c = 0 ∧ e = 0 := by omega
    subst hd
    rfl
  case inr =>
    have hsqrt : a ≤ largestSquareLessThan d := Nat.le_sqrt'.mpr (by omega)
    exact fourSquaresLoop0_sum <| fourSquaresLoop0_found hd ha hsqrt hcb hec

section Underflow

open UrsaCryptoResult

-- The same search with overflow checks: a subtraction below 0 panics.
def checkedLoop2 (d : ℕ) (roots : Roots) : ℕ → UrsaCryptoResult (Bool × Roots)
  | 0 => .ok (false, roots)
  | k + 1 => do
    let roots := { roots with r2 := k + 1 }
    if d = roots.r0 ^ 2 + roots.r1 ^ 2 + roots.r2 ^ 2 then .ok (true, { roots with r3 := 0 })
    else do
      let rest ← subUsize d (roots.r0 ^ 2)
      let rest ← subUsize rest (roots.r1 ^ 2)
      let rest ← subUsize rest (roots.r2 ^ 2)
      let roots := { roots with r3 := largestSquareLessThan rest }
      if d = roots.r0 ^ 2 + roots.r1 ^ 2 + roots.r2 ^ 2 + roots.r3 ^ 2 then .ok (true, roots)
      else checkedLoop2 d roots k

def checkedLoop1 (d : ℕ) (roots : Roots) : ℕ → UrsaCryptoResult (Bool × Roots)
  | 0 => .ok (false, roots)
  | j + 1 => do
    let roots := { roots with r1 := j + 1 }
    if d = roots.r0 ^ 2 + roots.r1 ^ 2 then .ok (true, { roots with r2 := 0, r3 := 0 })
    else do
      let rest ← subUsize d (roots.r0 ^ 2)
      let rest ← subUsize rest (roots.r1 ^ 2)
      let r2 := largestSquareLessThan rest
      match ← checkedLoop2 d { roots with r2 := r2 } r2 with
      | (true, roots)  => .ok (true, roots)
      | (false, roots) => checkedLoop1 d roots j

def checkedLoop0 (d : ℕ) (roots : Roots) : ℕ → UrsaCryptoResult (Bool × Roots)
  | 0 => .ok (false, roots)
  | i + 1 => do
    let roots := { roots with r0 := i + 1 }
    if d = roots.r0 ^ 2 then .ok (true, { roots with r1 := 0, r2 := 0, r3 := 0 })
    else do
      let rest ← subUsize d (roots.r0 ^ 2)
      let r1 := largestSquareLessThan rest
      match ← checkedLoop1 d { roots with r1 := r1 } r1 with
      | (true, roots)  => .ok (true, roots)
      | (false, roots) => checkedLoop0 d roots i

def checkedFourSquares (delta : Int32) : UrsaCryptoResult (HashMap BigNumber) :=
  if delta.toInt < 0 then
    .error <| .err .invalidStructure
      s!"Cannot express a negative number as sum of four squares {delta.toInt} "
  else do
    let d := delta.toInt.toNat
    let r0 := largestSquareLessThan d
    let (_, roots) ← checkedLoop0 d { r0, r1 := 0, r2 := 0, r3 := 0 } r0
    .ok <| (((∅ : HashMap BigNumber).insert "0" roots.r0).insert "1" roots.r1).insert "2" roots.r2
      |>.insert "3" roots.r3

theorem sq_le_sq_of_le (h : k ≤ largestSquareLessThan d) : k ^ 2 ≤ d :=
  Nat.le_sqrt'.mp h

theorem checkedLoop2_eq (h : roots.r0 ^ 2 + roots.r1 ^ 2 + k ^ 2 ≤ d) :
    checkedLoop2 d roots k = .ok (fourSquaresLoop2 d roots k) := by
  induction k generalizing roots
  case zero => rfl
  case succ k hi =>
    have hk : k ^ 2 ≤ (k + 1) ^ 2 := Nat.pow_le_pow_left k.le_succ 2
    have hrec : ∀ r3, checkedLoop2 d { roots with r2 := k + 1, r3 := r3 } k =
        .ok (fourSquaresLoop2 d { roots with r2 := k + 1, r3 := r3 } k) :=
      fun r3 => hi (by dsimp only; omega)
    unfold checkedLoop2 fourSquaresLoop2
    dsimp only
    rw [subUsize_of_le (by omega), ok_bind, subUsize_of_le (by omega), ok_bind,
      subUsize_of_le (by omega), ok_bind, hrec]
    split_ifs <;> rfl

theorem checkedLoop1_eq (h : roots.r0 ^ 2 + k ^ 2 ≤ d) :
    checkedLoop1 d roots k = .ok (fourSquaresLoop1 d roots k) := by
  induction k generalizing roots
  case zero => rfl
  case succ k hi =>
    have hk : k ^ 2 ≤ (k + 1) ^ 2 := Nat.pow_le_pow_left k.le_succ 2
    let r2 := largestSquareLessThan (d - roots.r0 ^ 2 - (k + 1) ^ 2)
    have hr2 : r2 ^ 2 ≤ d - roots.r0 ^ 2 - (k + 1) ^ 2 := sq_le_sq_of_le le_rfl
    have hspec := fourSquaresLoop2_spec d { roots with r1 := k + 1, r2 := r2 } r2
    have hloop : checkedLoop2 d { roots with r1 := k + 1, r2 := r2 } r2 =
        .ok (fourSquaresLoop2 d { roots with r1 := k + 1, r2 := r2 } r2) :=
      checkedLoop2_eq (by dsimp only; omega)
    unfold checkedLoop1 fourSquaresLoop1
    dsimp only
    rw [subUsize_of_le (by omega), ok_bind, subUsize_of_le (by omega), ok_bind, hloop, ok_bind]
    split
    case isTrue => rfl
    case isFalse =>
      generalize fourSquaresLoop2 d { roots with r1 := k + 1, r2 := r2 } r2 = run at hspec
      obtain ⟨found, roots'⟩ := run
      have hr0 : roots'.r0 = roots.r0 := hspec.r0
      cases found
      case true => rfl
      case false => exact hi (by rw [hr0]; omega)

theorem checkedLoop0_eq (h : k ^ 2 ≤ d) :
    checkedLoop0 d roots k = .ok (fourSquaresLoop0 d roots k) := by
  induction k generalizing roots
  case zero => rfl
  case succ k hi =>
    have hk : k ^ 2 ≤ (k + 1) ^ 2 := Nat.pow_le_pow_left k.le_succ 2
    let r1 := largestSquareLessThan (d - (k + 1) ^ 2)
    have hr1 : r1 ^ 2 ≤ d - (k + 1) ^ 2 := sq_le_sq_of_le le_rfl
    have hloop : checkedLoop1 d { roots with r0 := k + 1, r1 := r1 } r1 =
        .ok (fourSquaresLoop1 d { roots with r0 := k + 1, r1 := r1 } r1) :=
      checkedLoop1_eq (by dsimp only; omega)
    unfold checkedLoop0 fourSquaresLoop0
    dsimp only
    rw [subUsize_of_le (by omega), ok_bind, hloop, ok_bind]
    split
    case isTrue => rfl
    case isFalse =>
      generalize fourSquaresLoop1 d { roots with r0 := k + 1, r1 := r1 } r1 = run
      obtain ⟨found, roots'⟩ := run
      cases found
      case true => rfl
      case false => exact hi (by omega)

theorem checkedFourSquares_eq (delta : Int32) : checkedFourSquares delta = fourSquares delta := by
  unfold checkedFourSquares fourSquares
  split
  case isTrue => rfl
  case isFalse =>
    dsimp only
    rw [checkedLoop0_eq (sq_le_sq_of_le le_rfl)]
    rfl

end Underflow

open UrsaCryptoResult

-- What a successful search returns.
theorem fourSquares_roots (h : fourSquares delta = .ok u) :
    ∃ r0 r1 r2 r3 : ℕ, u = ((((∅ : HashMap BigNumber).insert "0" (r0 : ℤ)).insert "1"
        (r1 : ℤ)).insert "2" (r2 : ℤ)).insert "3" (r3 : ℤ) ∧
      (r0 ^ 2 + r1 ^ 2 + r2 ^ 2 + r3 ^ 2 : ℤ) = delta.toInt := by
  unfold fourSquares at h
  split at h
  case isTrue => cases h
  case isFalse hneg =>
    have hsum := fourSquaresLoop0_sumOfSquares delta.toInt.toNat
    injection h with h
    generalize (fourSquaresLoop0 delta.toInt.toNat _ _).2 = roots at h hsum
    refine ⟨roots.r0, roots.r1, roots.r2, roots.r3, h.symm, ?_⟩
    have hdelta : (delta.toInt.toNat : ℤ) = delta.toInt := Int.toNat_of_nonneg (not_lt.mp hneg)
    rw [← hdelta, ← hsum, Roots.sumOfSquares]
    push_cast
    rfl

theorem fourSquares_lagrange (delta : Int32) :
    checkedFourSquares delta = fourSquares delta ∧
      ((∃ e, fourSquares delta = .error e) ↔ delta.toInt < 0) ∧
      ∀ u, fourSquares delta = .ok u → u.keys = {"0", "1", "2", "3"} ∧
        ∃ r0 r1 r2 r3 : ℕ, u.lookup "0" = some (r0 : ℤ) ∧ u.lookup "1" = some (r1 : ℤ) ∧
          u.lookup "2" = some (r2 : ℤ) ∧ u.lookup "3" = some (r3 : ℤ) ∧
          (r0 ^ 2 + r1 ^ 2 + r2 ^ 2 + r3 ^ 2 : ℤ) = delta.toInt := by
  refine ⟨checkedFourSquares_eq delta, ⟨?_, fun h => ?_⟩, fun u h => ?_⟩
  case refine_1 =>
    rintro ⟨e, h⟩
    by_contra hnonneg
    obtain ⟨u, hu⟩ := fourSquares_ok (not_lt.mp hnonneg)
    rw [hu] at h
    cases h
  case refine_2 => exact ⟨_, by rw [fourSquares, if_pos h]⟩
  case refine_3 =>
    obtain ⟨r0, r1, r2, r3, rfl, hsum⟩ := fourSquares_roots h
    refine ⟨?_, r0, r1, r2, r3, ?_, ?_, ?_, ?_, hsum⟩
    · ext a
      simp only [Finmap.mem_keys, Finmap.mem_insert, Finmap.notMem_empty, Finset.mem_insert,
        Finset.mem_singleton, or_false]
      tauto
    all_goals simp [Finmap.lookup_insert_of_ne]

end Ursa
