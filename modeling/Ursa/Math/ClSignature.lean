import Mathlib.Algebra.BigOperators.Group.Finset.Basic
import Mathlib.Algebra.Group.Subgroup.Finite
import Ursa.Math.Sigma

-- The algebra of Camenisch–Lysyanskaya signatures over any abelian group: what is signed is a
-- representation of `z` in the bases of the key.
structure ClKey (G ι : Type) where
  s : G
  z : G
  rctxt : G
  r : ι → G

namespace ClKey

variable {G ι : Type} [CommGroup G] {H : Subgroup G} {K : ClKey G ι} {a : G}
variable {e e' e'' v v' v'' m₂ m₂' m₂'' k c c' : ℤ} {m m' m'' : ι → ℤ} {u : Finset ι}

-- The elements of the key that a proof over the attributes `u` uses lie in `H`.
structure Within (K : ClKey G ι) (H : Subgroup G) : Prop where
  s : K.s ∈ H
  z : K.z ∈ H
  rctxt : K.rctxt ∈ H
  r : ∀ a, K.r a ∈ H

def attributes (K : ClKey G ι) (m : ι → ℤ) (u : Finset ι) : G :=
  ∏ i ∈ u, K.r i ^ m i

def represent (K : ClKey G ι) (a : G) (e v m₂ : ℤ) (m : ι → ℤ) (u : Finset ι) : G :=
  a ^ e * K.attributes m u * K.s ^ v * K.rctxt ^ m₂

-- `z ^ x * s ^ y`
def commit (K : ClKey G ι) (x y : ℤ) : G :=
  K.z ^ x * K.s ^ y

theorem attributes_mem (h : K.Within H) : K.attributes m u ∈ H :=
  Subgroup.prod_mem _ fun i _ => zpow_mem (h.r i) _

theorem represent_mem (h : K.Within H) (ha : a ∈ H) : K.represent a e v m₂ m u ∈ H :=
  mul_mem (mul_mem (mul_mem (zpow_mem ha e) (attributes_mem h)) (zpow_mem h.s v))
    (zpow_mem h.rctxt m₂)

theorem commit_mem (h : K.Within H) : K.commit x y ∈ H :=
  mul_mem (zpow_mem h.z x) (zpow_mem h.s y)

theorem prod_zpow_scale (r : ι → G) (hm : ∀ i ∈ u, m i - m' i = k * m'' i) :
    ∏ i ∈ u, r i ^ m i = (∏ i ∈ u, r i ^ m'' i) ^ k * ∏ i ∈ u, r i ^ m' i := by
  rw [← Finset.prod_zpow, ← Finset.prod_mul_distrib]
  refine Finset.prod_congr rfl fun i hi => ?_
  rw [← zpow_mul, ← zpow_add, mul_comm, ← hm i hi, sub_add_cancel]

theorem attributes_scale (hm : ∀ i ∈ u, m i - m' i = k * m'' i) :
    K.attributes m u = K.attributes m'' u ^ k * K.attributes m' u :=
  prod_zpow_scale K.r hm

theorem zpow_scale (he : e - e' = k * e'') : a ^ e = (a ^ e'') ^ k * a ^ e' := by
  rw [← zpow_mul, ← zpow_add, mul_comm, ← he, sub_add_cancel]

-- The representation is a homomorphism in the exponents.
theorem represent_scale (he : e - e' = k * e'') (hv : v - v' = k * v'')
    (hm₂ : m₂ - m₂' = k * m₂'') (hm : ∀ i ∈ u, m i - m' i = k * m'' i) :
    K.represent a e v m₂ m u / K.represent a e' v' m₂' m' u =
      K.represent a e'' v'' m₂'' m'' u ^ k := by
  rw [div_eq_iff_eq_mul, represent, represent, represent, zpow_scale he, attributes_scale hm,
    zpow_scale hv, zpow_scale hm₂, mul_mul_mul_comm ((a ^ e'') ^ k),
    mul_mul_mul_comm (_ * _) _ ((K.s ^ v'') ^ k), mul_mul_mul_comm (_ * _) _ ((K.rctxt ^ m₂'') ^ k)]
  simp only [mul_zpow]

theorem commit_scale (hx : x - x' = k * x'') (hy : y - y' = k * y'') :
    K.commit x y / K.commit x' y' = K.commit x'' y'' ^ k := by
  rw [div_eq_iff_eq_mul, commit, commit, commit, zpow_scale hx, zpow_scale hy, mul_zpow,
    mul_mul_mul_comm]

theorem commit_mul : K.commit x y * K.commit x' y' = K.commit (x + x') (y + y') := by
  simp only [commit, zpow_add, mul_mul_mul_comm]

theorem commit_zpow : K.commit x y ^ k = K.commit (x * k) (y * k) := by
  simp only [commit, mul_zpow, ← zpow_mul]

theorem commit_inv : (K.commit x y)⁻¹ = K.commit (-x) (-y) := by
  simp only [commit, mul_inv, zpow_neg]

theorem zpow_mul_commit : K.z ^ k * K.commit x y = K.commit (k + x) y := by
  rw [commit, commit, zpow_add, mul_assoc]

theorem zpow_mul_commit_inv : K.z ^ k * (K.commit x y)⁻¹ = K.commit (k - x) (-y) := by
  rw [commit_inv, zpow_mul_commit, sub_eq_add_neg]

theorem prod_commit {κ : Type} (u : Finset κ) (x y : κ → ℤ) :
    ∏ i ∈ u, K.commit (x i) (y i) = K.commit (∑ i ∈ u, x i) (∑ i ∈ u, y i) := by
  induction u using Finset.cons_induction
  case empty => simp [commit]
  case cons i u hi ih => rw [Finset.prod_cons, Finset.sum_cons, Finset.sum_cons, ih, commit_mul]

-- Two ways to open one commitment give a relation between `z` and `s`.
theorem commit_relation (h : K.commit x y = K.commit x' y') :
    K.z ^ (x - x') * K.s ^ (y - y') = 1 := by
  have hmul : K.commit x y * (K.commit x' y')⁻¹ = 1 := by rw [h, mul_inv_cancel]
  rwa [commit_inv, commit_mul, ← sub_eq_add_neg, ← sub_eq_add_neg] at hmul

-- The values that the verifier of a representation computes: one for the signature.
def signatureTau (K : ClKey G ι) (q a : G) (e v m₂ : ℤ) (m : ι → ℤ) (u : Finset ι) (c : ℤ) : G :=
  (q ^ c)⁻¹ * K.represent a e v m₂ m u

theorem signatureTau_extract {q : G} (hK : K.Within H)
    (hinj : Set.InjOn (· ^ (c - c')) (H : Set G)) (hq : q ∈ H) (ha : a ∈ H)
    (he : e - e' = (c - c') * e'') (hv : v - v' = (c - c') * v'')
    (hm₂ : m₂ - m₂' = (c - c') * m₂'') (hm : ∀ i ∈ u, m i - m' i = (c - c') * m'' i)
    (h : K.signatureTau q a e v m₂ m u c = K.signatureTau q a e' v' m₂' m' u c') :
    q = K.represent a e'' v'' m₂'' m'' u :=
  Sigma.extract_power hinj hq (represent_mem hK ha) (represent_scale he hv hm₂ hm) h

-- An honest answer leads back to what was committed to.
theorem signatureTau_complete {q : G} (hq : q = K.represent a e'' v'' m₂'' m'' u)
    (he : e - e' = c * e'') (hv : v - v' = c * v'') (hm₂ : m₂ - m₂' = c * m₂'')
    (hm : ∀ i ∈ u, m i - m' i = c * m'' i) :
    K.signatureTau q a e v m₂ m u c = K.represent a e' v' m₂' m' u :=
  hq ▸ Sigma.complete_power (represent_scale he hv hm₂ hm)

-- A power of `s` hides the signature, and its exponent is taken out of `v` again.
theorem represent_randomize (r : ℤ) :
    K.represent (K.s ^ r * a) e (v - e * r) m₂ m u = K.represent a e v m₂ m u := by
  have hs : K.s ^ v = (K.s ^ r) ^ e * K.s ^ (v - e * r) := by
    rw [← zpow_mul, ← zpow_add, mul_comm r, add_sub_cancel]
  have ha : (K.s ^ r * a) ^ e = (K.s ^ r) ^ e * a ^ e := mul_zpow ..
  rw [represent, represent, hs, ha]
  ac_rfl

-- A part of the attributes, and of the exponent of the signature, can be known to everyone.
theorem represent_split [DecidableEq ι] {w : Finset ι} (h : Disjoint u w) :
    K.represent a (e + e') v m₂ m (u ∪ w) =
      a ^ e * K.attributes m u * K.represent a e' v m₂ m w := by
  rw [represent, represent, attributes, attributes, attributes, Finset.prod_union h, zpow_add]
  ac_rfl

-- What is signed is the product of a factor of the signer and a factor of the receiver.
section Signing

variable [DecidableEq ι] {q f : G} {i : ι} {u' w : Finset ι}

-- The exponents of a product of one factor over `u` and one over `u'`.
def sumExponents (m m' : ι → ℤ) (u u' : Finset ι) (i : ι) : ℤ :=
  (if i ∈ u then m i else 0) + if i ∈ u' then m' i else 0

theorem sumExponents_of_notMem (hi : i ∈ u) (hi' : i ∉ u') : sumExponents m m' u u' i = m i := by
  rw [sumExponents, if_pos hi, if_neg hi', add_zero]

theorem sumExponents_of_mem (hi : i ∈ u) (hi' : i ∈ u') :
    sumExponents m m' u u' i = m i + m' i := by
  rw [sumExponents, if_pos hi, if_pos hi']

theorem prod_zpow_ite (h : u ⊆ w) :
    ∏ i ∈ w, K.r i ^ (if i ∈ u then m i else 0) = K.attributes m u := by
  rw [attributes, ← Finset.prod_subset h]
  · exact Finset.prod_congr rfl fun i hi => by rw [if_pos hi]
  · intro i _ hi
    rw [if_neg hi, zpow_zero]

theorem attributes_mul :
    K.attributes m u * K.attributes m' u' = K.attributes (sumExponents m m' u u') (u ∪ u') := by
  rw [← prod_zpow_ite Finset.subset_union_left, ← prod_zpow_ite Finset.subset_union_right,
    ← Finset.prod_mul_distrib, attributes]
  exact Finset.prod_congr rfl fun i _ => (zpow_add ..).symm

-- The root that is taken with the inverse of `e` modulo the exponent of the group.
theorem zpow_root {N d : ℤ} (hN : q ^ N = 1) (hd : N ∣ d * e - 1) : (q ^ d) ^ e = q := by
  obtain ⟨k, hk⟩ := hd
  rw [← zpow_mul, eq_add_of_sub_eq hk, zpow_add, zpow_mul, hN, one_zpow, one_mul, zpow_one]

theorem represent_signature (ha : a ^ e = q) (hf : f = K.s ^ v' * K.attributes m' u')
    (hq : q * (K.s ^ v * f * K.rctxt ^ m₂ * K.attributes m u) = K.z) :
    K.z = K.represent a e (v + v') m₂ (sumExponents m m' u u') (u ∪ u') := by
  rw [represent, ha, ← attributes_mul, zpow_add, ← hq, hf]
  simp only [mul_assoc, mul_left_comm, mul_comm]

end Signing

-- The exponents in the answer to a range proof over `n` roots.
structure RangeExponents where
  u : ℕ → ℤ
  r : ℕ → ℤ
  mj : ℤ
  rho : ℤ
  alpha : ℤ

namespace RangeExponents

def sumOfSquares (x : RangeExponents) (n : ℕ) : ℤ :=
  ∑ i ∈ Finset.range n, x.u i * x.u i

def sumOfProducts (x : RangeExponents) (n : ℕ) : ℤ :=
  ∑ i ∈ Finset.range n, x.r i * x.u i

-- `x - x' = k * w` for all exponents.
structure Scale (n : ℕ) (k : ℤ) (x x' w : RangeExponents) : Prop where
  u : ∀ i < n, x.u i - x'.u i = k * w.u i
  r : ∀ i < n, x.r i - x'.r i = k * w.r i
  mj : x.mj - x'.mj = k * w.mj
  rho : x.rho - x'.rho = k * w.rho
  alpha : x.alpha - x'.alpha = k * w.alpha

-- `k` divides the differences of all exponents.
structure Divides (n : ℕ) (k : ℤ) (x x' : RangeExponents) : Prop where
  u : ∀ i < n, k ∣ x.u i - x'.u i
  r : ∀ i < n, k ∣ x.r i - x'.r i
  mj : k ∣ x.mj - x'.mj
  rho : k ∣ x.rho - x'.rho
  alpha : k ∣ x.alpha - x'.alpha

def quotient (x x' : RangeExponents) (k : ℤ) : RangeExponents where
  u i := (x.u i - x'.u i) / k
  r i := (x.r i - x'.r i) / k
  mj := (x.mj - x'.mj) / k
  rho := (x.rho - x'.rho) / k
  alpha := (x.alpha - x'.alpha) / k

theorem Divides.scale (h : Divides n k x x') : Scale n k x x' (x.quotient x' k) where
  u i hi := (Int.mul_ediv_cancel' <| h.u i hi).symm
  r i hi := (Int.mul_ediv_cancel' <| h.r i hi).symm
  mj := (Int.mul_ediv_cancel' h.mj).symm
  rho := (Int.mul_ediv_cancel' h.rho).symm
  alpha := (Int.mul_ediv_cancel' h.alpha).symm

end RangeExponents

section Range

variable {n : ℕ} {t : ℕ → G} {delta bound : G} {x x' w : RangeExponents}

def productTau (K : ClKey G ι) (t : ℕ → G) (x : RangeExponents) (n : ℕ) : G :=
  K.s ^ x.alpha * ∏ i ∈ Finset.range n, t i ^ x.u i

def rangeTaus (K : ClKey G ι) (t : ℕ → G) (delta bound : G) (x : RangeExponents) (n : ℕ)
    (c : ℤ) : List G :=
  (List.range n).map (fun i => (t i ^ c)⁻¹ * K.commit (x.u i) (x.r i)) ++
    [(bound ^ c)⁻¹ * K.commit x.mj x.rho, (delta ^ c)⁻¹ * K.productTau t x n]

theorem productTau_scale (hw : RangeExponents.Scale n k x x' w) :
    K.productTau t x n / K.productTau t x' n = K.productTau t w n ^ k := by
  have hu : ∀ i ∈ Finset.range n, x.u i - x'.u i = k * w.u i :=
    fun i hi => hw.u i <| Finset.mem_range.mp hi
  rw [div_eq_iff_eq_mul, productTau, productTau, productTau, zpow_scale hw.alpha,
    prod_zpow_scale t hu, mul_zpow, mul_mul_mul_comm]

-- What the answers open: the commitments to the roots, the bound, and the product of the roots'
-- commitments.
structure Opens (K : ClKey G ι) (t : ℕ → G) (delta bound : G) (w : RangeExponents) (n : ℕ) :
    Prop where
  roots : ∀ i < n, t i = K.commit (w.u i) (w.r i)
  bound : bound = K.commit w.mj w.rho
  product : delta = K.productTau t w n

theorem rangeTaus_extract (hK : K.Within H) (hinj : Set.InjOn (· ^ (c - c')) (H : Set G))
    (ht : ∀ i < n, t i ∈ H) (hd : delta ∈ H) (hb : bound ∈ H)
    (hw : RangeExponents.Scale n (c - c') x x' w)
    (h : K.rangeTaus t delta bound x n c = K.rangeTaus t delta bound x' n c') :
    K.Opens t delta bound w n := by
  obtain ⟨hroots, hrest⟩ := List.append_inj h (by simp)
  rw [List.cons.injEq, List.cons.injEq] at hrest
  have hprod : K.productTau t w n ∈ H := by
    refine mul_mem (zpow_mem hK.s _) <| Subgroup.prod_mem _ fun i hi => ?_
    exact zpow_mem (ht i <| Finset.mem_range.mp hi) _
  constructor
  case roots =>
    intro i hi
    have htau := List.map_inj_left.mp hroots i (List.mem_range.mpr hi)
    exact Sigma.extract_power hinj (ht i hi) (commit_mem hK) (commit_scale (hw.u i hi) (hw.r i hi))
      htau
  case bound =>
    exact Sigma.extract_power hinj hb (commit_mem hK) (commit_scale hw.mj hw.rho) hrest.1
  case product =>
    exact Sigma.extract_power hinj hd hprod (productTau_scale hw) hrest.2.1

theorem rangeTaus_complete (h : K.Opens t delta bound w n) (hw : RangeExponents.Scale n c x x' w) :
    K.rangeTaus t delta bound x n c =
      (List.range n).map (fun i => K.commit (x'.u i) (x'.r i)) ++
        [K.commit x'.mj x'.rho, K.productTau t x' n] := by
  have hroot : ∀ i ∈ List.range n,
      (t i ^ c)⁻¹ * K.commit (x.u i) (x.r i) = K.commit (x'.u i) (x'.r i) := by
    intro i hi
    have hlt := List.mem_range.mp hi
    rw [h.roots i hlt]
    exact Sigma.complete_power <| commit_scale (hw.u i hlt) (hw.r i hlt)
  have hbound : (bound ^ c)⁻¹ * K.commit x.mj x.rho = K.commit x'.mj x'.rho :=
    h.bound ▸ Sigma.complete_power (commit_scale hw.mj hw.rho)
  have hproduct : (delta ^ c)⁻¹ * K.productTau t x n = K.productTau t x' n := by
    rw [h.product]
    exact Sigma.complete_power <| productTau_scale hw
  rw [rangeTaus, List.map_congr_left hroot, hbound, hproduct]

theorem productTau_eq_commit (h : ∀ i < n, t i = K.commit (w.u i) (w.r i)) :
    K.productTau t w n = K.commit (w.sumOfSquares n) (w.alpha + w.sumOfProducts n) := by
  have hroots : ∏ i ∈ Finset.range n, t i ^ w.u i =
      K.commit (w.sumOfSquares n) (w.sumOfProducts n) := by
    rw [RangeExponents.sumOfSquares, RangeExponents.sumOfProducts, ← prod_commit]
    refine Finset.prod_congr rfl fun i hi => ?_
    rw [h i (Finset.mem_range.mp hi), commit_zpow]
  have hs : K.s ^ w.alpha = K.commit 0 w.alpha := by simp [commit]
  rw [productTau, hroots, hs, commit_mul, zero_add]

-- The commitment to the difference is then one to the sum of the squares of the roots.
theorem Opens.delta_eq (h : K.Opens t delta bound w n) :
    delta = K.commit (w.sumOfSquares n) (w.alpha + w.sumOfProducts n) :=
  h.product.trans <| productTau_eq_commit h.roots

-- The bound is reached from below: `bound = z ^ d * delta`.
theorem Opens.relation_of_greater (h : K.Opens t delta (K.z ^ d * delta) w n) :
    K.z ^ (w.mj - d - w.sumOfSquares n) * K.s ^ (w.rho - (w.alpha + w.sumOfProducts n)) = 1 := by
  refine commit_relation ?_
  have hz : K.z ^ d = K.commit d 0 := by simp [commit]
  have hb := h.bound
  rw [hz, mul_comm, ← eq_div_iff_mul_eq', div_eq_mul_inv, commit_inv, commit_mul] at hb
  rw [← h.delta_eq, hb]
  simp [sub_eq_add_neg]

-- The bound is reached from above: `bound = z ^ d * delta⁻¹`.
theorem Opens.relation_of_less (h : K.Opens t delta (K.z ^ d * delta⁻¹) w n) :
    K.z ^ (d - w.mj - w.sumOfSquares n) * K.s ^ (-w.rho - (w.alpha + w.sumOfProducts n)) = 1 := by
  refine commit_relation ?_
  have hz : K.z ^ d = K.commit d 0 := by simp [commit]
  have hb := h.bound
  rw [hz, mul_inv_eq_iff_eq_mul, ← div_eq_iff_eq_mul', div_eq_mul_inv, commit_inv, commit_mul] at hb
  rw [← h.delta_eq, ← hb]
  simp [sub_eq_add_neg]

end Range
end ClKey
