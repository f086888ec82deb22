import Ursa.Cl.Theorems.Revocation.Delta

namespace Ursa

open UrsaCryptoResult
open RevocationRegistryDelta (between Grouping Chain)

variable {C : Curve} {gamma : GroupOrderElement C} {gDash : PointG2 C} {L i j : UInt32}

section Tails

theorem magnitude_transformU32 (x : UInt32) :
    BigNumber.magnitude (transformU32ToArrayOfU8 x) = x.toNat := by
  have hx : x.toNat < 2 ^ 32 := x.toNat_lt
  simp [BigNumber.magnitude, transformU32ToArrayOfU8, Nat.shiftRight_eq_div_pow]
  omega

theorem powMod_eq (x : UInt32) :
    gamma.powMod (transformU32ToArrayOfU8 x) = .ok (gamma ^ x.toNat) := by
  rw [GroupOrderElement.powMod, magnitude_transformU32]
  rfl

theorem newTail_eq (index : UInt32) :
    newTail index gDash gamma = .ok (gamma ^ index.toNat • gDash) := by
  rw [newTail, powMod_eq]
  rfl

theorem mem_indices : j ∈ indices L ↔ 1 ≤ j.toNat ∧ j.toNat ≤ L.toNat := by
  simp only [indices, Finset.mem_image, Finset.mem_Icc]
  constructor
  case mp =>
    rintro ⟨k, hk, rfl⟩
    have hlt : k < 2 ^ 32 := hk.2.trans_lt L.toNat_lt
    rwa [UInt32.toNat_ofNat_of_lt' hlt]
  case mpr => exact fun hj => ⟨j.toNat, hj, UInt32.ofNat_toNat⟩

-- The loop of `SimpleTailsAccessor::new` reads every tail that is left.
theorem collect_eq (gen : RevocationTailsGenerator C) (rounds : ℕ) (tails : List (Tail C))
    (hle : gen.currentIndex ≤ gen.size)
    (hrounds : gen.size.toNat < gen.currentIndex.toNat + rounds) :
    ∃ gen', SimpleTailsAccessor.collect gen tails rounds = .ok
      ({ tails := tails ++
          (List.range' gen.currentIndex.toNat (gen.size.toNat - gen.currentIndex.toNat)).map
            fun k => gen.gamma ^ k • gen.gDash }, gen') := by
  induction rounds generalizing gen tails
  case zero => exact absurd hrounds (not_lt.mpr hle)
  case succ rounds hi =>
    rw [SimpleTailsAccessor.collect, RevocationTailsGenerator.tryNext]
    split
    case isTrue hend =>
      have heq : gen.size.toNat - gen.currentIndex.toNat = 0 := Nat.sub_eq_zero_of_le hend
      exact ⟨gen, by simp [heq]⟩
    case isFalse hmore =>
      have hlt : gen.currentIndex.toNat < gen.size.toNat := not_le.mp hmore
      have hsize : gen.size.toNat < 2 ^ 32 := gen.size.toNat_lt
      obtain ⟨next, hnext⟩ : ∃ next, addU32 gen.currentIndex 1 = .ok next :=
        ⟨_, if_pos (by simp; omega)⟩
      have hval : next.toNat = gen.currentIndex.toNat + 1 := addU32_eq_ok_iff.mp hnext
      have hle' : next ≤ gen.size := UInt32.le_iff_toNat_le.mpr (by omega)
      obtain ⟨gen', hgen'⟩ := hi { gen with currentIndex := next }
        (tails ++ [gen.gamma ^ gen.currentIndex.toNat • gen.gDash]) hle' (by simp only [hval]; omega)
      have hlen : gen.size.toNat - gen.currentIndex.toNat = gen.size.toNat - next.toNat + 1 := by
        omega
      refine ⟨gen', ?_⟩
      rw [newTail_eq, ok_bind, hnext, ok_bind, pure_bind]
      simp only [hgen', hlen, List.range'_succ, List.map_cons, hval, List.append_assoc,
        List.singleton_append]

-- A new generator has as many tails as its size says.
theorem simpleTailsAccessor_new_eq (size : UInt32) (gamma : GroupOrderElement C)
    (gDash : PointG2 C) : ∃ gen', SimpleTailsAccessor.new ⟨size, 0, gDash, gamma⟩ =
      .ok ({ tails := (List.range size.toNat).map fun k => gamma ^ k • gDash }, gen') := by
  obtain ⟨gen', hgen'⟩ := collect_eq ⟨size, 0, gDash, gamma⟩ (size.toNat + 1) []
    (UInt32.le_iff_toNat_le.mpr <| Nat.zero_le _) (by simp)
  refine ⟨gen', hgen'.trans ?_⟩
  rw [List.nil_append, List.range_eq_range']
  rfl

theorem simpleTailsAccessor_eq (h : RevocationTailsGenerator.new L gamma gDash = .ok gen) :
    2 * L.toNat + 1 < 2 ^ 32 ∧ ∃ accessor gen', SimpleTailsAccessor.new gen = .ok (accessor, gen') ∧
      ∀ k : UInt32, k.toNat ≤ 2 * L.toNat →
        accessor.accessTail k = .ok (gamma ^ k.toNat • gDash) := by
  simp only [RevocationTailsGenerator.new, bind_eq_ok_iff, mulU32_eq_ok_iff, addU32_eq_ok_iff,
    pure_eq_ok_iff] at h
  obtain ⟨double, hdouble, size, hsize, rfl⟩ := h
  have hnat : size.toNat = 2 * L.toNat + 1 := hsize.trans <| congrArg (· + 1) hdouble
  refine ⟨hnat ▸ size.toNat_lt, ?_⟩
  obtain ⟨gen', hgen'⟩ := simpleTailsAccessor_new_eq size gamma gDash
  refine ⟨_, gen', hgen', fun k hk => ?_⟩
  rw [SimpleTailsAccessor.accessTail, index_eq_ok_iff, List.getElem?_map,
    List.getElem?_range (by omega), Option.map_some]

-- The indices `L + 1 - j + i` are all below `2 * L + 1`.
theorem witnessIndex_ok (hL : 2 * L.toNat + 1 < 2 ^ 32) (hi : i ∈ indices L) (hj : j ∈ indices L) :
    ∃ k, witnessIndex L j i = .ok k ∧ k.toNat = L.toNat + 1 - j.toNat + i.toNat := by
  obtain ⟨hi₁, hiL⟩ := mem_indices.mp hi
  obtain ⟨hj₁, hjL⟩ := mem_indices.mp hj
  have hone : (1 : UInt32).toNat = 1 := rfl
  obtain ⟨x, hx⟩ : ∃ x, addU32 L 1 = .ok x := ⟨_, if_pos (by omega)⟩
  have hxL := addU32_eq_ok_iff.mp hx
  obtain ⟨y, hy⟩ : ∃ y, subU32 x j = .ok y := ⟨_, if_pos (by omega)⟩
  have hyL := subU32_eq_ok_iff.mp hy
  obtain ⟨k, hk⟩ : ∃ k, addU32 y i = .ok k := ⟨_, if_pos (by omega)⟩
  have hkL := addU32_eq_ok_iff.mp hk
  refine ⟨k, ?_, by omega⟩
  rw [witnessIndex, hx, ok_bind, hy, ok_bind, hk]

end Tails

section Sums

variable {accessor : RevocationTailsAccessor C} {order : HashOrder UInt32} {S : HashSet UInt32}

-- The tail that a witness reads for the index `j`.
def witnessTail (i L : UInt32) (accessor : RevocationTailsAccessor C) (j : UInt32) :
    UrsaCryptoResult (Tail C) := do
  accessor (← witnessIndex L j i)

def tailValue (i L : UInt32) (accessor : RevocationTailsAccessor C) (j : UInt32) : Tail C :=
  (witnessTail i L accessor j).toOption.getD 0

-- The accessor answers for every index of the set.
def Serves (i L : UInt32) (accessor : RevocationTailsAccessor C) (S : HashSet UInt32) : Prop :=
  ∀ j ∈ S, ∃ tail, witnessTail i L accessor j = .ok tail

-- The tails of a registry are all that a holder needs.
theorem witnessTail_simple (h : RevocationTailsGenerator.new L gamma gDash = .ok gen)
    (hnew : SimpleTailsAccessor.new gen = .ok (simple, gen')) (hi : i ∈ indices L)
    (hj : j ∈ indices L) :
    witnessTail i L simple.accessTail j =
      .ok (gamma ^ (L.toNat + 1 - j.toNat + i.toNat) • gDash) := by
  obtain ⟨hL, _, _, hsimple, htail⟩ := simpleTailsAccessor_eq h
  obtain ⟨rfl, -⟩ := Prod.mk.inj <| Except.ok.inj <| hsimple.symm.trans hnew
  obtain ⟨k, hk, hval⟩ := witnessIndex_ok hL hi hj
  obtain ⟨hi₁, hiL⟩ := mem_indices.mp hi
  obtain ⟨hj₁, hjL⟩ := mem_indices.mp hj
  rw [witnessTail, hk, ok_bind, htail k (by omega), hval]

theorem serves_simple (h : RevocationTailsGenerator.new L gamma gDash = .ok gen)
    (hnew : SimpleTailsAccessor.new gen = .ok (simple, gen')) (hi : i ∈ indices L) :
    Serves i L simple.accessTail (indices L) :=
  fun _ hj => ⟨_, witnessTail_simple h hnew hi hj⟩

theorem addTail_eq (omega : PointG2 C) :
    addTail i L accessor omega j = (omega + ·) <$> witnessTail i L accessor j := by
  rw [addTail, witnessTail, map_eq_pure_bind, bind_assoc]

theorem foldlM_addTail_eq_ok_iff {l : List UInt32} :
    l.foldlM (addTail i L accessor) omega = .ok omega' ↔
      (∀ j ∈ l, ∃ tail, witnessTail i L accessor j = .ok tail) ∧
        omega' = omega + (l.map <| tailValue i L accessor).sum := by
  induction l generalizing omega
  case nil => simp [pure_eq_ok_iff, eq_comm (a := omega)]
  case cons j l hi =>
    simp only [List.foldlM_cons, bind_eq_ok_iff, hi, addTail_eq, map_eq_pure_bind, pure_eq_ok_iff,
      List.forall_mem_cons, List.map_cons, List.sum_cons]
    constructor
    case mp =>
      rintro ⟨_, ⟨tail, htail, rfl⟩, hl, rfl⟩
      exact ⟨⟨⟨tail, htail⟩, hl⟩, by simp [tailValue, htail, Except.toOption, add_assoc]⟩
    case mpr =>
      rintro ⟨⟨⟨tail, htail⟩, hl⟩, rfl⟩
      refine ⟨_, ⟨tail, htail, rfl⟩, hl, ?_⟩
      simp [tailValue, htail, Except.toOption, add_assoc]

-- The order in which the set is walked does not matter.
theorem foldlM_addTail_order {l : List UInt32} (hmem : ∀ j, j ∈ l ↔ j ∈ S) (hl : l.Nodup) :
    l.foldlM (addTail i L accessor) omega = .ok omega' ↔
      Serves i L accessor S ∧ omega' = omega + ∑ j ∈ S, tailValue i L accessor j := by
  obtain rfl : l.toFinset = S := by
    ext j
    rw [List.mem_toFinset, hmem]
  rw [foldlM_addTail_eq_ok_iff, List.sum_toFinset _ hl]
  simp only [Serves, List.mem_toFinset]

namespace Witness

variable {w : Witness C} {d : RevocationRegistryDelta C} {V W : HashSet UInt32}

-- The valid indices of a registry before the first change.
def initialIndices (issuanceByDefault : Bool) (L : UInt32) : HashSet UInt32 :=
  if issuanceByDefault then indices L else ∅

theorem new_eq_ok_iff (hV : V ⊆ indices L) :
    new order i L byDefault (between p a (initialIndices byDefault L) V) accessor = .ok w ↔
      Serves i L accessor (V.erase i) ∧ w.omega = ∑ j ∈ V.erase i, tailValue i L accessor j := by
  have hvalid : (if byDefault then
      indices L \ (between (C := C) p a (initialIndices byDefault L) V).revoked
      else (between (C := C) p a (initialIndices byDefault L) V).issued) = V := by
    cases byDefault
    case false => exact Finset.sdiff_empty
    case true => exact Finset.sdiff_sdiff_eq_self hV
  obtain ⟨omega⟩ := w
  simp only [new, hvalid, bind_eq_ok_iff, pure_eq_ok_iff, mk.injEq, exists_eq_right,
    foldlM_addTail_order (fun j => order.mem_iter (V.erase i) j) (order.nodup_iter _), zero_add]

theorem sumTails_eq_ok_iff : sumTails order i L S accessor = .ok sum ↔
    Serves i L accessor (S.erase i) ∧ sum = ∑ j ∈ S.erase i, tailValue i L accessor j := by
  have hmem : ∀ j, j ∈ (order.iter S).filter (· ≠ i) ↔ j ∈ S.erase i := by
    intro j
    simp [order.mem_iter, and_comm]
  rw [sumTails, foldlM_addTail_order hmem <| (order.nodup_iter S).filter _, zero_add]

theorem update_eq_ok_iff {w' : Witness C} :
    w.update order i L (between p a V W) accessor = .ok w' ↔
      Serves i L accessor ((V \ W).erase i) ∧ Serves i L accessor ((W \ V).erase i) ∧
        w'.omega = w.omega + (∑ j ∈ W.erase i, tailValue i L accessor j -
          ∑ j ∈ V.erase i, tailValue i L accessor j) := by
  have htotal : ∑ j ∈ (W \ V).erase i, tailValue i L accessor j -
      ∑ j ∈ (V \ W).erase i, tailValue i L accessor j =
        ∑ j ∈ W.erase i, tailValue i L accessor j - ∑ j ∈ V.erase i, tailValue i L accessor j := by
    rw [Finset.erase_sdiff_distrib, Finset.erase_sdiff_distrib]
    exact SetDelta.total_between _
  obtain ⟨omega'⟩ := w'
  simp only [update, bind_eq_ok_iff, pure_eq_ok_iff, mk.injEq, sumTails_eq_ok_iff, between]
  rw [← htotal]
  constructor
  case mp =>
    rintro ⟨_, ⟨hdenom, rfl⟩, _, ⟨hnum, rfl⟩, rfl⟩
    exact ⟨hdenom, hnum, rfl⟩
  case mpr =>
    rintro ⟨hdenom, hnum, rfl⟩
    exact ⟨_, ⟨hdenom, rfl⟩, _, ⟨hnum, rfl⟩, rfl⟩

-- The updates of a holder, one for every published delta or group of deltas. Every update has its
-- own order of the hash sets.
def updateAll (w : Witness C) (i L : UInt32) (accessor : RevocationTailsAccessor C)
    (updates : List (HashOrder UInt32 × Grouping C)) : UrsaCryptoResult (Witness C) :=
  updates.foldlM
    (fun w update => do w.update update.1 i L (← update.2.merged) accessor) w

def newFrom (order : HashOrder UInt32) (i L : UInt32) (issuanceByDefault : Bool)
    (deltas : Grouping C) (accessor : RevocationTailsAccessor C) : UrsaCryptoResult (Witness C) := do
  Witness.new order i L issuanceByDefault (← deltas.merged) accessor

theorem serves_mono {S T : HashSet UInt32} (h : Serves i L accessor T) (hST : S ⊆ T) :
    Serves i L accessor S :=
  fun j hj => h j <| hST hj

theorem initialIndices_subset : initialIndices byDefault L ⊆ indices L := by
  cases byDefault
  case false => exact Finset.empty_subset _
  case true => exact Finset.Subset.refl _

theorem newFrom_eq_ok_iff {t : Grouping C} (h : Chain (initialIndices byDefault L) t.leaves V)
    (hV : V ⊆ indices L) :
    newFrom order i L byDefault t accessor = .ok w ↔
      Serves i L accessor (V.erase i) ∧ w.omega = ∑ j ∈ V.erase i, tailValue i L accessor j := by
  rw [newFrom, Grouping.merged_eq h, ok_bind, new_eq_ok_iff hV]

section UpdateAll

-- The deltas of the updates lead from `V` to `W`; without updates these are the same.
def Follows (V : HashSet UInt32) (updates : List (HashOrder UInt32 × Grouping C))
    (W : HashSet UInt32) : Prop :=
  updates.flatMap (·.2.leaves) = [] ∧ V = W ∨ Chain V (updates.flatMap (·.2.leaves)) W

variable {u : HashOrder UInt32 × Grouping C} {updates : List (HashOrder UInt32 × Grouping C)}

-- The first group of deltas, and the rest.
theorem follows_cons (h : Follows V (u :: updates) W) :
    ∃ X, Chain V u.2.leaves X ∧ Follows X updates W := by
  rw [Follows, List.flatMap_cons] at h
  obtain ⟨hnil, -⟩ | hchain := h
  · exact absurd (List.append_eq_nil_iff.mp hnil).1 u.2.leaves_ne_nil
  · exact RevocationRegistryDelta.chain_split u.2.leaves_ne_nil hchain

-- A step of the run: `omega` is the sum over the indices that are valid so far.
theorem updateAll_omega (h : Follows V updates W) (hserves : Serves i L accessor (V.erase i))
    (homega : w.omega = ∑ j ∈ V.erase i, tailValue i L accessor j)
    (hok : w.updateAll i L accessor updates = .ok w') :
    Serves i L accessor (W.erase i) ∧ w'.omega = ∑ j ∈ W.erase i, tailValue i L accessor j := by
  induction updates generalizing V w
  case nil =>
    rw [updateAll, List.foldlM_nil, pure_eq_ok_iff] at hok
    obtain ⟨-, rfl⟩ | hchain := h
    · exact hok ▸ ⟨hserves, homega⟩
    · cases hchain
  case cons u updates hi =>
    obtain ⟨X, hu, hrest⟩ := follows_cons h
    rw [updateAll, List.foldlM_cons, Grouping.merged_eq hu, ok_bind, bind_eq_ok_iff] at hok
    obtain ⟨w₁, hupdate, hok⟩ := hok
    obtain ⟨-, hnum, hw₁⟩ := update_eq_ok_iff.mp hupdate
    refine hi hrest (fun j hj => ?_) ?_ hok
    · by_cases hjV : j ∈ V
      case pos => exact hserves j <| Finset.mem_erase.mpr ⟨Finset.ne_of_mem_erase hj, hjV⟩
      case neg =>
        refine hnum j <| Finset.mem_erase.mpr ⟨Finset.ne_of_mem_erase hj, ?_⟩
        exact Finset.mem_sdiff.mpr ⟨Finset.mem_of_mem_erase hj, hjV⟩
    · rw [hw₁, homega, add_sub_cancel]

theorem updateAll_ok (h : Follows V updates W) (hserves : Serves i L accessor (indices L))
    (hV : V ⊆ indices L) (hissued : ∀ d ∈ updates.flatMap (·.2.leaves), d.issued ⊆ indices L) :
    ∃ w', w.updateAll i L accessor updates = .ok w' := by
  induction updates generalizing V w
  case nil => exact ⟨w, rfl⟩
  case cons u updates hi =>
    obtain ⟨X, hu, hrest⟩ := follows_cons h
    rw [List.flatMap_cons] at hissued
    have hX : X ⊆ indices L := RevocationRegistryDelta.chain_subset hu hV fun d hd =>
      hissued d <| List.mem_append_left _ hd
    have hsub : ∀ S T, S ⊆ indices L → Serves i L accessor ((S \ T).erase i) := fun S T hS =>
      serves_mono hserves <| (Finset.erase_subset ..).trans <| Finset.sdiff_subset.trans hS
    obtain ⟨w₁, hw₁⟩ : ∃ w₁, w.update u.1 i L (between _ _ V X) accessor = .ok w₁ :=
      ⟨⟨_⟩, update_eq_ok_iff.mpr ⟨hsub V X hV, hsub X V hX, rfl⟩⟩
    obtain ⟨w', hw'⟩ := hi hrest hX fun d hd => hissued d <| List.mem_append_right _ hd
    exact ⟨w', by rw [updateAll, List.foldlM_cons, Grouping.merged_eq hu, ok_bind, hw₁]; exact hw'⟩

end UpdateAll

theorem update_agrees {first whole : Grouping C} {updates : List (HashOrder UInt32 × Grouping C)}
    (h : Chain (initialIndices byDefault L) whole.leaves V)
    (hissued : ∀ d ∈ whole.leaves, d.issued ⊆ indices L)
    (hsplit : whole.leaves = first.leaves ++ updates.flatMap (·.2.leaves)) :
    let incremental := do
      let w ← newFrom order i L byDefault first accessor
      w.updateAll i L accessor updates
    (∀ w, incremental = .ok w → newFrom order' i L byDefault whole accessor = .ok w) ∧
      (Serves i L accessor (indices L) → ∃ w, incremental = .ok w) := by
  intro incremental
  have hV : V ⊆ indices L := RevocationRegistryDelta.chain_subset h initialIndices_subset hissued
  obtain ⟨X, hfirst, hrest⟩ := RevocationRegistryDelta.chain_split first.leaves_ne_nil (hsplit ▸ h)
  rw [hsplit] at hissued
  have hX : X ⊆ indices L := RevocationRegistryDelta.chain_subset hfirst initialIndices_subset
    fun d hd => hissued d <| List.mem_append_left _ hd
  constructor
  case left =>
    intro w hok
    obtain ⟨w₁, hw₁, hok⟩ := bind_eq_ok_iff.mp hok
    obtain ⟨hserves, homega⟩ := (newFrom_eq_ok_iff hfirst hX).mp hw₁
    exact (newFrom_eq_ok_iff h hV).mpr <| updateAll_omega hrest hserves homega hok
  case right =>
    intro hserves
    obtain ⟨w₁, hw₁⟩ : ∃ w₁, newFrom order i L byDefault first accessor = .ok w₁ :=
      ⟨⟨_⟩, (newFrom_eq_ok_iff hfirst hX).mpr
        ⟨serves_mono hserves <| (Finset.erase_subset ..).trans hX, rfl⟩⟩
    obtain ⟨w, hw⟩ :=
      updateAll_ok hrest hserves hX fun d hd => hissued d <| List.mem_append_right _ hd
    exact ⟨w, bind_eq_ok_iff.mpr ⟨w₁, hw₁, hw⟩⟩

section Residues

open ProofVerifier (curveMod11 mod11)

def ascending : HashOrder UInt32 :=
  .sorted UInt32.toNat fun _ _ h => UInt32.toNat_inj.mp h

-- The tails for `gamma = 2`.
def accessorMod11 : RevocationTailsAccessor curveMod11 :=
  fun tailId => .ok <| mod11 (2 ^ tailId.toNat)

def revokeMod11 (j : UInt32) (prevAccum accum : ℕ) : RevocationRegistryDelta curveMod11 where
  prevAccum := some <| mod11 prevAccum
  accum := mod11 accum
  issued := ∅
  revoked := {j}

def recoverMod11 (j : UInt32) (prevAccum accum : ℕ) : RevocationRegistryDelta curveMod11 where
  prevAccum := some <| mod11 prevAccum
  accum := mod11 accum
  issued := {j}
  revoked := ∅

-- The holder of 1 sees the revocation of 2, then that of 1 itself and the recovery of 2.
theorem update_agrees_mod11 :
    let first : Grouping curveMod11 := .delta <| revokeMod11 2 6 4
    let rest : Grouping curveMod11 :=
      .merge (.delta <| revokeMod11 1 4 0) (.delta <| recoverMod11 2 0 2)
    newFrom ascending 1 2 true (.merge first rest) accessorMod11 = .ok ⟨mod11 4⟩ := by
  intro first rest
  have hchain : Chain (initialIndices true 2) (Grouping.merge first rest).leaves {2} :=
    .cons (V := {1}) ⟨by decide, by decide, by decide⟩ rfl <|
      .cons (V := ∅) ⟨by decide, by decide, by decide⟩ rfl <|
        .single ⟨by decide, by decide, by decide⟩
  have hissued : ∀ d ∈ (Grouping.merge first rest).leaves, d.issued ⊆ indices 2 := by
    decide
  have hsplit : (Grouping.merge first rest).leaves =
      first.leaves ++ [(ascending, rest)].flatMap (·.2.leaves) := rfl
  have hok : (do
      let w ← newFrom ascending 1 2 true first accessorMod11
      w.updateAll 1 2 accessorMod11 [(ascending, rest)]) = .ok ⟨mod11 4⟩ := rfl
  exact (update_agrees hchain hissued hsplit).1 _ hok

end Residues
end Witness
end Sums
end Ursa
