import Mathlib.Data.Finmap
import Mathlib.Data.Finset.Sort
import Mathlib.Data.String.Basic

namespace Ursa

-- `std::collections`. A map or a set is its contents; the order in which a B-tree or a hash table
-- is walked is a separate function of the contents.
abbrev HashMap (V : Type) := Finmap (fun _ : String => V)

abbrev BTreeMap (V : Type) := Finmap (fun _ : String => V)

abbrev HashSet (α : Type) := Finset α

abbrev BTreeSet (α : Type) := Finset α

-- The order in which a loop meets the elements of a hash set.
structure HashOrder (α : Type) where
  iter : HashSet α → List α
  mem_iter : ∀ s a, a ∈ iter s ↔ a ∈ s
  nodup_iter : ∀ s, (iter s).Nodup

namespace HashMap

variable {V : Type}

-- The map that takes each key of `keys` to its value under `f`.
def tabulate (keys : List String) (f : String → V) : HashMap V :=
  keys.foldl (fun m k => m.insert k (f k)) ∅

theorem lookup_foldl_insert (keys : List String) (f : String → V) (m : HashMap V) :
    (keys.foldl (fun m k => m.insert k (f k)) m).lookup k =
      if k ∈ keys then some (f k) else m.lookup k := by
  induction keys generalizing m
  case nil => simp
  case cons k' keys hi =>
    rw [List.foldl_cons, hi]
    obtain rfl | hne := eq_or_ne k k'
    · simp
    · simp [hne, Finmap.lookup_insert_of_ne]

theorem lookup_tabulate (keys : List String) (f : String → V) :
    (tabulate keys f).lookup k = if k ∈ keys then some (f k) else none := by
  rw [tabulate, lookup_foldl_insert, Finmap.lookup_empty]

theorem keys_tabulate (keys : List String) (f : String → V) :
    (tabulate keys f).keys = keys.toFinset := by
  ext k
  rw [Finmap.mem_keys, ← Finmap.lookup_isSome, lookup_tabulate, List.mem_toFinset]
  split <;> simp_all

end HashMap

namespace BTreeSet

variable {α : Type} [LinearOrder α]

-- The elements in ascending order.
def iter (s : BTreeSet α) : List α :=
  Quot.liftOn s.val (List.insertionSort (· ≤ ·)) fun l₁ l₂ (h : l₁.Perm l₂) =>
    List.Perm.eq_of_pairwise (fun _ _ _ _ => le_antisymm)
      (List.pairwise_insertionSort _ l₁) (List.pairwise_insertionSort _ l₂)
      ((List.perm_insertionSort _ l₁).trans <| h.trans (List.perm_insertionSort _ l₂).symm)

theorem coe_iter (s : BTreeSet α) : (s.iter : Multiset α) = s.val := by
  obtain ⟨⟨l⟩, _⟩ := s
  exact Multiset.coe_eq_coe.mpr (List.perm_insertionSort _ l)

@[simp]
theorem mem_iter {s : BTreeSet α} : a ∈ s.iter ↔ a ∈ s := by
  rw [← Multiset.mem_coe, coe_iter, Finset.mem_val]

theorem nodup_iter (s : BTreeSet α) : s.iter.Nodup := by
  rw [← Multiset.coe_nodup, coe_iter]
  exact s.nodup

theorem pairwise_iter (s : BTreeSet α) : s.iter.Pairwise (· ≤ ·) := by
  obtain ⟨⟨l⟩, _⟩ := s
  exact List.pairwise_insertionSort _ l

-- A list without repetitions that ascends is the walk through its elements.
theorem eq_iter {l : List α} {s : BTreeSet α} (hl : l.Pairwise (· ≤ ·)) (hnodup : l.Nodup)
    (h : ∀ a, a ∈ l ↔ a ∈ s) : l = s.iter := by
  refine List.Perm.eq_of_pairwise (fun _ _ _ _ => le_antisymm) hl s.pairwise_iter ?_
  exact (List.perm_ext_iff_of_nodup hnodup s.nodup_iter).mpr fun a => by rw [h a, mem_iter]

end BTreeSet

-- Hash sets that are walked in ascending order of a key.
def HashOrder.sorted {α : Type} (key : α → ℕ) (h : Function.Injective key) : HashOrder α :=
  let _ := LinearOrder.lift' key h
  { iter := fun s => BTreeSet.iter s
    mem_iter := fun _ _ => BTreeSet.mem_iter
    nodup_iter := BTreeSet.nodup_iter }

namespace BTreeMap

variable {α V : Type}

-- The entries in ascending order of their keys.
def iter (m : BTreeMap V) : List (String × V) :=
  (BTreeSet.iter m.keys).filterMap fun k => (m.lookup k).map (k, ·)

theorem mem_iter {m : BTreeMap V} : (k, v) ∈ m.iter ↔ m.lookup k = some v := by
  simp only [iter, List.mem_filterMap, BTreeSet.mem_iter, Option.map_eq_some_iff, Prod.mk.injEq]
  constructor
  case mp =>
    rintro ⟨k', -, v', h, rfl, rfl⟩
    exact h
  case mpr =>
    intro h
    have hk : k ∈ m.keys := Finmap.mem_keys.mpr <| Finmap.mem_of_lookup_eq_some h
    exact ⟨k, hk, v, h, rfl, rfl⟩

theorem map_fst_iter (m : BTreeMap V) : m.iter.map Prod.fst = BTreeSet.iter m.keys := by
  rw [iter, List.map_filterMap]
  refine (List.filterMap_congr fun k hk => ?_).trans List.filterMap_some
  rw [BTreeSet.mem_iter, Finmap.mem_keys, Finmap.mem_iff] at hk
  obtain ⟨v, hv⟩ := hk
  simp [hv]

theorem nodup_fst_iter (m : BTreeMap V) : (m.iter.map Prod.fst).Nodup := by
  rw [map_fst_iter]
  exact BTreeSet.nodup_iter m.keys

theorem pairwise_iter (m : BTreeMap V) : m.iter.Pairwise (·.1 < ·.1) := by
  have hle : m.iter.Pairwise (·.1 ≤ ·.1) :=
    List.pairwise_map.mp <| map_fst_iter m ▸ BTreeSet.pairwise_iter m.keys
  exact hle.imp₂ (fun _ _ => lt_of_le_of_ne) <| List.pairwise_map.mp m.nodup_fst_iter

theorem map_iter (f : String × V → α) (d : V) (m : BTreeMap V) :
    m.iter.map f = (BTreeSet.iter m.keys).map fun k => f (k, (m.lookup k).getD d) := by
  rw [iter, ← List.filterMap_eq_map, ← List.filterMap_eq_map, List.filterMap_filterMap]
  refine List.filterMap_congr fun k hk => ?_
  rw [BTreeSet.mem_iter, Finmap.mem_keys, Finmap.mem_iff] at hk
  obtain ⟨v, hv⟩ := hk
  simp [hv]

end BTreeMap

end Ursa
