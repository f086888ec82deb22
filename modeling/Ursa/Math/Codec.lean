import Mathlib.Data.List.Flatten
import Mathlib.Tactic.Ring

-- Byte encodings of a fixed size, which can be cut out of a longer text by their position.

-- The bytes from `start` on, as far as there are `size` of them.
def List.block (data : List UInt8) (start size : ℕ) : List UInt8 :=
  (data.drop start).take size

theorem List.length_block {data : List UInt8} (h : start + size ≤ data.length) :
    (data.block start size).length = size := by
  rw [List.block, List.length_take, List.length_drop]
  omega

-- What stands at a position, and what is left after it.
theorem List.block_eq_iff {data bs : List UInt8} (h : bs.length = size) :
    data.block start size = bs ↔ data.drop start = bs ++ data.drop (start + size) := by
  constructor
  case mp =>
    rintro rfl
    rw [List.block, ← List.drop_drop, List.take_append_drop]
  case mpr =>
    intro hdrop
    rw [List.block, hdrop, List.take_left' h]

theorem List.block_take {data : List UInt8} (h : start + size ≤ n) :
    (data.take n).block start size = data.block start size := by
  rw [List.block, List.block, List.drop_take, List.take_take, min_eq_left (by omega)]

theorem List.drop_add_of_drop {data bs rest : List UInt8} (h : bs.length = size)
    (hdrop : data.drop start = bs ++ rest) : data.drop (start + size) = rest := by
  rw [← List.drop_drop, hdrop, List.drop_left' h]

section Shifts

variable {α : Type} {a b a' b' : List α}

-- Of two texts that are put together without their lengths, the first one goes on where the other
-- first one has ended.
def List.Shifts (a b a' b' : List α) : Prop :=
  ∃ s, s ≠ [] ∧ a' = a ++ s ∧ b = s ++ b'

theorem List.not_shifts_of_length_eq (h : a.length = a'.length) : ¬a.Shifts b a' b' := by
  rintro ⟨s, hs, rfl, -⟩
  rw [List.length_append] at h
  exact hs <| List.length_eq_zero_iff.mp <| by omega

theorem List.append_eq_append_iff_shifts :
    a ++ b = a' ++ b' ↔ (a = a' ∧ b = b') ∨ a.Shifts b a' b' ∨ a'.Shifts b' a b := by
  constructor
  case mp =>
    intro h
    obtain ⟨s, ha, hb⟩ | ⟨s, ha, hb⟩ := List.append_eq_append_iff.mp h
    case inl =>
      obtain rfl | hs := eq_or_ne s []
      · exact .inl ⟨by rw [ha, List.append_nil], hb⟩
      · exact .inr <| .inl ⟨s, hs, ha, hb⟩
    case inr =>
      obtain rfl | hs := eq_or_ne s []
      · exact .inl ⟨by rw [ha, List.append_nil], hb.symm⟩
      · exact .inr <| .inr ⟨s, hs, ha, hb⟩
  case mpr =>
    rintro (⟨rfl, rfl⟩ | ⟨s, -, rfl, rfl⟩ | ⟨s, -, rfl, rfl⟩)
    all_goals simp

end Shifts

-- Every value has one encoding, and nothing else decodes.
structure FixedCodec (α ε : Type) where
  size : ℕ
  encode : α → List UInt8
  decode : List UInt8 → Except ε α
  length_encode : ∀ a, (encode a).length = size
  decode_encode : ∀ a, decode (encode a) = .ok a
  encode_of_decode : ∀ bs a, decode bs = .ok a → encode a = bs

namespace FixedCodec

variable {α ε : Type} (c : FixedCodec α ε) {bs data : List UInt8}

theorem decode_eq_ok_iff : c.decode bs = .ok a ↔ bs = c.encode a where
  mp h := (c.encode_of_decode _ _ h).symm
  mpr h := h ▸ c.decode_encode a

def Decodes (bs : List UInt8) : Prop :=
  ∃ a, c.decode bs = .ok a

def encodeAll (as : List α) : List UInt8 :=
  as.flatMap c.encode

theorem encodeAll_cons (a : α) (as : List α) :
    c.encodeAll (a :: as) = c.encode a ++ c.encodeAll as :=
  List.flatMap_cons

theorem length_encodeAll (as : List α) : (c.encodeAll as).length = as.length * c.size := by
  induction as
  case nil => simp [encodeAll]
  case cons a as hi =>
    rw [encodeAll_cons, List.length_append, c.length_encode, hi, List.length_cons]
    ring

theorem decode_block_eq_ok_iff :
    c.decode (data.block start c.size) = .ok a ↔
      data.drop start = c.encode a ++ data.drop (start + c.size) :=
  c.decode_eq_ok_iff.trans <| List.block_eq_iff <| c.length_encode a

-- A text starts with the encodings of `n` values if each of its first `n` blocks is one.
theorem exists_encodeAll_iff :
    (∃ as : List α, as.length = n ∧
      data.drop start = c.encodeAll as ++ data.drop (start + n * c.size)) ↔
      ∀ k < n, c.Decodes (data.block (start + k * c.size) c.size) := by
  induction n generalizing start
  case zero => simp [encodeAll]
  case succ n hi =>
    have hnext (k : ℕ) : start + (k + 1) * c.size = start + c.size + k * c.size := by ring
    rw [Nat.forall_lt_succ_left]
    simp only [hnext, ← hi, Nat.zero_mul, Nat.add_zero]
    simp only [Decodes, decode_block_eq_ok_iff]
    constructor
    case mp =>
      rintro ⟨as, hlen, hall⟩
      obtain ⟨a, as, rfl⟩ := List.exists_cons_of_length_eq_add_one hlen
      rw [encodeAll_cons, List.append_assoc] at hall
      have hrest := List.drop_add_of_drop (c.length_encode a) hall
      exact ⟨⟨a, by rw [hrest, hall]⟩, as, by simpa using hlen, hrest⟩
    case mpr =>
      rintro ⟨⟨a, ha⟩, as, hlen, hall⟩
      refine ⟨a :: as, by rw [List.length_cons, hlen], ?_⟩
      rw [ha, hall, encodeAll_cons, List.append_assoc]

end FixedCodec
