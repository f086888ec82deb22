import Ursa.Zmix.Keys
import Ursa.Zmix.Theorems.Totality

namespace Ursa

open ZmixResult
open UrsaCryptoResult (bind_eq_ok_iff ok_bind)

theorem u32FromBeBytes_lt : u32FromBeBytes b₀ b₁ b₂ b₃ < 2 ^ 32 := by
  have h₀ := b₀.toNat_lt
  have h₁ := b₁.toNat_lt
  have h₂ := b₂.toNat_lt
  have h₃ := b₃.toNat_lt
  unfold u32FromBeBytes
  omega

theorem u32ToBeBytes_length (n : UInt32) : (u32ToBeBytes n).length = 4 :=
  rfl

theorem toNat_u32ToBeBytes (n : UInt32) : u32ToBeBytes n =
    [UInt8.ofNat (n.toNat / 2 ^ 24), UInt8.ofNat (n.toNat / 2 ^ 16), UInt8.ofNat (n.toNat / 2 ^ 8),
      UInt8.ofNat n.toNat] := by
  simp [u32ToBeBytes, ← UInt8.toNat_inj, UInt32.toNat_shiftRight, Nat.shiftRight_eq_div_pow]

theorem u32ToBeBytes_eq_iff (h : n < 2 ^ 32) :
    u32ToBeBytes (UInt32.ofNat n) = [b₀, b₁, b₂, b₃] ↔ u32FromBeBytes b₀ b₁ b₂ b₃ = n := by
  have h₀ := b₀.toNat_lt
  have h₁ := b₁.toNat_lt
  have h₂ := b₂.toNat_lt
  have h₃ := b₃.toNat_lt
  simp only [toNat_u32ToBeBytes, UInt32.toNat_ofNat_of_lt' h, List.cons.injEq, and_true,
    ← UInt8.toNat_inj, UInt8.toNat_ofNat', u32FromBeBytes]
  omega

namespace ZmixResult

variable {Kind : Type} {data : List UInt8}

theorem slice_of_le (h : start + size ≤ data.length) :
    (slice data start (start + size) : ZmixResult Kind _) = .ok (data.block start size) := by
  rw [slice, if_pos ⟨by omega, h⟩, Nat.add_sub_cancel_left]

theorem panics_slice (h : data.length < start + size) :
    Panics (slice data start (start + size) : ZmixResult Kind _) := by
  rw [slice, if_neg fun hle => by omega]
  exact ⟨_, rfl⟩

theorem panics_nth_bind {l : List α} {f : α → ZmixResult Kind β} (h : ∀ a, Panics (f a)) :
    Panics (nth l i >>= f) := by
  rw [panics_bind_iff, panics_nth_iff]
  obtain hi | hi := lt_or_ge i l.length
  case inl => exact .inr ⟨_, nth_eq_getElem hi, h _⟩
  case inr => exact .inl hi

theorem not_panics_mapError {x : Except Kind α} : ¬Panics (x.mapError ZmixFailure.err) := by
  rintro ⟨_, h⟩
  cases x <;> cases h

theorem mapError_eq_ok_iff {x : Except Kind α} :
    x.mapError ZmixFailure.err = .ok a ↔ x = .ok a := by
  cases x <;> simp [Except.mapError]

end ZmixResult

namespace Bbs.PublicKey

variable {C : Curve} {SerzDeserzError : Type} {codecs : GroupCodecs C SerzDeserzError}
variable {G : Type} {codec : FixedCodec G SerzDeserzError} {data : List UInt8}

section ReadPoint

theorem readPoint_eq_ok_iff : readPoint codec data i = .ok p ↔
    i + codec.size ≤ data.length ∧ data.drop i = codec.encode p ++ data.drop (i + codec.size) := by
  rw [readPoint]
  obtain h | h := lt_or_ge data.length (i + codec.size)
  case inl =>
    obtain ⟨_, hs⟩ : Panics (slice data i (i + codec.size) : ZmixResult SerzDeserzError _) :=
      panics_slice h
    rw [hs]
    exact iff_of_false (by rintro ⟨⟩) fun hle => hle.1.not_gt h
  case inr =>
    rw [slice_of_le h, ok_bind, mapError_eq_ok_iff, codec.decode_block_eq_ok_iff]
    exact (and_iff_right h).symm

theorem panics_readPoint_iff : Panics (readPoint codec data i) ↔ data.length < i + codec.size := by
  rw [readPoint, panics_bind_iff, or_iff_left fun ⟨_, _, h⟩ => not_panics_mapError h]
  obtain h | h := lt_or_ge data.length (i + codec.size)
  case inl => exact iff_of_true (panics_slice h) h
  case inr =>
    rw [slice_of_le h]
    exact iff_of_false not_panics_ok h.not_gt

theorem decodes_block_iff (h : i + codec.size ≤ data.length) :
    codec.Decodes (data.block i codec.size) ↔ ∃ p, readPoint codec data i = .ok p := by
  simp only [FixedCodec.Decodes, codec.decode_block_eq_ok_iff, readPoint_eq_ok_iff, h, true_and]

end ReadPoint

section Loop

theorem next_eq_ok_iff {s s' : Reading C} : s.next codecs data = .ok s' ↔
    ∃ p, readPoint codecs.g1 data s.index = .ok p ∧
      { index := s.index + codecs.g1.size, h := s.h ++ [p] } = s' := by
  rw [Reading.next, bind_eq_ok_iff]
  simp only [UrsaCryptoResult.pure_eq_ok_iff]

theorem panics_next_iff {s : Reading C} :
    Panics (s.next codecs data) ↔ data.length < s.index + codecs.g1.size := by
  rw [Reading.next, panics_bind_iff, or_iff_left fun ⟨_, _, h⟩ => not_panics_pure h,
    panics_readPoint_iff]

-- What the loop does depends on the number of its rounds only.
theorem foldlM_next_eq_ok_iff {is : List ℕ} {s s' : Reading C} (h : s.index ≤ data.length) :
    is.foldlM (fun (s : Reading C) _ => s.next codecs data) s = .ok s' ↔
      ∃ ps, ps.length = is.length ∧ s.index + is.length * codecs.g1.size ≤ data.length ∧
        data.drop s.index =
          codecs.g1.encodeAll ps ++ data.drop (s.index + is.length * codecs.g1.size) ∧
        { index := s.index + is.length * codecs.g1.size, h := s.h ++ ps } = s' := by
  induction is generalizing s
  case nil =>
    rw [List.foldlM_nil, UrsaCryptoResult.pure_eq_ok_iff]
    constructor
    case mp =>
      rintro rfl
      exact ⟨[], by simp [FixedCodec.encodeAll, h]⟩
    case mpr =>
      rintro ⟨ps, hps, -, -, rfl⟩
      simp [List.length_eq_zero_iff.mp hps]
  case cons i is hi =>
    have hmul : (is.length + 1) * codecs.g1.size =
        codecs.g1.size + is.length * codecs.g1.size := by ring
    rw [List.foldlM_cons, bind_eq_ok_iff, List.length_cons, hmul, ← Nat.add_assoc]
    constructor
    case mp =>
      rintro ⟨_, hs, hrest⟩
      obtain ⟨p, hp, rfl⟩ := next_eq_ok_iff.mp hs
      obtain ⟨hle, hdrop⟩ := readPoint_eq_ok_iff.mp hp
      obtain ⟨ps, hps, hlen, hall, rfl⟩ := (hi hle).mp hrest
      refine ⟨p :: ps, by rw [List.length_cons, hps], hlen, ?_, by simp⟩
      rw [hdrop, hall, FixedCodec.encodeAll_cons, List.append_assoc]
    case mpr =>
      rintro ⟨ps, hps, hlen, hall, rfl⟩
      obtain ⟨p, ps, rfl⟩ := List.exists_cons_of_length_eq_add_one hps
      rw [FixedCodec.encodeAll_cons, List.append_assoc] at hall
      have hdrop : data.drop (s.index + codecs.g1.size) = codecs.g1.encodeAll ps ++
          data.drop (s.index + codecs.g1.size + is.length * codecs.g1.size) :=
        List.drop_add_of_drop (codecs.g1.length_encode p) hall
      have hle : s.index + codecs.g1.size ≤ data.length := by omega
      refine ⟨_, next_eq_ok_iff.mpr ⟨p, ?_, rfl⟩, (hi hle).mpr ⟨ps, ?_, hlen, hdrop, by simp⟩⟩
      · rw [readPoint_eq_ok_iff, hdrop]
        exact ⟨hle, hall⟩
      · simpa using hps

-- It panics as soon as a generator is cut off, unless one of those before it does not decode.
theorem panics_foldlM_next_iff {is : List ℕ} {s : Reading C} (h : s.index ≤ data.length) :
    Panics (is.foldlM (fun (s : Reading C) _ => s.next codecs data) s) ↔
      data.length < s.index + is.length * codecs.g1.size ∧
        ∀ k < is.length, s.index + (k + 1) * codecs.g1.size ≤ data.length →
          codecs.g1.Decodes (data.block (s.index + k * codecs.g1.size) codecs.g1.size) := by
  induction is generalizing s
  case nil =>
    rw [List.foldlM_nil]
    exact iff_of_false not_panics_pure fun hlt => by simp at hlt; omega
  case cons i is hi =>
    have hmul (n : ℕ) : s.index + (n + 1) * codecs.g1.size =
        s.index + codecs.g1.size + n * codecs.g1.size := by ring
    rw [List.foldlM_cons, panics_bind_iff, panics_next_iff, List.length_cons]
    obtain hlt | hle := lt_or_ge data.length (s.index + codecs.g1.size)
    case inl =>
      refine iff_of_true (.inl hlt) ⟨?_, fun k _ hk => ?_⟩
      · rw [hmul]
        omega
      · rw [hmul] at hk
        omega
    case inr =>
      rw [or_iff_right hle.not_gt, Nat.forall_lt_succ_left]
      simp only [hmul, Nat.zero_mul, Nat.add_zero, hle, forall_const, decodes_block_iff hle]
      constructor
      case mp =>
        rintro ⟨_, hs, hrest⟩
        obtain ⟨p, hp, rfl⟩ := next_eq_ok_iff.mp hs
        have ⟨hlt, hall⟩ := (hi hle).mp hrest
        exact ⟨hlt, ⟨p, hp⟩, hall⟩
      case mpr =>
        rintro ⟨hlt, ⟨p, hp⟩, hall⟩
        exact ⟨_, next_eq_ok_iff.mpr ⟨p, hp, rfl⟩, (hi hle).mpr ⟨hlt, hall⟩⟩

end Loop

section Format

theorem toBytes_eq {pk : PublicKey C} : pk.toBytes codecs =
    codecs.g2.encode pk.w ++ (codecs.g1.encode pk.h0 ++
      (u32ToBeBytes (UInt32.ofNat pk.h.length) ++ codecs.g1.encodeAll pk.h)) := by
  rw [toBytes, List.foldl_append_eq_append, List.append_assoc, List.append_assoc]
  rfl

-- The number of generators that `data` names, and the length that it announces with it.
def generatorCount (codecs : GroupCodecs C SerzDeserzError) (data : List UInt8) : ℕ :=
  BigNumber.magnitude <| data.block (codecs.g2.size + codecs.g1.size) 4

def announcedLength (codecs : GroupCodecs C SerzDeserzError) (data : List UInt8) : ℕ :=
  codecs.g2.size + codecs.g1.size + 4 + generatorCount codecs data * codecs.g1.size

theorem magnitude_four :
    BigNumber.magnitude [b₀, b₁, b₂, b₃] = u32FromBeBytes b₀ b₁ b₂ b₃ := by
  simp only [BigNumber.magnitude, List.foldl_cons, List.foldl_nil, u32FromBeBytes]
  ring

theorem readU32_of_le (h : i + 4 ≤ data.length) :
    (readU32 data i : ZmixResult SerzDeserzError ℕ) =
      .ok (BigNumber.magnitude <| data.block i 4) := by
  obtain ⟨b₀, b₁, b₂, b₃, hb⟩ := List.length_eq_four.mp <| List.length_block h
  have hnth (k : ℕ) (hk : k < 4) : (nth data (i + k) : ZmixResult SerzDeserzError UInt8) =
      .ok ([b₀, b₁, b₂, b₃].getD k 0) := by
    rw [nth_of_lt 0 (by omega), ← hb]
    simp [List.block, List.getD_eq_getElem?_getD, hk]
  have h₀ := hnth 0 (by decide)
  have h₁ := hnth 1 (by decide)
  have h₂ := hnth 2 (by decide)
  have h₃ := hnth 3 (by decide)
  rw [Nat.add_zero] at h₀
  rw [readU32, h₀, h₁, h₂, h₃, hb, magnitude_four]
  rfl

theorem panics_readU32 (h : data.length < i + 4) :
    Panics (readU32 data i : ZmixResult SerzDeserzError ℕ) := by
  refine panics_nth_bind fun _ => panics_nth_bind fun _ => panics_nth_bind fun _ => ?_
  exact panics_bind_iff.mpr <| .inl <| panics_nth_iff.mpr <| by omega

theorem readU32_eq_ok_iff : (readU32 data i : ZmixResult SerzDeserzError ℕ) = .ok n ↔
    i + 4 ≤ data.length ∧ n < 2 ^ 32 ∧
      data.drop i = u32ToBeBytes (UInt32.ofNat n) ++ data.drop (i + 4) := by
  obtain h | h := lt_or_ge data.length (i + 4)
  case inl =>
    obtain ⟨_, hp⟩ : Panics (readU32 data i : ZmixResult SerzDeserzError ℕ) := panics_readU32 h
    rw [hp]
    exact iff_of_false (by rintro ⟨⟩) fun hle => hle.1.not_gt h
  case inr =>
    obtain ⟨b₀, b₁, b₂, b₃, hb⟩ := List.length_eq_four.mp <| List.length_block h
    rw [readU32_of_le h, Except.ok.injEq,
      ← List.block_eq_iff (u32ToBeBytes_length _), hb, magnitude_four, and_iff_right h]
    constructor
    case mp =>
      rintro rfl
      exact ⟨u32FromBeBytes_lt, ((u32ToBeBytes_eq_iff u32FromBeBytes_lt).mpr rfl).symm⟩
    case mpr =>
      rintro ⟨hn, heq⟩
      exact (u32ToBeBytes_eq_iff hn).mp heq.symm

theorem readU32_eq_generatorCount (h : codecs.g2.size + codecs.g1.size + 4 ≤ data.length) :
    readU32 data (codecs.g2.size + codecs.g1.size) =
      (.ok (generatorCount codecs data) : ZmixResult SerzDeserzError ℕ) :=
  readU32_of_le h

theorem panics_readU32_iff :
    Panics (readU32 data i : ZmixResult SerzDeserzError ℕ) ↔ data.length < i + 4 := by
  refine ⟨fun hp => not_le.mp fun h => ?_, panics_readU32⟩
  rw [readU32_of_le h] at hp
  exact not_panics_ok hp

theorem fromBytes_parts {pk : PublicKey C} : fromBytes codecs data = .ok pk ↔
    readPoint codecs.g2 data 0 = .ok pk.w ∧
    readPoint codecs.g1 data codecs.g2.size = .ok pk.h0 ∧
    readU32 data (codecs.g2.size + codecs.g1.size) =
      (.ok pk.h.length : ZmixResult SerzDeserzError ℕ) ∧
    codecs.g2.size + codecs.g1.size + 4 + pk.h.length * codecs.g1.size ≤ data.length ∧
    data.drop (codecs.g2.size + codecs.g1.size + 4) = codecs.g1.encodeAll pk.h ++
      data.drop (codecs.g2.size + codecs.g1.size + 4 + pk.h.length * codecs.g1.size) := by
  simp only [fromBytes, bind_eq_ok_iff, UrsaCryptoResult.pure_eq_ok_iff, Nat.zero_add]
  constructor
  case mp =>
    rintro ⟨w, hw, h0, hh, n, hn, s, hs, rfl⟩
    have hlen := (readU32_eq_ok_iff.mp hn).1
    obtain ⟨ps, hps, hle, hall, rfl⟩ := (foldlM_next_eq_ok_iff hlen).mp hs
    rw [List.length_range] at hps hle hall
    subst hps
    exact ⟨hw, hh, hn, hle, hall⟩
  case mpr =>
    rintro ⟨hw, hh, hn, hle, hall⟩
    have hlen := (readU32_eq_ok_iff.mp hn).1
    refine ⟨pk.w, hw, pk.h0, hh, pk.h.length, hn,
      { index := codecs.g2.size + codecs.g1.size + 4 + pk.h.length * codecs.g1.size, h := pk.h },
      ?_, rfl⟩
    rw [foldlM_next_eq_ok_iff hlen, List.length_range]
    exact ⟨pk.h, rfl, hle, hall, rfl⟩

theorem fromBytes_eq_ok_iff {pk : PublicKey C} : fromBytes codecs data = .ok pk ↔
    pk.h.length < 2 ^ 32 ∧ ∃ rest, data = pk.toBytes codecs ++ rest := by
  rw [fromBytes_parts, readPoint_eq_ok_iff, readPoint_eq_ok_iff, readU32_eq_ok_iff, Nat.zero_add,
    List.drop_zero]
  constructor
  case mp =>
    rintro ⟨⟨-, hw⟩, ⟨-, hh⟩, ⟨-, hn, hcount⟩, -, hall⟩
    refine ⟨hn, data.drop <| codecs.g2.size + codecs.g1.size + 4 + pk.h.length * codecs.g1.size, ?_⟩
    conv_lhs => rw [hw, hh, hcount, hall]
    simp only [toBytes_eq, List.append_assoc]
  case mpr =>
    rintro ⟨hn, rest, hdata⟩
    simp only [toBytes_eq, List.append_assoc] at hdata
    have hlen := congrArg List.length hdata
    simp only [List.length_append, FixedCodec.length_encode, FixedCodec.length_encodeAll,
      u32ToBeBytes_length] at hlen
    have hw : data.drop 0 = _ := hdata
    have hh := List.drop_add_of_drop (codecs.g2.length_encode pk.w) hw
    rw [Nat.zero_add] at hh
    have hcount := List.drop_add_of_drop (codecs.g1.length_encode pk.h0) hh
    have hall := List.drop_add_of_drop (u32ToBeBytes_length _) hcount
    have hrest := List.drop_add_of_drop (codecs.g1.length_encodeAll pk.h) hall
    exact ⟨⟨by omega, by rw [hh, ← hdata]⟩, ⟨by omega, by rw [hh, hcount]⟩,
      ⟨by omega, hn, by rw [hcount, hall]⟩, by omega, by rw [hall, hrest]⟩

-- The points that `data` announces decode, as far as it contains them to their end.
structure Decodable (codecs : GroupCodecs C SerzDeserzError) (data : List UInt8) : Prop where
  key : codecs.g2.size ≤ data.length → codecs.g2.Decodes (data.block 0 codecs.g2.size)
  blinding : codecs.g2.size + codecs.g1.size ≤ data.length →
    codecs.g1.Decodes (data.block codecs.g2.size codecs.g1.size)
  generators : ∀ k < generatorCount codecs data,
    codecs.g2.size + codecs.g1.size + 4 + (k + 1) * codecs.g1.size ≤ data.length →
      codecs.g1.Decodes
        (data.block (codecs.g2.size + codecs.g1.size + 4 + k * codecs.g1.size) codecs.g1.size)

theorem panics_fromBytes_iff : Panics (fromBytes codecs data) ↔
    data.length < announcedLength codecs data ∧ Decodable codecs data := by
  simp only [fromBytes, panics_bind_iff, panics_readPoint_iff, panics_readU32_iff, Nat.zero_add,
    announcedLength]
  constructor
  case mp =>
    rintro (h | ⟨w, hw, h | ⟨h0, hh, h | ⟨n, hn, h | ⟨_, _, h⟩⟩⟩⟩)
    case inl =>
      exact ⟨by omega, fun _ => by omega, fun _ => by omega, fun _ _ _ => by omega⟩
    case inr.inl =>
      exact ⟨by omega, fun hle => (decodes_block_iff (by omega)).mpr ⟨w, hw⟩, fun _ => by omega,
        fun _ _ _ => by omega⟩
    case inr.inr.inl =>
      exact ⟨by omega, fun hle => (decodes_block_iff (by omega)).mpr ⟨w, hw⟩,
        fun hle => (decodes_block_iff hle).mpr ⟨h0, hh⟩, fun _ _ _ => by omega⟩
    case inr.inr.inr.inl =>
      have hle := (readU32_eq_ok_iff.mp hn).1
      obtain rfl := Except.ok.inj <| hn.symm.trans <| readU32_eq_generatorCount hle
      have ⟨hlt, hall⟩ := (panics_foldlM_next_iff hle).mp h
      rw [List.length_range] at hlt hall
      exact ⟨hlt, fun hle => (decodes_block_iff (by omega)).mpr ⟨w, hw⟩,
        fun hle => (decodes_block_iff hle).mpr ⟨h0, hh⟩, hall⟩
    case inr.inr.inr.inr => exact (not_panics_pure h).elim
  case mpr =>
    rintro ⟨hlt, hd⟩
    obtain h | h := lt_or_ge data.length codecs.g2.size
    case inl => exact .inl h
    obtain ⟨w, hw⟩ := (decodes_block_iff (by omega)).mp <| hd.key h
    refine .inr ⟨w, hw, ?_⟩
    obtain h | h := lt_or_ge data.length (codecs.g2.size + codecs.g1.size)
    case inl => exact .inl h
    obtain ⟨h0, hh⟩ := (decodes_block_iff h).mp <| hd.blinding h
    refine .inr ⟨h0, hh, ?_⟩
    obtain h | h := lt_or_ge data.length (codecs.g2.size + codecs.g1.size + 4)
    case inl => exact .inl h
    refine .inr ⟨_, readU32_eq_generatorCount h, .inl ?_⟩
    rw [panics_foldlM_next_iff h, List.length_range]
    exact ⟨hlt, hd.generators⟩

theorem fromBytes_isOk_iff : (∃ pk, fromBytes codecs data = .ok pk) ↔
    announcedLength codecs data ≤ data.length ∧ Decodable codecs data := by
  simp only [fromBytes_parts, announcedLength]
  constructor
  case mp =>
    rintro ⟨pk, hw, hh, hn, hle, hall⟩
    have hlen := (readU32_eq_ok_iff.mp hn).1
    have hcount := Except.ok.inj <| (readU32_eq_generatorCount hlen).symm.trans hn
    rw [hcount]
    refine ⟨hle, fun _ => (decodes_block_iff (by omega)).mpr ⟨_, hw⟩,
      fun hle => (decodes_block_iff hle).mpr ⟨_, hh⟩, fun k hk _ => ?_⟩
    rw [hcount] at hk
    exact codecs.g1.exists_encodeAll_iff.mp ⟨pk.h, rfl, hall⟩ k hk
  case mpr =>
    rintro ⟨hle, hd⟩
    obtain ⟨w, hw⟩ := (decodes_block_iff (by omega)).mp <| hd.key <| by omega
    obtain ⟨h0, hh⟩ := (decodes_block_iff (by omega)).mp <| hd.blinding <| by omega
    have hblocks (k : ℕ) (hk : k < generatorCount codecs data) := by
      refine hd.generators k hk <| le_trans (Nat.add_le_add_left ?_ _) hle
      exact Nat.mul_le_mul_right _ hk
    obtain ⟨h, hlen, hall⟩ := codecs.g1.exists_encodeAll_iff.mpr hblocks
    rw [← hlen] at hle hall
    refine ⟨{ w, h0, h }, hw, hh, ?_, hle, hall⟩
    rw [hlen]
    exact readU32_eq_generatorCount (by omega)

theorem announcedLength_eq {pk : PublicKey C} (h : fromBytes codecs data = .ok pk) :
    announcedLength codecs data = (pk.toBytes codecs).length := by
  have hn := (fromBytes_parts.mp h).2.2.1
  have hlen := (readU32_eq_ok_iff.mp hn).1
  rw [announcedLength, Except.ok.inj <| (readU32_eq_generatorCount hlen).symm.trans hn]
  simp only [toBytes_eq, List.length_append, FixedCodec.length_encode,
    FixedCodec.length_encodeAll, u32ToBeBytes_length]
  omega

-- What follows the announced points is not looked at.
theorem fromBytes_toBytes_append {pk : PublicKey C} (h : pk.h.length < 2 ^ 32)
    (rest : List UInt8) : fromBytes codecs (pk.toBytes codecs ++ rest) = .ok pk :=
  fromBytes_eq_ok_iff.mpr ⟨h, rest, rfl⟩

-- An encoding that is cut off anywhere is a panic.
theorem panics_fromBytes_take {pk : PublicKey C} (h : pk.h.length < 2 ^ 32)
    (hn : n < (pk.toBytes codecs).length) :
    Panics (fromBytes codecs ((pk.toBytes codecs).take n)) := by
  have hok : fromBytes codecs (pk.toBytes codecs) = .ok pk :=
    fromBytes_eq_ok_iff.mpr ⟨h, [], (List.append_nil _).symm⟩
  have hd := (fromBytes_isOk_iff.mp ⟨pk, hok⟩).2
  have hlen := announcedLength_eq hok
  have htake : ((pk.toBytes codecs).take n).length = n := List.length_take_of_le hn.le
  have hcount (hle : codecs.g2.size + codecs.g1.size + 4 ≤ n) :
      generatorCount codecs ((pk.toBytes codecs).take n) =
        generatorCount codecs (pk.toBytes codecs) :=
    congrArg BigNumber.magnitude <| List.block_take hle
  rw [panics_fromBytes_iff, htake]
  refine ⟨?_, fun hle => ?_, fun hle => ?_, fun k hk hle => ?_⟩
  · obtain hlt | hle := lt_or_ge n (codecs.g2.size + codecs.g1.size + 4)
    case inl => exact hlt.trans_le <| Nat.le_add_right _ _
    case inr => rwa [announcedLength, hcount hle, ← announcedLength, hlen]
  · rw [htake] at hle
    rw [List.block_take (by omega)]
    exact hd.key <| by omega
  · rw [htake] at hle
    rw [List.block_take hle]
    exact hd.blinding <| by omega
  · rw [htake] at hle
    rw [hcount (by omega)] at hk
    have hnext : k * codecs.g1.size + codecs.g1.size = (k + 1) * codecs.g1.size := by ring
    rw [List.block_take (by omega)]
    exact hd.generators k hk <| by omega

-- The decoder is right on the texts of the announced length, and on those that it gives up
-- before it comes to their end.
theorem fromBytes_exact_iff :
    (¬Panics (fromBytes codecs data) ∧
      ∀ pk, fromBytes codecs data = .ok pk → pk.toBytes codecs = data) ↔
      ¬Decodable codecs data ∨ data.length = announcedLength codecs data := by
  constructor
  case mp =>
    rintro ⟨hp, hok⟩
    by_cases hd : Decodable codecs data
    case neg => exact .inl hd
    have hle := not_lt.mp fun hlt => hp <| panics_fromBytes_iff.mpr ⟨hlt, hd⟩
    obtain ⟨pk, hpk⟩ := fromBytes_isOk_iff.mpr ⟨hle, hd⟩
    rw [announcedLength_eq hpk, hok pk hpk]
    exact .inr rfl
  case mpr =>
    rintro h
    refine ⟨fun hp => ?_, fun pk hpk => ?_⟩
    · have ⟨hlt, hd⟩ := panics_fromBytes_iff.mp hp
      exact h.elim (absurd hd) hlt.ne
    · have hd := (fromBytes_isOk_iff.mp ⟨pk, hpk⟩).2
      have hlen := h.resolve_left (not_not_intro hd)
      obtain ⟨rest, rfl⟩ := (fromBytes_eq_ok_iff.mp hpk).2
      rw [announcedLength_eq hpk, List.length_append] at hlen
      rw [List.length_eq_zero_iff.mp (by omega : rest.length = 0), List.append_nil]

-- Honest texts are read back; of all others only those are judged rightly that have the announced
-- length or hold a point that does not decode.
theorem fromBytes_encodings_iff (codecs : GroupCodecs C SerzDeserzError) :
    (∀ pk : PublicKey C, pk.h.length < 2 ^ 32 →
      fromBytes codecs (pk.toBytes codecs) = .ok pk) ∧
    ∀ data, (¬Panics (fromBytes codecs data) ∧
      ∀ pk, fromBytes codecs data = .ok pk → pk.toBytes codecs = data) ↔
        ¬Decodable codecs data ∨ data.length = announcedLength codecs data where
  left pk h := by simpa using fromBytes_toBytes_append h []
  right _ := fromBytes_exact_iff

end Format

section Sample

-- A point of the residues modulo 7 is one byte.
def decodeMod7 : List UInt8 → Except String (ZMod 7)
  | [b] => if b < 7 then .ok b.toNat else .error "not a residue"
  | _   => .error "wrong size"

theorem decodeMod7_encode (x : ZMod 7) : decodeMod7 [UInt8.ofNat x.val] = .ok x := by
  revert x
  decide

theorem encode_of_decodeMod7 (bs : List UInt8) (x : ZMod 7) (h : decodeMod7 bs = .ok x) :
    [UInt8.ofNat x.val] = bs := by
  match bs with
  | []          => cases h
  | _ :: _ :: _ => cases h
  | [b] =>
    rw [decodeMod7] at h
    split at h
    case isTrue hb =>
      obtain rfl := Except.ok.inj h
      have hlt : b.toNat < 7 := UInt8.lt_iff_toNat_lt.mp hb
      rw [ZMod.val_natCast, Nat.mod_eq_of_lt hlt, UInt8.ofNat_toNat]
    case isFalse => cases h

def codecMod7 : FixedCodec (ZMod 7) String where
  size := 1
  encode x := [UInt8.ofNat x.val]
  decode := decodeMod7
  length_encode _ := rfl
  decode_encode := decodeMod7_encode
  encode_of_decode := encode_of_decodeMod7

def codecsMod7 : GroupCodecs curveMod7 String where
  g1 := codecMod7
  g2 := codecMod7

-- A key with one generator
def sampleKey : PublicKey curveMod7 where
  h0 := mod7 5
  h := [mod7 2]
  w := mod7 3

theorem toBytes_sampleKey : sampleKey.toBytes codecsMod7 = [3, 5, 0, 0, 0, 1, 2] := by
  decide

theorem fromBytes_encodings_sample :
    fromBytes codecsMod7 (sampleKey.toBytes codecsMod7) = .ok sampleKey ∧
      ¬Panics (fromBytes codecsMod7 [7]) := by
  have ⟨hok, hexact⟩ := fromBytes_encodings_iff codecsMod7
  refine ⟨hok sampleKey (by decide), ((hexact [7]).mpr <| .inl fun hd => ?_).1⟩
  obtain ⟨x, hx⟩ := hd.key (by decide)
  cases hx

-- It is cut off before the generator, and followed by a byte.
theorem fromBytes_truncated_or_extended :
    sampleKey.toBytes codecsMod7 = [3, 5, 0, 0, 0, 1, 2] ∧
      Panics (fromBytes codecsMod7 [3, 5, 0, 0, 0, 1]) ∧
      fromBytes codecsMod7 [3, 5, 0, 0, 0, 1, 2, 0] = .ok sampleKey := by
  have hlen : sampleKey.h.length < 2 ^ 32 := by decide
  have hcut : 6 < (sampleKey.toBytes codecsMod7).length := by
    rw [toBytes_sampleKey]
    decide
  have htake := panics_fromBytes_take hlen hcut
  have happend : fromBytes codecsMod7 (_ ++ [0]) = _ := fromBytes_toBytes_append hlen [0]
  rw [toBytes_sampleKey] at htake happend
  exact ⟨toBytes_sampleKey, htake, happend⟩

end Sample

end Bbs.PublicKey
end Ursa
