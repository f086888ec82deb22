import Ursa.Zmix.Theorems.EncryptionProof

namespace Ursa

open BigNumber UrsaCryptoResult

namespace VerifiableEncryption

variable {env : Env} {pubKey : CSEncPubkey} {ciphertext : CSCiphertext}
variable {responses : List BigNumber} {rHat challenge : ℤ} {label : List UInt8}

-- The powers of one round of the loop.
structure RoundDefined (ciphertext : CSCiphertext) (responses : List BigNumber)
    (rHat challenge : ℤ) (pubKey : CSEncPubkey) (i : ℕ) : Prop where
  e : ∀ e, ciphertext.e[i]? = some e → PowDefined e (2 * challenge) pubKey.paillierGroup.modulus
  y1 : ∀ y1, pubKey.y1[i]? = some y1 → PowDefined y1 (2 * rHat) pubKey.paillierGroup.modulus
  h : ∀ s, responses[i]? = some s →
    PowDefined pubKey.paillierGroup.h (2 * s) pubKey.paillierGroup.modulus

theorem reconstructEntry_ok_iff (hM : pubKey.paillierGroup.modulus ≠ 0)
    (hy1 : i < pubKey.y1.length) (hs : i < responses.length) :
    (∃ b, reconstructEntry ciphertext responses (2 * rHat) (2 * challenge) pubKey i = .ok b) ↔
      i < ciphertext.e.length ∧ RoundDefined ciphertext responses rHat challenge pubKey i := by
  constructor
  case mp =>
    rintro ⟨b, h⟩
    simp only [reconstructEntry, bind_eq_ok_iff, index_eq_ok_iff] at h
    obtain ⟨e, he, eC, heC, y1, hy1, yHat, hyHat, s, hs, hHat, hhHat, -⟩ := h
    obtain ⟨hi, -⟩ := List.getElem?_eq_some_iff.mp he
    refine ⟨hi, fun e' he' => ?_, fun y1' hy1' => ?_, fun s' hs' => ?_⟩
    · obtain rfl := Option.some.inj <| he.symm.trans he'
      exact (modExp_ok_iff.mp ⟨eC, heC⟩).2
    · obtain rfl := Option.some.inj <| hy1.symm.trans hy1'
      exact (modExp_ok_iff.mp ⟨yHat, hyHat⟩).2
    · obtain rfl := Option.some.inj <| hs.symm.trans hs'
      exact (modExp_ok_iff.mp ⟨hHat, hhHat⟩).2
  case mpr =>
    rintro ⟨hi, hround⟩
    obtain ⟨eC, heC⟩ := modExp_ok_iff.mpr ⟨hM, hround.e _ <| List.getElem?_eq_getElem hi⟩
    obtain ⟨yHat, hyHat⟩ := modExp_ok_iff.mpr ⟨hM, hround.y1 _ <| List.getElem?_eq_getElem hy1⟩
    obtain ⟨hHat, hhHat⟩ := modExp_ok_iff.mpr ⟨hM, hround.h _ <| List.getElem?_eq_getElem hs⟩
    obtain ⟨product, hproduct⟩ := modMul_ok hM eC yHat
    obtain ⟨b, hb⟩ := modMul_ok hM product hHat
    refine ⟨b, ?_⟩
    simp only [reconstructEntry, PaillierGroup.exponentiate, PaillierGroup.exponentiateH, lshift1,
      index_eq_ok_iff.mpr (List.getElem?_eq_getElem hi),
      index_eq_ok_iff.mpr (List.getElem?_eq_getElem hy1),
      index_eq_ok_iff.mpr (List.getElem?_eq_getElem hs), heC, hyHat, hhHat, hproduct, hb, ok_bind]

theorem panics_reconstructEntry_iff (hy1 : i < pubKey.y1.length) (hs : i < responses.length) :
    Panics (reconstructEntry ciphertext responses (2 * rHat) (2 * challenge) pubKey i) ↔
      ciphertext.e.length ≤ i := by
  simp only [reconstructEntry, panics_bind_iff, panics_index_iff, PaillierGroup.exponentiate,
    PaillierGroup.exponentiateH, not_panics_modExp, not_panics_modMul, not_le.mpr hy1,
    not_le.mpr hs, and_false, exists_false, or_false]

-- The powers before the loop.
structure StartDefined (ciphertext : CSCiphertext) (rHat challenge : ℤ) (pubKey : CSEncPubkey) :
    Prop where
  modulus : pubKey.paillierGroup.modulus ≠ 0
  u : PowDefined ciphertext.u (2 * challenge) pubKey.paillierGroup.modulus
  g : PowDefined pubKey.paillierGroup.g (2 * rHat) pubKey.paillierGroup.modulus

-- The digest that `y3` is raised to has no bit.
def HashesToZero (env : Env) (ciphertext : CSCiphertext) (label : List UInt8) : Prop :=
  ∀ b ∈ env.sha256 (ciphertext.u.toBytes ++ (ciphertext.e.flatMap toBytes ++ label)), b = 0

theorem hash_eq_zero_iff : hash env ciphertext.u ciphertext.e label = 0 ↔
    HashesToZero env ciphertext label := by
  rw [HashesToZero, ← magnitude_eq_zero_iff, hash, getHashAsInt, fromBytes, Nat.cast_eq_zero,
    hashArray, List.flatten_append, List.flatten_cons, List.flatten_singleton, List.append_assoc]
  rfl

theorem hash_nonneg : 0 ≤ hash env ciphertext.u ciphertext.e label :=
  getHashAsInt_nonneg ..

-- The powers after the loop.
structure EndDefined (env : Env) (ciphertext : CSCiphertext) (rHat challenge : ℤ)
    (label : List UInt8) (pubKey : CSEncPubkey) : Prop where
  v : PowDefined ciphertext.v (2 * challenge) pubKey.paillierGroup.modulus
  y2 : PowDefined pubKey.y2 (2 * rHat) pubKey.paillierGroup.modulus
  y3 : PowDefined pubKey.y3 (2 * rHat) pubKey.paillierGroup.modulus ∨
    HashesToZero env ciphertext label

-- A product has an inverse if both factors have, and a power if its base has or there is none.
theorem checkBase_powDefined_iff (hM : pubKey.paillierGroup.modulus ≠ 0) (hs : 0 ≤ h) :
    (∃ w, checkBase h pubKey = .ok w ∧ PowDefined w k pubKey.paillierGroup.modulus) ↔
      PowDefined pubKey.y2 k pubKey.paillierGroup.modulus ∧
        (PowDefined pubKey.y3 k pubKey.paillierGroup.modulus ∨ h = 0) := by
  obtain ⟨y3Hs, hy3Hs⟩ := modExp_ok_of_nonneg (x := pubKey.y3) hM hs
  obtain ⟨w, hw⟩ := modMul_ok hM pubKey.y2 y3Hs
  have hbase : checkBase h pubKey = .ok w := by
    rw [checkBase, PaillierGroup.exponentiate, hy3Hs, ok_bind, hw]
  simp only [hbase, Except.ok.injEq, exists_eq_left']
  unfold PowDefined
  obtain hk | hk := le_or_gt 0 k
  case inl => simp only [hk, true_or, and_self]
  case inr =>
    simp only [hk.not_ge, false_or]
    obtain hone | hone := em (1 < pubKey.paillierGroup.modulus.natAbs)
    case inr => simp only [hone, false_and]
    case inl =>
      simp only [hone, true_and, ← ModArith.isUnit_cast_iff]
      have hpower := isUnit_modExp_iff hone hy3Hs
      rw [PowUnit, ← ModArith.isUnit_cast_iff, or_comm] at hpower
      rw [modMul_cast hw, IsUnit.mul_iff, hpower]

def reconstructU (ciphertext : CSCiphertext) (rHat challenge : ℤ) (pubKey : CSEncPubkey) :
    UrsaCryptoResult BigNumber := do
  let uC ← pubKey.paillierGroup.exponentiate ciphertext.u (2 * challenge)
  let gRHat ← pubKey.paillierGroup.exponentiateG (2 * rHat)
  uC.modMul gRHat pubKey.paillierGroup.modulus

def reconstructV (env : Env) (ciphertext : CSCiphertext) (rHat challenge : ℤ)
    (label : List UInt8) (pubKey : CSEncPubkey) : UrsaCryptoResult BigNumber := do
  let vC ← pubKey.paillierGroup.exponentiate ciphertext.v (2 * challenge)
  let w ← checkBase (hash env ciphertext.u ciphertext.e label) pubKey
  let wHat ← pubKey.paillierGroup.exponentiate w (2 * rHat)
  vC.modMul wHat pubKey.paillierGroup.modulus

-- The three parts of the function, once the length of the list is accepted.
theorem reconstruct_parts (h : responses.length ≤ pubKey.y1.length) :
    reconstructBlindingsCiphertext env ciphertext responses rHat challenge label pubKey = (do
      let u ← reconstructU ciphertext rHat challenge pubKey
      let e ← (List.range responses.length).mapM
        (reconstructEntry ciphertext responses (2 * rHat) (2 * challenge) pubKey)
      let v ← reconstructV env ciphertext rHat challenge label pubKey
      pure { u, e, v }) := by
  simp only [reconstructBlindingsCiphertext, if_neg (not_lt.mpr h), reconstructU, reconstructV,
    checkBase, lshift1, bind_assoc]

theorem reconstructU_ok_iff : (∃ u, reconstructU ciphertext rHat challenge pubKey = .ok u) ↔
    StartDefined ciphertext rHat challenge pubKey := by
  constructor
  case mp =>
    rintro ⟨u, h⟩
    simp only [reconstructU, bind_eq_ok_iff] at h
    obtain ⟨uC, huC, gHat, hgHat, -⟩ := h
    obtain ⟨hM, hu⟩ := modExp_ok_iff.mp ⟨uC, huC⟩
    exact ⟨hM, hu, (modExp_ok_iff.mp ⟨gHat, hgHat⟩).2⟩
  case mpr =>
    rintro ⟨hM, hu, hg⟩
    obtain ⟨uC, huC⟩ := modExp_ok_iff.mpr ⟨hM, hu⟩
    obtain ⟨gHat, hgHat⟩ := modExp_ok_iff.mpr ⟨hM, hg⟩
    obtain ⟨u, hu⟩ := modMul_ok hM uC gHat
    refine ⟨u, ?_⟩
    simp only [reconstructU, PaillierGroup.exponentiate, PaillierGroup.exponentiateG, huC, hgHat,
      hu, ok_bind]

theorem reconstructV_ok_iff (hM : pubKey.paillierGroup.modulus ≠ 0) :
    (∃ v, reconstructV env ciphertext rHat challenge label pubKey = .ok v) ↔
      EndDefined env ciphertext rHat challenge label pubKey := by
  constructor
  case mp =>
    rintro ⟨v, h⟩
    simp only [reconstructV, bind_eq_ok_iff] at h
    obtain ⟨vC, hvC, w, hw, wHat, hwHat, -⟩ := h
    obtain ⟨hy2, hy3⟩ := (checkBase_powDefined_iff hM hash_nonneg).mp
      ⟨w, hw, (modExp_ok_iff.mp ⟨wHat, hwHat⟩).2⟩
    exact ⟨(modExp_ok_iff.mp ⟨vC, hvC⟩).2, hy2, hy3.imp_right hash_eq_zero_iff.mp⟩
  case mpr =>
    rintro ⟨hv, hy2, hy3⟩
    obtain ⟨w, hw, hdefined⟩ := (checkBase_powDefined_iff hM hash_nonneg).mpr
      ⟨hy2, hy3.imp_right hash_eq_zero_iff.mpr⟩
    obtain ⟨vC, hvC⟩ := modExp_ok_iff.mpr ⟨hM, hv⟩
    obtain ⟨wHat, hwHat⟩ := modExp_ok_iff.mpr ⟨hM, hdefined⟩
    obtain ⟨v, hv⟩ := modMul_ok hM vC wHat
    refine ⟨v, ?_⟩
    simp only [reconstructV, PaillierGroup.exponentiate, hvC, hw, hwHat, hv, ok_bind]

theorem not_panics_reconstructU : ¬Panics (reconstructU ciphertext rHat challenge pubKey) := by
  simp only [reconstructU, panics_bind_iff, PaillierGroup.exponentiate,
    PaillierGroup.exponentiateG, not_panics_modExp, not_panics_modMul, and_false, exists_false,
    or_false, not_false_eq_true]

theorem not_panics_reconstructV :
    ¬Panics (reconstructV env ciphertext rHat challenge label pubKey) := by
  simp only [reconstructV, checkBase, panics_bind_iff, PaillierGroup.exponentiate,
    not_panics_modExp, not_panics_modMul, and_false, exists_false, or_false, not_false_eq_true]

theorem reconstruct_ok (h : reconstructBlindingsCiphertext env ciphertext responses rHat challenge
    label pubKey = .ok t) : t.e.length = responses.length := by
  by_cases hlen : responses.length ≤ pubKey.y1.length
  case pos =>
    simp only [reconstruct_parts hlen, bind_eq_ok_iff, pure_eq_ok_iff] at h
    obtain ⟨u, -, e, he, v, -, rfl⟩ := h
    dsimp only
    rw [← (mapM_eq_ok_iff.mp he).length_eq, List.length_range]
  case neg =>
    rw [reconstructBlindingsCiphertext, if_pos (not_le.mp hlen)] at h
    cases h

theorem reconstruct_ok_iff (hlen : responses.length ≤ pubKey.y1.length) :
    (∃ t, reconstructBlindingsCiphertext env ciphertext responses rHat challenge label pubKey =
        .ok t) ↔
      StartDefined ciphertext rHat challenge pubKey ∧
        (∀ i < responses.length, i < ciphertext.e.length ∧
          RoundDefined ciphertext responses rHat challenge pubKey i) ∧
        EndDefined env ciphertext rHat challenge label pubKey := by
  simp only [reconstruct_parts hlen, bind_eq_ok_iff]
  constructor
  case mp =>
    rintro ⟨t, u, hu, e, he, v, hv, -⟩
    have hstart := reconstructU_ok_iff.mp ⟨u, hu⟩
    refine ⟨hstart, fun i hi => ?_, (reconstructV_ok_iff hstart.modulus).mp ⟨v, hv⟩⟩
    obtain ⟨b, -, hb⟩ := getElem?_of_mapM_range he hi
    exact (reconstructEntry_ok_iff hstart.modulus (hi.trans_le hlen) hi).mp ⟨b, hb⟩
  case mpr =>
    rintro ⟨hstart, hround, hend⟩
    obtain ⟨u, hu⟩ := reconstructU_ok_iff.mpr hstart
    have hentry : ∀ i ∈ List.range responses.length, ∃ b, reconstructEntry ciphertext responses
        (2 * rHat) (2 * challenge) pubKey i = .ok b := by
      intro i hi
      have hi := List.mem_range.mp hi
      exact (reconstructEntry_ok_iff hstart.modulus (hi.trans_le hlen) hi).mpr <| hround i hi
    obtain ⟨e, he⟩ := mapM_ok hentry
    obtain ⟨v, hv⟩ := (reconstructV_ok_iff hstart.modulus).mpr hend
    exact ⟨⟨u, e, v⟩, u, hu, e, he, v, hv, rfl⟩

-- The loop panics where the components of the ciphertext end, if it gets there.
theorem panics_reconstruct_iff (hlen : responses.length ≤ pubKey.y1.length) :
    Panics (reconstructBlindingsCiphertext env ciphertext responses rHat challenge label pubKey) ↔
      StartDefined ciphertext rHat challenge pubKey ∧ ciphertext.e.length < responses.length ∧
        ∀ i < ciphertext.e.length, RoundDefined ciphertext responses rHat challenge pubKey i := by
  simp only [reconstruct_parts hlen, panics_bind_iff, not_panics_reconstructU,
    not_panics_reconstructV, not_panics_pure, and_false, exists_false, or_false, false_or,
    exists_and_right, reconstructU_ok_iff]
  refine and_congr_right fun hstart => ?_
  have hpanics {i : ℕ} (hi : i < responses.length) :
      Panics (reconstructEntry ciphertext responses (2 * rHat) (2 * challenge) pubKey i) ↔
        ciphertext.e.length ≤ i := panics_reconstructEntry_iff (hi.trans_le hlen) hi
  constructor
  case mp =>
    rintro ⟨msg, h⟩
    obtain ⟨i, hi, hfail, hbefore⟩ := mapM_range_eq_error_iff.mp h
    have hle := (hpanics hi).mp ⟨msg, hfail⟩
    refine ⟨hle.trans_lt hi, fun j hj => ?_⟩
    have hj' := hj.trans_le hle |>.trans hi
    exact ((reconstructEntry_ok_iff hstart.modulus (hj'.trans_le hlen) hj').mp <|
      hbefore j <| hj.trans_le hle).right
  case mpr =>
    rintro ⟨hlt, hround⟩
    obtain ⟨msg, hfail⟩ := (hpanics hlt).mpr le_rfl
    refine ⟨msg, mapM_range_eq_error_iff.mpr ⟨_, hlt, hfail, fun j hj => ?_⟩⟩
    have hj' := hj.trans hlt
    exact (reconstructEntry_ok_iff hstart.modulus (hj'.trans_le hlen) hj').mpr ⟨hj, hround j hj⟩

-- Nothing of the ciphertext is left out, and no input stops the verifier.
def Covers (env : Env) (ciphertext : CSCiphertext) (responses : List BigNumber)
    (rHat challenge : ℤ) (label : List UInt8) (pubKey : CSEncPubkey) : Prop :=
  (∀ msg, reconstructBlindingsCiphertext env ciphertext responses rHat challenge label pubKey ≠
      .error (.panic msg)) ∧
    ∀ t, reconstructBlindingsCiphertext env ciphertext responses rHat challenge label pubKey =
      .ok t → t.e.length = ciphertext.e.length

-- Every base of a negative power has an inverse: of the powers up to the end of the shorter list,
-- and with fewer responses than components also of those after the loop.
structure PowersDefined (env : Env) (ciphertext : CSCiphertext) (responses : List BigNumber)
    (rHat challenge : ℤ) (label : List UInt8) (pubKey : CSEncPubkey) : Prop where
  start : StartDefined ciphertext rHat challenge pubKey
  round : ∀ i, i < responses.length → i < ciphertext.e.length →
    RoundDefined ciphertext responses rHat challenge pubKey i
  finish : responses.length < ciphertext.e.length →
    EndDefined env ciphertext rHat challenge label pubKey

theorem powersDefined_iff (hlen : responses.length ≤ pubKey.y1.length)
    (hne : responses.length ≠ ciphertext.e.length) :
    PowersDefined env ciphertext responses rHat challenge label pubKey ↔
      Panics (reconstructBlindingsCiphertext env ciphertext responses rHat challenge label pubKey) ∨
      ∃ t, reconstructBlindingsCiphertext env ciphertext responses rHat challenge label pubKey =
        .ok t := by
  rw [panics_reconstruct_iff hlen, reconstruct_ok_iff hlen]
  constructor
  case mp =>
    intro h
    obtain hshort | hlong := hne.lt_or_gt
    case inl =>
      refine .inr ⟨h.start, fun i hi => ?_, h.finish hshort⟩
      exact ⟨hi.trans hshort, h.round i hi (hi.trans hshort)⟩
    case inr => exact .inl ⟨h.start, hlong, fun i hi => h.round i (hi.trans hlong) hi⟩
  case mpr =>
    rintro (⟨hstart, hlong, hround⟩ | ⟨hstart, hround, hend⟩)
    · exact ⟨hstart, fun i _ hi => hround i hi, fun h => absurd h hlong.not_gt⟩
    · exact ⟨hstart, fun i hi _ => (hround i hi).right, fun _ => hend⟩

theorem covers_iff (env : Env) (ciphertext : CSCiphertext) (responses : List BigNumber)
    (rHat challenge : BigNumber) (label : List UInt8) (pubKey : CSEncPubkey) :
    Covers env ciphertext responses rHat challenge label pubKey ↔
      responses.length = ciphertext.e.length ∨ pubKey.y1.length < responses.length ∨
        ¬PowersDefined env ciphertext responses rHat challenge label pubKey := by
  by_cases hlen : responses.length ≤ pubKey.y1.length
  case neg =>
    refine iff_of_true ?_ <| .inr <| .inl <| not_le.mp hlen
    have hrun : reconstructBlindingsCiphertext env ciphertext responses rHat challenge label
        pubKey = .error (tooManyMessages responses.length pubKey.y1.length) := by
      rw [reconstructBlindingsCiphertext, if_pos (not_le.mp hlen)]
      rfl
    refine ⟨fun _ h => ?_, fun _ h => ?_⟩
    all_goals cases hrun.symm.trans h
  case pos =>
    by_cases heq : responses.length = ciphertext.e.length
    case pos =>
      refine iff_of_true ⟨fun msg h => ?_, fun t ht => (reconstruct_ok ht).trans heq⟩ (.inl heq)
      have hlong := ((panics_reconstruct_iff hlen).mp ⟨msg, h⟩).2.1
      exact absurd hlong heq.not_gt
    case neg =>
      -- Lists of different lengths are covered just if the run ends with an error.
      have hcovers : Covers env ciphertext responses rHat challenge label pubKey ↔
          ¬(Panics (reconstructBlindingsCiphertext env ciphertext responses rHat challenge label
              pubKey) ∨
            ∃ t, reconstructBlindingsCiphertext env ciphertext responses rHat challenge label
              pubKey = .ok t) := by
        rw [not_or, Covers, Panics, not_exists, not_exists]
        refine and_congr_right fun _ => forall_congr' fun t => ?_
        exact ⟨fun h ht => heq <| (reconstruct_ok ht).symm.trans <| h ht, fun h ht => absurd ht h⟩
      rw [hcovers, ← powersDefined_iff hlen heq, or_iff_right heq, or_iff_right (not_lt.mpr hlen)]

-- A response for a ciphertext without components stops the verifier.
theorem not_covers : ¬∀ (env : Env) (n : BigNumber) (numMessages : ℕ) (draws : CSKeyDraws)
    (keypair : CSKeypair) (ciphertext : CSCiphertext) (responses : List BigNumber)
    (rHat challenge : BigNumber) (label : List UInt8),
    CSKeypair.ofModulus n numMessages draws = .ok keypair →
      Covers env ciphertext responses rHat challenge label keypair.pubKey := by
  intro h
  let env : Env := .sorted (fun _ => List.replicate 32 0) fun _ => List.length_replicate
  obtain ⟨keypair, hkeypair, -⟩ := keypair_fifteen
  have hrun : (CSKeypair.ofModulus 15 2 keyDraws15 >>= fun keypair =>
      reconstructBlindingsCiphertext env ⟨1, [], 1⟩ [0] 0 1 [] keypair.pubKey) =
        .error (.panic "index out of bounds") := by
    decide +kernel
  rw [hkeypair, ok_bind] at hrun
  exact (h env 15 2 keyDraws15 keypair ⟨1, [], 1⟩ [0] 0 1 [] hkeypair).1 _ hrun

end VerifiableEncryption
end Ursa
