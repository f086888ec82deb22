import Mathlib.Algebra.BigOperators.Group.List.Basic

namespace Ursa

inductive UrsaCryptoErrorKind
  | invalidState
  | invalidStructure
  | invalidParam (num : UInt32)
  | ioError
  | proofRejected
  | revocationAccumulatorIsFull
  | invalidRevocationAccumulatorIndex
  | credentialRevoked
  deriving DecidableEq, Repr

-- How a call can end without a value: with the `UrsaCryptoError` it returns (its kind and its
-- text), or with a panic of the thread (an index that is out of range, a missing map key).
inductive Failure
  | err (kind : UrsaCryptoErrorKind) (msg : String)
  | panic (msg : String)
  deriving DecidableEq, Repr

abbrev UrsaCryptoResult := Except Failure

-- Every `ErrorStack` of OpenSSL is turned into this error.
def opensslError : Failure := .err .invalidState "Internal OpenSSL error"

-- `Option::ok_or_else`
def okOrElse (value : Option α) (failure : Failure) : UrsaCryptoResult α :=
  match value with
  | some a => .ok a
  | none   => .error failure

-- `+`, `-` and `*` of `u32` in a build that checks them: a result that does not fit panics.
def addU32 (a b : UInt32) : UrsaCryptoResult UInt32 :=
  if a.toNat + b.toNat < 2 ^ 32 then .ok (a + b)
  else .error <| .panic "attempt to add with overflow"

def subU32 (a b : UInt32) : UrsaCryptoResult UInt32 :=
  if b.toNat ≤ a.toNat then .ok (a - b)
  else .error <| .panic "attempt to subtract with overflow"

def mulU32 (a b : UInt32) : UrsaCryptoResult UInt32 :=
  if a.toNat * b.toNat < 2 ^ 32 then .ok (a * b)
  else .error <| .panic "attempt to multiply with overflow"

-- `-` of `usize`, whose numbers here are far from its upper end
def subUsize (a b : ℕ) : UrsaCryptoResult ℕ :=
  if b ≤ a then .ok (a - b)
  else .error <| .panic "attempt to subtract with overflow"

-- `list[i]`
def index (list : List α) (i : ℕ) : UrsaCryptoResult α :=
  okOrElse list[i]? <| .panic "index out of bounds"

-- `fold` with a result as its accumulator: a round is given the error of the rounds before it, but
-- their panic has ended the loop.
def foldResult (f : UrsaCryptoResult β → α → UrsaCryptoResult β) (init : UrsaCryptoResult β)
    (list : List α) : UrsaCryptoResult β :=
  list.foldl (fun acc a =>
    match acc with
    | .error (.panic msg) => .error (.panic msg)
    | acc                 => f acc a) init

namespace UrsaCryptoResult

variable {ε α β : Type} {l : List α}

@[simp]
theorem bind_eq_ok_iff {x : Except ε α} {f : α → Except ε β} :
    (x >>= f) = .ok b ↔ ∃ a, x = .ok a ∧ f a = .ok b := by
  cases x <;> simp [bind, Except.bind]

@[simp]
theorem ok_bind {f : α → Except ε β} : ((.ok a : Except ε α) >>= f) = f a :=
  rfl

theorem bind_ok_right (x : Except ε α) : (x >>= fun a => .ok a) = x :=
  bind_pure x

@[simp]
theorem pure_eq_ok_iff : (pure a : Except ε α) = .ok b ↔ a = b := by
  simp [pure, Except.pure]

@[simp]
theorem okOrElse_eq_ok_iff {o : Option α} : okOrElse o e = .ok a ↔ o = some a := by
  cases o <;> simp [okOrElse]

@[simp]
theorem ite_error_eq_ok_iff [Decidable p] {x : Except ε α} :
    (if p then .error e else x) = .ok a ↔ ¬p ∧ x = .ok a := by
  split <;> simp_all

-- The form in which `do` leaves an early return.
theorem ite_error_bind_eq_ok_iff [Decidable p] {f : β → Except ε α}
    {x : Except ε α} : (if p then .error e >>= f else x) = .ok a ↔ ¬p ∧ x = .ok a :=
  ite_error_eq_ok_iff

theorem index_eq_ok_iff : index l i = .ok a ↔ l[i]? = some a :=
  okOrElse_eq_ok_iff

section U32

variable {a b c : UInt32}

theorem addU32_eq_ok_iff : addU32 a b = .ok c ↔ c.toNat = a.toNat + b.toNat := by
  unfold addU32
  split
  case isTrue h =>
    rw [Except.ok.injEq, ← UInt32.toNat_inj, UInt32.toNat_add, Nat.mod_eq_of_lt h, eq_comm]
  case isFalse h =>
    have hc : c.toNat < 2 ^ 32 := c.toNat_lt
    simp only [reduceCtorEq, false_iff]
    omega

theorem subU32_eq_ok_iff : subU32 a b = .ok c ↔ c.toNat + b.toNat = a.toNat := by
  unfold subU32
  split
  case isTrue h =>
    rw [Except.ok.injEq, ← UInt32.toNat_inj, UInt32.toNat_sub_of_le _ _ h]
    omega
  case isFalse h =>
    simp only [reduceCtorEq, false_iff]
    omega

theorem subUsize_of_le {a b : ℕ} (h : b ≤ a) : subUsize a b = .ok (a - b) :=
  if_pos h

theorem mulU32_eq_ok_iff : mulU32 a b = .ok c ↔ c.toNat = a.toNat * b.toNat := by
  unfold mulU32
  split
  case isTrue h =>
    rw [Except.ok.injEq, ← UInt32.toNat_inj, UInt32.toNat_mul, Nat.mod_eq_of_lt h, eq_comm]
  case isFalse h =>
    have hc : c.toNat < 2 ^ 32 := c.toNat_lt
    simp only [reduceCtorEq, false_iff]
    omega

end U32

-- The run of a loop: an invariant of the state and of the elements still to come that every
-- iteration keeps holds when none is left.
theorem foldlM_invariant {f : β → α → Except ε β} {I : List α → β → Prop}
    (step : ∀ a l b b', I (a :: l) b → f b a = .ok b' → I l b')
    (init : I l b) (h : l.foldlM f b = .ok b') : I [] b' := by
  induction l generalizing b
  case nil =>
    simp only [List.foldlM_nil, pure_eq_ok_iff] at h
    exact h ▸ init
  case cons a l hi =>
    simp only [List.foldlM_cons, bind_eq_ok_iff] at h
    obtain ⟨b₁, hb, hl⟩ := h
    exact hi (step a l b b₁ init hb) hl

-- The run of a loop that multiplies: every iteration puts one factor in front of the accumulator.
theorem foldlM_prod {M : Type} [CommMonoid M] {f : β → α → Except ε β} (φ : β → M)
    (g : α → M) (step : ∀ a ∈ l, ∀ b b', f b a = .ok b' → φ b' = g a * φ b)
    (h : l.foldlM f b = .ok b') : φ b' = (l.map g).prod * φ b := by
  induction l generalizing b
  case nil =>
    simp only [List.foldlM_nil, pure_eq_ok_iff] at h
    simp [h]
  case cons a l hi =>
    simp only [List.foldlM_cons, bind_eq_ok_iff] at h
    obtain ⟨b₁, hb, hl⟩ := h
    rw [hi (fun a ha => step a <| .tail _ ha) hl, step a (.head _) b b₁ hb, List.map_cons,
      List.prod_cons, mul_left_comm, mul_assoc]

-- A loop that ends without an error has passed every element.
theorem foldlM_forall {f : β → α → Except ε β} {Q : α → Prop}
    (step : ∀ a ∈ l, ∀ b b', f b a = .ok b' → Q a) (h : l.foldlM f b = .ok b') :
    ∀ a ∈ l, Q a := by
  induction l generalizing b
  case nil => simp
  case cons a l hi =>
    simp only [List.foldlM_cons, bind_eq_ok_iff] at h
    obtain ⟨b₁, hb, hl⟩ := h
    exact List.forall_mem_cons.mpr
      ⟨step a (.head _) b b₁ hb, hi (fun a ha => step a <| .tail _ ha) hl⟩

-- A loop in which the elements with `P` assign `v`, and the others leave what is assigned.
theorem foldlM_assigns {γ : Type} {f : β → α → Except ε β} {P : α → Prop} [DecidablePred P]
    {v : γ} (get : β → Option γ)
    (step : ∀ a ∈ l, ∀ b b', f b a = .ok b' → get b' = if P a then some v else get b)
    (ha : (∃ a ∈ l, P a) ∨ get b = some v) (h : l.foldlM f b = .ok b') : get b' = some v := by
  induction l generalizing b
  case nil =>
    simp only [List.foldlM_nil, pure_eq_ok_iff] at h
    simpa [h] using ha
  case cons a l hi =>
    simp only [List.foldlM_cons, bind_eq_ok_iff] at h
    obtain ⟨b₁, hb, hl⟩ := h
    have hstep := step a (.head _) b b₁ hb
    refine hi (fun a ha => step a <| .tail _ ha) ?_ hl
    by_cases hP : P a
    case pos => exact .inr (by rw [hstep, if_pos hP])
    case neg => simpa [hstep, hP] using ha

-- The run of a loop from its end: what the last state has, every state before has.
theorem foldlM_backward {f : β → α → Except ε β} {Q : β → Prop} {P : α → Prop}
    (step : ∀ a ∈ l, ∀ b b', f b a = .ok b' → Q b' → Q b ∧ P a) (h : l.foldlM f b = .ok b')
    (hb' : Q b') : Q b ∧ ∀ a ∈ l, P a := by
  induction l generalizing b
  case nil =>
    simp only [List.foldlM_nil, pure_eq_ok_iff] at h
    exact ⟨h ▸ hb', nofun⟩
  case cons a l hi =>
    simp only [List.foldlM_cons, bind_eq_ok_iff] at h
    obtain ⟨b₁, hb, hl⟩ := h
    obtain ⟨hb₁, hP⟩ := hi (fun a ha => step a <| .tail _ ha) hl
    obtain ⟨hQ, ha⟩ := step a (.head _) b b₁ hb hb₁
    exact ⟨hQ, List.forall_mem_cons.mpr ⟨ha, hP⟩⟩

theorem foldlM_ok_invariant {f : β → α → Except ε β} {Q : β → Prop}
    (step : ∀ a ∈ l, ∀ b, Q b → ∃ b', f b a = .ok b' ∧ Q b') (hb : Q b) :
    ∃ b', l.foldlM f b = .ok b' ∧ Q b' := by
  induction l generalizing b
  case nil => exact ⟨b, rfl, hb⟩
  case cons a l hi =>
    obtain ⟨b₁, hok, hb₁⟩ := step a (.head _) b hb
    obtain ⟨b', hl, hb'⟩ := hi (fun a ha => step a <| .tail _ ha) hb₁
    exact ⟨b', by simp [List.foldlM_cons, hok, hl], hb'⟩

-- The run of a loop from its start: the state is about the elements that it has met.
theorem foldlM_prefix {f : β → α → Except ε β} {I : List α → β → Prop}
    (step : ∀ a ∈ l, ∀ done b, I done b → ∃ b', f b a = .ok b' ∧ I (done ++ [a]) b')
    (init : I done b) : ∃ b', l.foldlM f b = .ok b' ∧ I (done ++ l) b' := by
  induction l generalizing done b
  case nil => exact ⟨b, rfl, by rwa [List.append_nil]⟩
  case cons a l hi =>
    obtain ⟨b₁, hok, hb₁⟩ := step a (.head _) done b init
    obtain ⟨b', hl, hb'⟩ := hi (fun a ha => step a <| .tail _ ha) hb₁
    refine ⟨b', by rw [List.foldlM_cons, hok, ok_bind, hl], ?_⟩
    rwa [List.append_assoc, List.singleton_append] at hb'

theorem foldlM_append {γ : Type} {f : List γ → α → Except ε (List γ)} {g : α → List γ}
    (step : ∀ a ∈ l, ∀ b, f b a = .ok (b ++ g a)) (b : List γ) :
    l.foldlM f b = .ok (b ++ l.flatMap g) := by
  induction l generalizing b
  case nil => rw [List.flatMap_nil, List.append_nil]; rfl
  case cons a l hi =>
    rw [List.foldlM_cons, step a (.head _), ok_bind, hi fun a ha => step a <| .tail _ ha,
      List.flatMap_cons, List.append_assoc]

theorem foldlM_eq_foldl {f : β → α → Except ε β} {g : β → α → β}
    (step : ∀ a ∈ l, ∀ b, f b a = .ok (g b a)) (b : β) :
    l.foldlM f b = .ok (l.foldl g b) := by
  induction l generalizing b
  case nil => rfl
  case cons a l hi =>
    rw [List.foldlM_cons, step a (.head _), ok_bind, hi fun a ha => step a <| .tail _ ha,
      List.foldl_cons]

theorem foldlM_ok {f : β → α → Except ε β}
    (step : ∀ a ∈ l, ∀ b, ∃ b', f b a = .ok b') (b : β) : ∃ b', l.foldlM f b = .ok b' := by
  obtain ⟨b', hl, -⟩ := foldlM_ok_invariant (Q := fun _ => True)
    (fun a ha b _ => (step a ha b).imp fun _ hok => ⟨hok, trivial⟩) trivial
  exact ⟨b', hl⟩

theorem foldlM_const {f : β → α → Except ε β} (step : ∀ a ∈ l, f b a = .ok b) :
    l.foldlM f b = .ok b := by
  induction l
  case nil => rfl
  case cons a l hi =>
    rw [List.foldlM_cons, step a (.head _), ok_bind]
    exact hi fun a ha => step a <| .tail _ ha

theorem forM_eq_ok_iff {f : α → Except ε Unit} :
    l.forM f = .ok () ↔ ∀ a ∈ l, f a = .ok () := by
  induction l
  case nil => simp [List.forM, pure, Except.pure]
  case cons a l hi =>
    rw [List.forM, bind_eq_ok_iff, hi, List.forall_mem_cons]
    exact ⟨fun ⟨_, ha, hl⟩ => ⟨ha, hl⟩, fun ⟨ha, hl⟩ => ⟨(), ha, hl⟩⟩

theorem mapM_ok {f : α → Except ε β} (h : ∀ a ∈ l, ∃ b, f a = .ok b) :
    ∃ l', l.mapM f = .ok l' := by
  induction l
  case nil => exact ⟨[], rfl⟩
  case cons a l hi =>
    obtain ⟨b, hb⟩ := h a (.head _)
    obtain ⟨bs, hbs⟩ := hi fun a ha => h a <| .tail _ ha
    exact ⟨b :: bs, by simp [List.mapM_cons, hb, hbs]⟩

theorem mapM_const {f : α → Except ε β} (h : ∀ a ∈ l, f a = .ok b) :
    l.mapM f = .ok (List.replicate l.length b) := by
  induction l
  case nil => rfl
  case cons a l hi =>
    rw [List.mapM_cons, h a (.head _), ok_bind, hi fun a ha => h a <| .tail _ ha, ok_bind]
    rfl

theorem mapM_eq_map {f : α → Except ε β} {g : α → β} (h : ∀ a ∈ l, f a = .ok (g a)) :
    l.mapM f = .ok (l.map g) := by
  induction l
  case nil => rfl
  case cons a l hi =>
    rw [List.mapM_cons, h a (.head _), ok_bind, hi fun a ha => h a <| .tail _ ha, ok_bind]
    rfl

theorem mapM_eq_ok_iff {f : α → Except ε β} :
    l.mapM f = .ok l' ↔ List.Forall₂ (fun a b => f a = .ok b) l l' := by
  induction l generalizing l'
  case nil => simp [List.mapM_nil, pure, Except.pure]
  case cons a l hi =>
    simp only [List.mapM_cons, bind_eq_ok_iff, pure_eq_ok_iff, List.forall₂_cons_left_iff, hi]
    constructor
    case mp =>
      rintro ⟨b, hb, bs, hbs, rfl⟩
      exact ⟨b, bs, hb, hbs, rfl⟩
    case mpr =>
      rintro ⟨b, bs, hb, hbs, rfl⟩
      exact ⟨b, hb, bs, hbs, rfl⟩

theorem mapM_map {γ : Type} {f : α → Except ε β} (φ : β → γ) (g : α → γ)
    (step : ∀ a ∈ l, ∀ b, f a = .ok b → φ b = g a) (h : l.mapM f = .ok l') :
    l'.map φ = l.map g := by
  rw [mapM_eq_ok_iff] at h
  induction h
  case nil => rfl
  case cons a b l l' hb _ hi =>
    rw [List.map_cons, List.map_cons, step a (.head _) b hb,
      hi fun a ha => step a <| .tail _ ha]

-- A loop over the results of another one.
theorem mapM_mapM {γ : Type} {f : α → Except ε β} {g : β → Except ε γ} {h : α → γ} {l' : List β}
    (step : ∀ a ∈ l, ∀ b, f a = .ok b → g b = .ok (h a))
    (hl : l.mapM f = .ok l') : l'.mapM g = .ok (l.map h) := by
  rw [mapM_eq_ok_iff] at hl
  induction hl
  case nil => rfl
  case cons a b l l' hb _ hi =>
    rw [List.mapM_cons, step a (.head _) b hb, ok_bind, hi fun a ha => step a <| .tail _ ha, ok_bind]
    rfl

theorem mapM_forall {f : α → Except ε β} {Q : β → Prop}
    (step : ∀ a ∈ l, ∀ b, f a = .ok b → Q b) (h : l.mapM f = .ok l') : ∀ b ∈ l', Q b := by
  rw [mapM_eq_ok_iff] at h
  induction h
  case nil => exact fun _ hb => absurd hb List.not_mem_nil
  case cons a b l l' hb _ hi =>
    exact List.forall_mem_cons.mpr
      ⟨step a (.head _) b hb, hi fun a ha => step a <| .tail _ ha⟩

-- Two loops with one list of results agree on every element.
theorem exists_ok_of_mapM {f g : α → Except ε β} (h : l.mapM f = .ok l')
    (h' : l.mapM g = .ok l') (ha : a ∈ l) : ∃ b, f a = .ok b ∧ g a = .ok b := by
  rw [mapM_eq_ok_iff] at h h'
  induction h
  case nil => cases ha
  case cons hb _ hi =>
    obtain ⟨hb', hrest⟩ := List.forall₂_cons.mp h'
    obtain rfl | ha := List.mem_cons.mp ha
    · exact ⟨_, hb, hb'⟩
    · exact hi hrest ha

-- A loop fails where the first of its rounds fails.
theorem mapM_eq_error_iff {f : α → Except ε β} :
    l.mapM f = .error e ↔ ∃ done a rest, l = done ++ a :: rest ∧ f a = .error e ∧
      ∀ a' ∈ done, ∃ b, f a' = .ok b := by
  induction l
  case nil => simp [List.mapM_nil, pure, Except.pure]
  case cons a l hi =>
    rw [List.mapM_cons]
    cases hf : f a with
    | error e' =>
      constructor
      case mp =>
        intro h
        obtain rfl : e' = e := Except.error.inj h
        exact ⟨[], a, l, rfl, hf, fun _ ha => absurd ha List.not_mem_nil⟩
      case mpr =>
        rintro ⟨done, a', rest, heq, hfail, hdone⟩
        cases done with
        | nil =>
          obtain ⟨rfl, rfl⟩ := List.cons.inj heq
          obtain rfl : e' = e := Except.error.inj <| hf.symm.trans hfail
          rfl
        | cons b done =>
          obtain ⟨rfl, rfl⟩ := List.cons.inj heq
          obtain ⟨_, hok⟩ := hdone a (.head _)
          cases hf.symm.trans hok
    | ok b =>
      have hrest : (do let bs ← l.mapM f; pure (b :: bs)) = .error e ↔ l.mapM f = .error e := by
        cases l.mapM f
        · exact Iff.rfl
        · exact iff_of_false nofun nofun
      rw [ok_bind, hrest, hi]
      constructor
      case mp =>
        rintro ⟨done, a', rest, rfl, hfail, hdone⟩
        exact ⟨a :: done, a', rest, rfl, hfail, List.forall_mem_cons.mpr ⟨⟨b, hf⟩, hdone⟩⟩
      case mpr =>
        rintro ⟨done, a', rest, heq, hfail, hdone⟩
        cases done with
        | nil =>
          obtain ⟨rfl, rfl⟩ := List.cons.inj heq
          cases hf.symm.trans hfail
        | cons a'' done =>
          obtain ⟨rfl, rfl⟩ := List.cons.inj heq
          exact ⟨done, a', rest, rfl, hfail, fun a' ha => hdone a' <| .tail _ ha⟩

theorem mapM_range_eq_error_iff {f : ℕ → Except ε β} :
    (List.range n).mapM f = .error e ↔
      ∃ i < n, f i = .error e ∧ ∀ j < i, ∃ b, f j = .ok b := by
  rw [mapM_eq_error_iff, List.range_eq_range']
  constructor
  case mp =>
    rintro ⟨done, a, rest, heq, hfail, hdone⟩
    obtain ⟨k, -, rfl, hcons⟩ := List.range'_eq_append_iff.mp heq
    obtain ⟨rfl, hlt, -⟩ := List.range'_eq_cons_iff.mp hcons.symm
    refine ⟨_, ?_, hfail, fun j hj => hdone j ?_⟩
    · omega
    · rw [List.mem_range'_1]
      omega
  case mpr =>
    rintro ⟨i, hi, hfail, hdone⟩
    refine ⟨List.range' 0 i, i, List.range' (i + 1) (n - i - 1), ?_, hfail, fun j hj => ?_⟩
    · rw [List.range'_eq_append_iff]
      refine ⟨i, Nat.le_of_lt hi, rfl, ?_⟩
      rw [eq_comm, List.range'_eq_cons_iff]
      refine ⟨by omega, by omega, ?_⟩
      congr 1
    · rw [List.mem_range'_1] at hj
      exact hdone j (by omega)

theorem getElem?_of_mapM_range {f : ℕ → Except ε β} (h : (List.range n).mapM f = .ok l')
    (hi : i < n) : ∃ b, l'[i]? = some b ∧ f i = .ok b := by
  obtain ⟨hlen, hget⟩ := List.forall₂_iff_get.mp <| mapM_eq_ok_iff.mp h
  have hi' : i < l'.length := by simpa [← hlen] using hi
  refine ⟨l'[i], List.getElem?_eq_getElem hi', ?_⟩
  simpa using hget i (by simpa using hi) hi'

-- Two loops with the same results, element by element.
theorem mapM_forall₂ {f g : α → Except ε β} {R S : α → α → Prop}
    (step : ∀ a ∈ l, ∀ a' b, R a a' → f a = .ok b → g a' = .ok b → S a a')
    (hR : List.Forall₂ R l l') (h : l.mapM f = .ok bs) (h' : l'.mapM g = .ok bs) :
    List.Forall₂ S l l' := by
  rw [mapM_eq_ok_iff] at h h'
  induction hR generalizing bs
  case nil => exact .nil
  case cons a a' l l' ha _ hi =>
    obtain ⟨b, bs, hb, hbs, rfl⟩ := List.forall₂_cons_left_iff.mp h
    obtain ⟨hb', hbs'⟩ := List.forall₂_cons.mp h'
    exact .cons (step a (.head _) a' b ha hb hb') <|
      hi (fun a ha => step a <| .tail _ ha) hbs hbs'

theorem exists_of_forall₂ {R : α → β → Prop} {l' : List β} (h : List.Forall₂ R l l') (ha : a ∈ l) :
    ∃ b, R a b := by
  induction h
  case nil => cases ha
  case cons hb _ hi =>
    obtain rfl | ha := List.mem_cons.mp ha
    · exact ⟨_, hb⟩
    · exact hi ha

section Error

variable {ι : Type} {g : ι → ε} {x : Except ε α} {f : α → Except ε β}

theorem error_bind_iff : (∃ i, (x >>= f) = .error (g i)) ↔
    (∃ i, x = .error (g i)) ∨ ∃ a, x = .ok a ∧ ∃ i, f a = .error (g i) := by
  cases x with
  | error e => simp [bind, Except.bind]
  | ok a    => simp [bind, Except.bind]

theorem not_error_bind (hx : ¬∃ i, x = .error (g i))
    (hf : ∀ a, x = .ok a → ¬∃ i, f a = .error (g i)) : ¬∃ i, (x >>= f) = .error (g i) := by
  rw [error_bind_iff]
  rintro (h | ⟨a, ha, h⟩)
  · exact hx h
  · exact hf a ha h

theorem not_error_ok {a : α} : ¬∃ i, (.ok a : Except ε α) = .error (g i) := by
  rintro ⟨_, h⟩
  cases h

end Error

section Panics

def Panics (x : UrsaCryptoResult α) : Prop :=
  ∃ msg, x = .error (.panic msg)

variable {x : UrsaCryptoResult α}

theorem panics_bind_iff {f : α → UrsaCryptoResult β} :
    Panics (x >>= f) ↔ Panics x ∨ ∃ a, x = .ok a ∧ Panics (f a) :=
  error_bind_iff

theorem not_panics_bind {f : α → UrsaCryptoResult β} (hx : ¬Panics x)
    (hf : ∀ a, x = .ok a → ¬Panics (f a)) : ¬Panics (x >>= f) :=
  not_error_bind hx hf

theorem not_panics_ok {a : α} : ¬Panics (.ok a) :=
  not_error_ok

theorem not_panics_pure {a : α} : ¬Panics (pure a) :=
  not_panics_ok

theorem not_panics_err : ¬Panics (.error (.err kind msg) : UrsaCryptoResult α) := by
  rintro ⟨_, h⟩
  cases h

-- An error that is passed on.
theorem not_panics_error (hx : ¬Panics x) (h : x = .error e) :
    ¬Panics (.error e : UrsaCryptoResult β) := by
  rintro ⟨msg, he⟩
  injection he with he
  exact hx ⟨msg, he ▸ h⟩

theorem not_panics_okOrElse {o : Option α} : ¬Panics (okOrElse o (.err kind msg)) := by
  cases o with
  | none   => exact not_panics_err
  | some _ => exact not_panics_ok

theorem panics_index_iff {l : List α} : Panics (index l i) ↔ l.length ≤ i := by
  unfold index okOrElse
  cases h : l[i]? with
  | none   => exact iff_of_true ⟨_, rfl⟩ <| List.getElem?_eq_none_iff.mp h
  | some a =>
    refine iff_of_false not_panics_ok <| Nat.not_le.mpr ?_
    exact (List.getElem?_eq_some_iff.mp h).1

theorem not_panics_foldlM {f : β → α → UrsaCryptoResult β} (h : ∀ a ∈ l, ∀ b, ¬Panics (f b a))
    (b : β) : ¬Panics (l.foldlM f b) := by
  induction l generalizing b
  case nil => exact not_panics_pure
  case cons a l hi =>
    rw [List.foldlM_cons]
    exact not_panics_bind (h a (.head _) b) fun b' _ => hi (fun a ha => h a <| .tail _ ha) b'

-- In a loop whose rounds do not depend on the state, an element panics if all before it pass.
theorem panics_foldlM_iff {f : β → α → UrsaCryptoResult β} {P Q : α → Prop} {R : α → α → Prop}
    (hl : l.Pairwise R) (hR : ∀ a a', R a a' → ¬R a' a)
    (hok : ∀ a ∈ l, ∀ b, (∃ b', f b a = .ok b') ↔ Q a)
    (hpanic : ∀ a ∈ l, ∀ b, Panics (f b a) ↔ P a) (b : β) :
    Panics (l.foldlM f b) ↔ ∃ a ∈ l, P a ∧ ∀ a' ∈ l, R a' a → Q a' := by
  induction l generalizing b
  case nil => exact iff_of_false not_panics_pure nofun
  case cons a l hi =>
    obtain ⟨ha, hl⟩ := List.pairwise_cons.mp hl
    have hrest := hi hl (fun a ha => hok a <| .tail _ ha) (fun a ha => hpanic a <| .tail _ ha)
    rw [List.foldlM_cons, panics_bind_iff, hpanic a (.head _)]
    simp only [hrest, List.exists_mem_cons_iff, List.forall_mem_cons]
    constructor
    case mp =>
      rintro (hP | ⟨b', hb', a₁, ha₁, hP, hQ⟩)
      · exact .inl ⟨hP, fun h => absurd h (hR a a h), fun a' ha' h => absurd h (hR a a' (ha a' ha'))⟩
      · exact .inr ⟨a₁, ha₁, hP, fun _ => (hok a (.head _) b).mp ⟨b', hb'⟩, hQ⟩
    case mpr =>
      rintro (⟨hP, -⟩ | ⟨a₁, ha₁, hP, hQa, hQ⟩)
      · exact .inl hP
      · obtain ⟨b', hb'⟩ := (hok a (.head _) b).mpr <| hQa (ha a₁ ha₁)
        exact .inr ⟨b', hb', a₁, ha₁, hP, hQ⟩

section FoldResult

variable {f : UrsaCryptoResult β → α → UrsaCryptoResult β} {init : UrsaCryptoResult β}

theorem foldResult_panic : foldResult f (.error <| .panic msg) l = .error (.panic msg) := by
  induction l
  case nil => rfl
  case cons _ _ hi => exact hi

theorem foldResult_cons (h : ¬Panics init) :
    foldResult f init (a :: l) = foldResult f (f init a) l := by
  match init with
  | .ok _                 => rfl
  | .error (.err ..)      => rfl
  | .error (.panic msg)   => exact absurd ⟨msg, rfl⟩ h

theorem foldResult_ok (step : ∀ a ∈ l, ∀ b, ∃ b', f (.ok b) a = .ok b') (b : β) :
    ∃ b', foldResult f (.ok b) l = .ok b' := by
  induction l generalizing b
  case nil => exact ⟨b, rfl⟩
  case cons a l hi =>
    obtain ⟨b₁, hb⟩ := step a (.head _) b
    rw [foldResult_cons not_panics_ok, hb]
    exact hi (fun a ha => step a <| .tail _ ha) b₁

-- What every round multiplies with, if none of them fails.
theorem foldResult_prod {M : Type} [CommMonoid M] (φ : β → M) (g : α → M)
    (step : ∀ a ∈ l, ∀ acc b', f acc a = .ok b' → ∃ b, acc = .ok b ∧ φ b' = g a * φ b)
    (h : foldResult f init l = .ok b') : ∃ b, init = .ok b ∧ φ b' = (l.map g).prod * φ b := by
  induction l generalizing init
  case nil => exact ⟨b', h, by rw [List.map_nil, List.prod_nil, one_mul]⟩
  case cons a l hi =>
    have hinit : ¬Panics init := by
      rintro ⟨msg, rfl⟩
      rw [foldResult_panic] at h
      cases h
    rw [foldResult_cons hinit] at h
    obtain ⟨b₁, hb₁, hprod⟩ := hi (fun a ha => step a <| .tail _ ha) h
    obtain ⟨b, hb, hround⟩ := step a (.head _) init b₁ hb₁
    refine ⟨b, hb, ?_⟩
    rw [hprod, hround, List.map_cons, List.prod_cons, mul_left_comm, mul_assoc]

-- Errors do not end the loop: the element of every round is looked at.
theorem panics_foldResult_iff {P : α → Prop}
    (hpanic : ∀ acc, ¬Panics acc → ∀ a ∈ l, Panics (f acc a) ↔ P a) :
    Panics (foldResult f init l) ↔ Panics init ∨ ∃ a ∈ l, P a := by
  induction l generalizing init
  case nil => exact ⟨.inl, fun h => h.resolve_right nofun⟩
  case cons a l hi =>
    by_cases h : Panics init
    case pos =>
      obtain ⟨msg, rfl⟩ := h
      exact iff_of_true ⟨msg, foldResult_panic⟩ <| .inl ⟨msg, rfl⟩
    case neg =>
      rw [foldResult_cons h, hi fun acc hacc a ha => hpanic acc hacc a <| .tail _ ha,
        hpanic init h a (.head _), List.exists_mem_cons_iff, or_iff_right h]

theorem foldResult_ok_iff {Q : α → Prop}
    (hok : ∀ acc, ∀ a ∈ l, (∃ b, f acc a = .ok b) ↔ (∃ b, acc = .ok b) ∧ Q a) :
    (∃ b, foldResult f init l = .ok b) ↔ (∃ b, init = .ok b) ∧ ∀ a ∈ l, Q a := by
  induction l generalizing init
  case nil => simp [foldResult]
  case cons a l hi =>
    by_cases h : Panics init
    case pos =>
      obtain ⟨msg, rfl⟩ := h
      simp [foldResult_panic]
    case neg =>
      rw [foldResult_cons h, hi fun acc a ha => hok acc a <| .tail _ ha, hok init a (.head _),
        List.forall_mem_cons, and_assoc]

end FoldResult

theorem not_panics_forM {f : α → UrsaCryptoResult Unit} (h : ∀ a ∈ l, ¬Panics (f a)) :
    ¬Panics (l.forM f) := by
  induction l
  case nil => exact not_panics_ok
  case cons a l hi =>
    exact not_panics_bind (h a (.head _)) fun _ _ => hi fun a ha => h a <| .tail _ ha

theorem not_panics_mapM {f : α → UrsaCryptoResult β} (h : ∀ a ∈ l, ¬Panics (f a)) :
    ¬Panics (l.mapM f) := by
  rintro ⟨msg, hmsg⟩
  obtain ⟨done, a, rest, rfl, ha, -⟩ := mapM_eq_error_iff.mp hmsg
  exact h a (by simp) ⟨msg, ha⟩

end Panics

end UrsaCryptoResult
end Ursa
