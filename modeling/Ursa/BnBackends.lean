import Ursa.BnRust
import Ursa.Math.Lockstep

namespace Ursa

open BigNumber (fromBytes toBytes)

-- The operations of `BigNumber` that both backends implement without an error.
inductive BigNumberOp
  | setNegative (negative : Bool)
  | increment
  | decrement
  | tryClone
  deriving DecidableEq, Repr

namespace BigNumberOp

def openssl (self : BigNumber) : BigNumberOp → BigNumber
  | setNegative negative => self.setNegative negative
  | increment            => self.increment
  | decrement            => self.decrement
  | tryClone             => self.tryClone

def rust (self : BigNumber) : BigNumberOp → BigNumber
  | setNegative negative => Rust.setNegative self negative
  | increment            => Rust.increment self
  | decrement            => Rust.decrement self
  | tryClone             => Rust.tryClone self

-- What the operations are for.
def exact (x : ℤ) : BigNumberOp → ℤ
  | setNegative true  => -|x|
  | setNegative false => |x|
  | increment         => x + 1
  | decrement         => x - 1
  | tryClone          => x

-- A step up or down is taken from a number that is not negative.
def Safe (x : ℤ) : BigNumberOp → Prop
  | increment | decrement      => 0 ≤ x
  | setNegative _ | tryClone   => True

variable {x : ℤ}

theorem rust_eq_exact (x : ℤ) (op : BigNumberOp) : rust x op = exact x op := by
  cases op
  case setNegative negative =>
    cases negative
    case false => exact Rust.setNegative_false x
    case true =>
      unfold rust exact Rust.setNegative
      obtain hx | hx := lt_or_ge x 0
      case inl => rw [decide_eq_true hx, abs_of_neg hx, neg_neg]
      case inr => rw [decide_eq_false hx.not_gt, abs_of_nonneg hx]
  case increment => rfl
  case decrement => rfl
  case tryClone => rfl

theorem fromBytes_toBytes (x : ℤ) : fromBytes (toBytes x) = |x| := by
  rw [fromBytes, BigNumber.magnitude_toBytes, Int.abs_eq_natAbs]

-- The sign is lost on the way through the bytes, and set again by `try_clone` only.
theorem openssl_eq (x : ℤ) (op : BigNumberOp) : openssl x op =
    match op with
    | setNegative true  => -|x|
    | setNegative false => |x|
    | increment         => |x| + 1
    | decrement         => |x| - 1
    | tryClone          => x := by
  cases op
  case setNegative negative =>
    cases negative
    case false => exact (Int.abs_eq_natAbs x).symm
    case true => exact congrArg Neg.neg (Int.abs_eq_natAbs x).symm
  case increment => exact congrArg (· + 1) (Int.abs_eq_natAbs x).symm
  case decrement => exact congrArg (· - 1) (fromBytes_toBytes x)
  case tryClone =>
    dsimp only [openssl]
    rw [BigNumber.tryClone, fromBytes_toBytes, BigNumber.setNegative, BigNumber.isNegative,
      Int.natAbs_abs, ← Int.abs_eq_natAbs]
    obtain hx | hx := lt_or_ge x 0
    case inl => rw [decide_eq_true hx, if_pos rfl, abs_of_neg hx, neg_neg]
    case inr => rw [decide_eq_false hx.not_gt, if_neg Bool.false_ne_true, abs_of_nonneg hx]

theorem openssl_eq_exact_iff : openssl x op = exact x op ↔ op.Safe x := by
  rw [openssl_eq]
  cases op
  case setNegative negative => cases negative <;> exact iff_of_true rfl trivial
  case increment => exact add_left_inj 1 |>.trans abs_eq_self
  case decrement => exact sub_left_inj |>.trans abs_eq_self
  case tryClone => exact iff_of_true rfl trivial

-- The backends part at the first step from a negative number.
theorem agree_iff {ops : List BigNumberOp} :
    Lockstep.Agree openssl rust ops x ↔ Lockstep.Always exact (fun x op => op.Safe x) ops x := by
  rw [funext₂ rust_eq_exact]
  exact Lockstep.agree_iff fun _ _ => openssl_eq_exact_iff

theorem decrement_increment_iff :
    BigNumber.decrement (BigNumber.increment x) = x ↔ 0 ≤ x := by
  have hincrement : BigNumber.increment x = |x| + 1 := openssl_eq x increment
  have hdecrement : BigNumber.decrement (|x| + 1) = |x| := by
    refine (openssl_eq _ decrement).trans ?_
    rw [abs_of_nonneg <| add_nonneg (abs_nonneg x) zero_le_one, add_sub_cancel_right]
  rw [hincrement, hdecrement, abs_eq_self]

theorem signs_iff (x : ℤ) (op : BigNumberOp) (ops : List BigNumberOp) :
    rust x op = exact x op ∧
    Rust.decrement (Rust.increment x) = x ∧
    (openssl x op = exact x op ↔ op.Safe x) ∧
    (BigNumber.decrement (BigNumber.increment x) = x ↔ 0 ≤ x) ∧
    ((∀ pre, pre <+: ops → pre.foldl openssl x = pre.foldl rust x) ↔
      Lockstep.Always exact (fun x op => op.Safe x) ops x) :=
  ⟨rust_eq_exact x op, add_sub_cancel_right x 1, openssl_eq_exact_iff, decrement_increment_iff,
    agree_iff⟩

theorem negative_steps_wrong :
    openssl (-1) increment = 2 ∧ rust (-1) increment = 0 ∧
      openssl (-1) decrement = 0 ∧ rust (-1) decrement = -2 ∧
      BigNumber.decrement (BigNumber.increment (-1)) = 1 ∧
      [setNegative true, increment].foldl openssl 1 = 2 ∧
      [setNegative true, increment].foldl rust 1 = 0 := by
  decide

end BigNumberOp
end Ursa
