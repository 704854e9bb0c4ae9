import Mathlib.Algebra.Order.Floor.Ring
import Mathlib.Data.Rat.Floor
import Mathlib.Tactic.Linarith
import Perpetual.Orders

/-! The orders of the client (`orders.ts`, `types.ts`) and how they are encoded for P1Orders.
A `BigNumber` is the rational it denotes. Only a `BaseValue` also keeps the sign of a zero,
which `isNegative` reads. -/
namespace Perpetual

namespace BigNumber

/-- `toFixed(0)`: to the nearest integer, and a half away from zero. -/
def toFixed0 (x : ℚ) : ℤ := if x < 0 then -⌊-x + 1 / 2⌋ else ⌊x + 1 / 2⌋

theorem toFixed0Int (n : ℤ) : toFixed0 n = n := by
  have half (m : ℤ) : ⌊(m : ℚ) + 1 / 2⌋ = m :=
    Int.floor_eq_iff.mpr ⟨by norm_num,by norm_num⟩
  unfold toFixed0
  split
  · rw [← Int.cast_neg, half, neg_neg]
  · exact half n

theorem toFixed0Mono {x y : ℚ} (le : x ≤ y) : toFixed0 x ≤ toFixed0 y := by
  unfold toFixed0
  split <;> rename_i left <;> split <;> rename_i right
  · exact Int.neg_le_neg (Int.floor_le_floor (by linarith))
  · have below : 0 ≤ ⌊-x + 1 / 2⌋ := Int.floor_nonneg.mpr (by linarith)
    have above : 0 ≤ ⌊y + 1 / 2⌋ := Int.floor_nonneg.mpr (by linarith)
    omega
  · exact absurd (le.trans_lt right) left
  · exact Int.floor_le_floor (by linarith)

end BigNumber

structure BaseValue where
  value : ℚ
  isNegative : Bool
  signed : value ≠ 0 → isNegative = decide (value < 0)
  deriving DecidableEq

namespace BaseValue

def BASE_DECIMALS : Nat := 18

def ofValue (value : ℚ) : BaseValue := ⟨value,decide (value < 0),fun _ => rfl⟩

def negativeZero : BaseValue := ⟨0,true,fun h => absurd rfl h⟩

def toSolidity (x : BaseValue) : ℤ := BigNumber.toFixed0 (|x.value| * 10 ^ BASE_DECIMALS)

theorem toSolidityNonneg (x : BaseValue) : 0 ≤ x.toSolidity := by
  rw [toSolidity, ← BigNumber.toFixed0Int 0]
  exact BigNumber.toFixed0Mono (by rw [Int.cast_zero]; positivity)

theorem ofValueSelf {x : BaseValue} (plain : x ≠ negativeZero) : ofValue x.value = x := by
  obtain ⟨value,isNegative,signed⟩ := x
  by_cases zero : value = 0
  · subst zero
    cases isNegative with
    | false => rfl
    | true => exact absurd rfl plain
  · simp only [ofValue, mk.injEq, true_and]
    exact (signed zero).symm

end BaseValue

structure SignedOrder where
  isBuy : Bool
  isDecreaseOnly : Bool
  amount : ℚ
  limitPrice : BaseValue
  triggerPrice : BaseValue
  limitFee : BaseValue
  maker : Address
  taker : Address
  expiration : ℚ
  salt : ℚ
  typedSignature : TypedSignature.Signature
  deriving DecidableEq

namespace SignedOrder

namespace ORDER_FLAGS

def IS_BUY : Nat := 1

def IS_DECREASE_ONLY : Nat := 2

def IS_NEGATIVE_LIMIT_FEE : Nat := 4

end ORDER_FLAGS

def uint256 (v : ℤ) : Checked Uint256 := do
  Checked.require (0 ≤ v ∧ v < 2 ^ 256) "value out-of-bounds"
  return BitVec.ofInt 256 v

def packUint256 (v : ℤ) : Checked Uint256 := do
  Checked.require (|v| < 2 ^ 256) "value out of range"
  return BitVec.ofInt 256 v

/-- The last 63 hex digits of the salt. The sign of a negative salt is one of the
characters that are kept, unless it has as many digits itself. -/
def saltBytes (salt : ℚ) : Checked Nat := do
  Checked.require (salt.den = 1) "bnToBytes32: value must be an integer"
  Checked.require (0 ≤ salt.num ∨ 16 ^ 62 ≤ salt.num.natAbs) "invalid arrayify value"
  return salt.num.natAbs % 16 ^ 63

def booleanFlag (order : SignedOrder) : Nat :=
  (if order.limitFee.isNegative then ORDER_FLAGS.IS_NEGATIVE_LIMIT_FEE else 0) +
    (if order.isDecreaseOnly then ORDER_FLAGS.IS_DECREASE_ONLY else 0) +
    (if order.isBuy then ORDER_FLAGS.IS_BUY else 0)

def getOrderFlags (order : SignedOrder) : Checked Bytes32 := do
  let salt ← saltBytes order.salt
  return BitVec.ofNat 256 (salt * 16 + booleanFlag order)

def EIP712_ORDER_STRUCT_STRING : List UInt8 :=
  Abi.ascii ("Order(" ++ "bytes32 flags," ++ "uint256 amount," ++ "uint256 limitPrice," ++
    "uint256 triggerPrice," ++ "uint256 limitFee," ++ "address maker," ++ "address taker," ++
    "uint256 expiration" ++ ")")

def getEIP712Hash (crypto : Crypto) (domainHash structHash : Bytes32) : Bytes32 :=
  crypto.keccak256 ([0x19,0x01] ++ Abi.word domainHash ++ Abi.word structHash)

def getOrderHash (crypto : Crypto) (domainHash : Bytes32) (order : SignedOrder) : Checked Bytes32 := do
  let flags ← getOrderFlags order
  let amount ← packUint256 (BigNumber.toFixed0 order.amount)
  let limitPrice ← packUint256 order.limitPrice.toSolidity
  let triggerPrice ← packUint256 order.triggerPrice.toSolidity
  let limitFee ← packUint256 order.limitFee.toSolidity
  let expiration ← packUint256 (BigNumber.toFixed0 order.expiration)
  let structHash := crypto.keccak256 (Abi.word (crypto.keccak256 EIP712_ORDER_STRUCT_STRING) ++
    (Abi.word flags ++ Abi.word amount ++ Abi.word limitPrice ++ Abi.word triggerPrice ++
      Abi.word limitFee ++ Abi.addressWord order.maker ++ Abi.addressWord order.taker ++
      Abi.word expiration))
  return getEIP712Hash crypto domainHash structHash

def orderToSolidity (order : SignedOrder) : Checked Order := do
  let flags ← getOrderFlags order
  let amount ← uint256 (BigNumber.toFixed0 order.amount)
  let limitPrice ← uint256 order.limitPrice.toSolidity
  let triggerPrice ← uint256 order.triggerPrice.toSolidity
  let limitFee ← uint256 order.limitFee.toSolidity
  let expiration ← uint256 (BigNumber.toFixed0 order.expiration)
  return ⟨flags,amount,limitPrice,triggerPrice,limitFee,order.maker,order.taker,expiration⟩

def fillToTradeData (order : SignedOrder) (amount : ℚ) (price fee : BaseValue) : Checked TradeData := do
  let solidityOrder ← orderToSolidity order
  let amount ← uint256 (BigNumber.toFixed0 amount)
  let price ← uint256 price.toSolidity
  let fee' ← uint256 fee.toSolidity
  return ⟨solidityOrder,⟨amount,price,fee',fee.isNegative⟩,order.typedSignature⟩

theorem uint256Ok {v : ℤ} {x : Uint256} : uint256 v = .ok x ↔ (x.toNat : ℤ) = v := by
  simp only [uint256, Checked.bindOk, Checked.requireOk, exists_const, Checked.pureOk]
  constructor
  · rintro ⟨⟨low,high⟩,rfl⟩
    rw [BitVec.toNat_ofInt]
    omega
  · rintro rfl
    refine ⟨⟨by omega,by exact_mod_cast x.isLt⟩,?_⟩
    apply BitVec.eq_of_toNat_eq
    rw [BitVec.toNat_ofInt]
    omega

theorem packed {v : ℤ} {x : Uint256} (ok : uint256 v = .ok x) : packUint256 v = .ok x := by
  simp only [uint256, packUint256, Checked.bindOk, Checked.requireOk, exists_const, Checked.pureOk] at ok ⊢
  obtain ⟨⟨low,high⟩,same⟩ := ok
  exact ⟨by rwa [abs_of_nonneg low],same⟩

section
variable {order : SignedOrder} {solidityOrder : Order}

structure Encoded (order : SignedOrder) (solidityOrder : Order) : Prop where
  flags : getOrderFlags order = .ok solidityOrder.flags
  amount : (solidityOrder.amount.toNat : ℤ) = BigNumber.toFixed0 order.amount
  limitPrice : (solidityOrder.limitPrice.toNat : ℤ) = order.limitPrice.toSolidity
  triggerPrice : (solidityOrder.triggerPrice.toNat : ℤ) = order.triggerPrice.toSolidity
  limitFee : (solidityOrder.limitFee.toNat : ℤ) = order.limitFee.toSolidity
  maker : solidityOrder.maker = order.maker
  taker : solidityOrder.taker = order.taker
  expiration : (solidityOrder.expiration.toNat : ℤ) = BigNumber.toFixed0 order.expiration

theorem encoded : orderToSolidity order = .ok solidityOrder ↔ Encoded order solidityOrder := by
  simp only [orderToSolidity, Checked.bindOk, Checked.pureOk, uint256Ok]
  constructor
  · rintro ⟨flags,hf,a,ha,p,hp,t,ht,f,hl,e,he,rfl⟩
    exact ⟨hf,ha,hp,ht,hl,rfl,rfl,he⟩
  · intro h
    exact ⟨_,h.flags,_,h.amount,_,h.limitPrice,_,h.triggerPrice,_,h.limitFee,_,h.expiration,by
      rw [← h.maker, ← h.taker]⟩

theorem hashed (crypto : Crypto) (domainHash : Bytes32) (ok : orderToSolidity order = .ok solidityOrder) :
    getOrderHash crypto domainHash order = .ok (Orders.getOrderHash crypto domainHash solidityOrder) := by
  have h := encoded.mp ok
  simp only [getOrderHash, Checked.bindOk, Checked.pureOk]
  refine ⟨_,h.flags,_,packed (uint256Ok.mpr h.amount),_,packed (uint256Ok.mpr h.limitPrice),_,
    packed (uint256Ok.mpr h.triggerPrice),_,packed (uint256Ok.mpr h.limitFee),_,
    packed (uint256Ok.mpr h.expiration),?_⟩
  rw [← h.maker, ← h.taker]
  rfl

theorem booleanFlagSmall (order : SignedOrder) : booleanFlag order < 16 := by
  unfold booleanFlag
  split <;> split <;> split <;> decide

theorem flagged {flags : Bytes32} (ok : getOrderFlags order = .ok flags) :
    flags.toNat % 16 = booleanFlag order := by
  simp only [getOrderFlags, Checked.bindOk, Checked.pureOk] at ok
  obtain ⟨salt,_,rfl⟩ := ok
  have small := booleanFlagSmall order
  rw [BitVec.toNat_ofNat]
  omega

theorem saltFlagged {salt : Nat} (integral : order.salt = ((salt : ℤ) : ℚ)) {flags : Bytes32}
    (ok : getOrderFlags order = .ok flags) : flags.toNat / 16 = salt % 16 ^ 63 := by
  simp only [getOrderFlags, saltBytes, integral, Rat.den_intCast, Rat.num_intCast, Int.natAbs_natCast,
    Checked.bindOk, Checked.requireOk, exists_const, Checked.pureOk] at ok
  obtain ⟨_,⟨_,_,rfl⟩,rfl⟩ := ok
  have small := booleanFlagSmall order
  rw [BitVec.toNat_ofNat]
  omega

theorem flagBit {flags : Bytes32} (ok : getOrderFlags order = .ok flags) {i : Nat} (low : i < 4) :
    (flags &&& BitVec.twoPow 256 i != 0) = (booleanFlag order).testBit i := by
  have bit : flags.getLsbD i = (booleanFlag order).testBit i := by
    rw [← flagged ok, Nat.testBit_mod_two_pow flags.toNat 4 i, decide_eq_true low, Bool.true_and]
    rfl
  rw [BitVec.and_twoPow, bit]
  cases (booleanFlag order).testBit i with
  | false => rfl
  | true =>
    refine bne_iff_ne.mpr fun zero => ?_
    have same := congrArg (fun x => BitVec.getLsbD x i) zero
    simp only [if_true, BitVec.getLsbD_twoPow] at same
    exact absurd same (by simp; omega)

theorem sideKept (ok : orderToSolidity order = .ok solidityOrder) : Orders.isBuy solidityOrder = order.isBuy := by
  refine (flagBit (encoded.mp ok).flags (i := 0) (by decide)).trans ?_
  unfold booleanFlag
  cases order.limitFee.isNegative <;> cases order.isDecreaseOnly <;> cases order.isBuy <;> rfl

theorem decreaseKept (ok : orderToSolidity order = .ok solidityOrder) :
    Orders.isDecreaseOnly solidityOrder = order.isDecreaseOnly := by
  refine (flagBit (encoded.mp ok).flags (i := 1) (by decide)).trans ?_
  unfold booleanFlag
  cases order.limitFee.isNegative <;> cases order.isDecreaseOnly <;> cases order.isBuy <;> rfl

theorem feeSideKept (ok : orderToSolidity order = .ok solidityOrder) :
    Orders.isNegativeLimitFee solidityOrder = order.limitFee.isNegative := by
  refine (flagBit (encoded.mp ok).flags (i := 2) (by decide)).trans ?_
  unfold booleanFlag
  cases order.limitFee.isNegative <;> cases order.isDecreaseOnly <;> cases order.isBuy <;> rfl

end

structure FillEncoded (order : SignedOrder) (amount : ℚ) (price fee : BaseValue) (data : TradeData) :
    Prop where
  isNegativeFee : data.fill.isNegativeFee = fee.isNegative
  signature : data.signature = order.typedSignature
  order : orderToSolidity order = .ok data.order
  amount : (data.fill.amount.toNat : ℤ) = BigNumber.toFixed0 amount
  price : (data.fill.price.toNat : ℤ) = price.toSolidity
  fee : (data.fill.fee.toNat : ℤ) = fee.toSolidity

theorem fillEncoded {order : SignedOrder} {amount : ℚ} {price fee : BaseValue} {data : TradeData}
    (ok : fillToTradeData order amount price fee = .ok data) :
    FillEncoded order amount price fee data := by
  simp only [fillToTradeData, Checked.bindOk, Checked.pureOk, uint256Ok] at ok
  obtain ⟨solidityOrder,encoded,a,ha,p,hp,f,hf,rfl⟩ := ok
  exact ⟨rfl,rfl,encoded,ha,hp,hf⟩

end SignedOrder
end Perpetual
