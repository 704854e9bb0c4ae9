import Mathlib.Data.Int.ModEq
import Mathlib.Data.Set.Function
import Perpetual.SignedOrders

/-! Whether orders that differ for the client differ for P1Orders. -/
namespace Perpetual

theorem BigNumber.toFixed0Neg (x : ℚ) : toFixed0 (-x) = -toFixed0 x := by
  unfold toFixed0
  rcases lt_trichotomy x 0 with negative | rfl | positive
  · rw [if_neg (by linarith), if_pos negative, neg_neg]
  · norm_num
  · rw [if_pos (by linarith), if_neg (by linarith), neg_neg]

def BaseValue.at18 (x : BaseValue) : ℤ := BigNumber.toFixed0 (x.value * 10 ^ BASE_DECIMALS)

theorem BaseValue.at18Signed (x : BaseValue) : x.at18 = if x.isNegative then -x.toSolidity else x.toSolidity := by
  obtain ⟨value,isNegative,signed⟩ := x
  rcases lt_trichotomy value 0 with negative | rfl | positive
  · obtain rfl : isNegative = true := (signed negative.ne).trans (decide_eq_true negative)
    rw [if_pos rfl, toSolidity, abs_of_neg negative, neg_mul, BigNumber.toFixed0Neg, neg_neg, at18]
  · have nothing : BigNumber.toFixed0 0 = 0 := BigNumber.toFixed0Int 0
    simp only [at18, toSolidity, abs_zero, zero_mul, nothing, neg_zero, ite_self]
  · obtain rfl : isNegative = false := (signed positive.ne').trans (decide_eq_false positive.not_gt)
    rw [if_neg Bool.false_ne_true, toSolidity, abs_of_pos positive, at18]

namespace SignedOrder

structure Identity where
  isBuy : Bool
  isDecreaseOnly : Bool
  amount : ℚ
  limitPrice : ℤ
  triggerPrice : ℤ
  limitFee : ℤ
  isNegativeFee : Bool
  maker : Address
  taker : Address
  expiration : ℚ
  salt : ℚ
  deriving DecidableEq

def identity (order : SignedOrder) : Identity where
  isBuy := order.isBuy
  isDecreaseOnly := order.isDecreaseOnly
  amount := order.amount
  limitPrice := order.limitPrice.at18
  triggerPrice := order.triggerPrice.at18
  limitFee := order.limitFee.at18
  isNegativeFee := order.limitFee.isNegative
  maker := order.maker
  taker := order.taker
  expiration := order.expiration
  salt := order.salt

def InUint256 (x : ℚ) : Prop := ∃ n : Nat, x = n ∧ n < 2 ^ 256

structure InRange (order : SignedOrder) : Prop where
  amount : InUint256 order.amount
  expiration : InUint256 order.expiration
  salt : InUint256 order.salt
  limitPrice : 0 ≤ order.limitPrice.value
  triggerPrice : 0 ≤ order.triggerPrice.value
  limitPriceFits : order.limitPrice.toSolidity < 2 ^ 256
  triggerPriceFits : order.triggerPrice.toSolidity < 2 ^ 256
  limitFeeFits : order.limitFee.toSolidity < 2 ^ 256

/-- The orders have different structs, and different hashes where the hash of P1Orders does not
collide on these. -/
def Apart (order other : SignedOrder) : Prop :=
  ∃ s s', orderToSolidity order = .ok s ∧ orderToSolidity other = .ok s' ∧ s ≠ s' ∧
    ∀ crypto domainHash, Set.InjOn (Orders.getOrderHash crypto domainHash) {s,s'} →
      getOrderHash crypto domainHash order ≠ getOrderHash crypto domainHash other

def Alike (order other : SignedOrder) : Prop :=
  { order.identity with salt := 0 } = { other.identity with salt := 0 } ∧
    ∃ k : ℤ, order.salt - other.salt = k * 2 ^ 252

/-- They differ, but in the first hex digit of the salts only. -/
def Merged (order other : SignedOrder) : Prop := order.salt ≠ other.salt ∧ Alike order other

section
variable {order other : SignedOrder} {s s' : Order}

theorem uint256Fits {v : ℤ} (nonneg : 0 ≤ v) (fits : v < 2 ^ 256) : uint256 v = .ok (BitVec.ofInt 256 v) := by
  simp only [uint256, Checked.bindOk, Checked.requireOk, exists_const, Checked.pureOk]
  exact ⟨⟨nonneg,fits⟩,trivial⟩

theorem InUint256.fixed {x : ℚ} (h : InUint256 x) : 0 ≤ BigNumber.toFixed0 x ∧ BigNumber.toFixed0 x < 2 ^ 256 := by
  obtain ⟨n,rfl,fits⟩ := h
  rw [← Int.cast_natCast, BigNumber.toFixed0Int]
  exact ⟨Int.natCast_nonneg n,by exact_mod_cast fits⟩

theorem InUint256.fixedInj {x y : ℚ} (h : InUint256 x) (h' : InUint256 y) :
    BigNumber.toFixed0 x = BigNumber.toFixed0 y ↔ x = y := by
  obtain ⟨n,rfl,_⟩ := h
  obtain ⟨m,rfl,_⟩ := h'
  rw [← Int.cast_natCast, ← Int.cast_natCast m, BigNumber.toFixed0Int, BigNumber.toFixed0Int, Int.cast_inj]

theorem flagsOf {salt : Nat} (whole : order.salt = salt) :
    getOrderFlags order = .ok (BitVec.ofNat 256 (salt % 16 ^ 63 * 16 + booleanFlag order)) := by
  simp only [getOrderFlags, saltBytes, Checked.bindOk, Checked.requireOk, exists_const, Checked.pureOk, whole,
    Rat.den_natCast, Rat.num_natCast, Int.natCast_nonneg, true_or, true_and, Int.natAbs_natCast]
  exact ⟨_,rfl,rfl⟩

theorem encodes (h : InRange order) : ∃ s, orderToSolidity order = .ok s := by
  obtain ⟨salt,whole,_⟩ := h.salt
  simp only [orderToSolidity, flagsOf whole, uint256Fits h.amount.fixed.1 h.amount.fixed.2,
    uint256Fits h.expiration.fixed.1 h.expiration.fixed.2,
    uint256Fits order.limitPrice.toSolidityNonneg h.limitPriceFits,
    uint256Fits order.triggerPrice.toSolidityNonneg h.triggerPriceFits,
    uint256Fits order.limitFee.toSolidityNonneg h.limitFeeFits, Checked.okBind]
  exact ⟨_,rfl⟩

theorem booleanFlagSame : booleanFlag order = booleanFlag other ↔ order.isBuy = other.isBuy ∧
    order.isDecreaseOnly = other.isDecreaseOnly ∧ order.limitFee.isNegative = other.limitFee.isNegative := by
  unfold booleanFlag
  cases order.isBuy <;> cases other.isBuy <;> cases order.isDecreaseOnly <;> cases other.isDecreaseOnly <;>
    cases order.limitFee.isNegative <;> cases other.limitFee.isNegative <;> decide

theorem flagsSame {salt salt' : Nat} (whole : order.salt = salt) (whole' : other.salt = salt') :
    getOrderFlags order = getOrderFlags other ↔
      salt % 16 ^ 63 = salt' % 16 ^ 63 ∧ booleanFlag order = booleanFlag other := by
  have low := booleanFlagSmall order
  have low' := booleanFlagSmall other
  rw [flagsOf whole, flagsOf whole', Except.ok.injEq, ← BitVec.toNat_inj, BitVec.toNat_ofNat, BitVec.toNat_ofNat]
  omega

theorem at18Nonneg {x : BaseValue} (nonneg : 0 ≤ x.value) : x.at18 = x.toSolidity := by
  rw [BaseValue.at18, BaseValue.toSolidity, abs_of_nonneg nonneg]

theorem at18Same {x y : BaseValue} : x.at18 = y.at18 ∧ x.isNegative = y.isNegative ↔
    x.toSolidity = y.toSolidity ∧ x.isNegative = y.isNegative := by
  refine and_congr_left fun sign => ?_
  rw [BaseValue.at18Signed, BaseValue.at18Signed, sign]
  split
  · exact neg_inj
  · rfl

theorem saltsMeet {n m : Nat} : (∃ k : ℤ, (n : ℚ) - m = k * 2 ^ 252) ↔ n % 16 ^ 63 = m % 16 ^ 63 := by
  have power : (16 : ℕ) ^ 63 = 2 ^ 252 := by norm_num
  rw [power, ← Nat.ModEq, Nat.modEq_iff_dvd]
  constructor
  · rintro ⟨k,apart⟩
    have whole : (n : ℤ) - m = k * 2 ^ 252 := by exact_mod_cast apart
    refine ⟨-k,?_⟩
    push_cast
    linarith
  · rintro ⟨k,apart⟩
    refine ⟨-k,?_⟩
    have whole : (m : ℚ) - n = 2 ^ 252 * k := by exact_mod_cast apart
    push_cast
    linarith

theorem structsSame (h : InRange order) (h' : InRange other) (ok : orderToSolidity order = .ok s)
    (ok' : orderToSolidity other = .ok s') : s = s' ↔ Alike order other := by
  obtain ⟨salt,whole,_⟩ := h.salt
  obtain ⟨salt',whole',_⟩ := h'.salt
  have e := encoded.mp ok
  have e' := encoded.mp ok'
  have flags : s.flags = s'.flags ↔ salt % 16 ^ 63 = salt' % 16 ^ 63 ∧ booleanFlag order = booleanFlag other := by
    rw [← flagsSame whole whole', e.flags, e'.flags, Except.ok.injEq]
  have split : s = s' ↔ s.flags = s'.flags ∧ s.amount = s'.amount ∧ s.limitPrice = s'.limitPrice ∧
      s.triggerPrice = s'.triggerPrice ∧ s.limitFee = s'.limitFee ∧ s.maker = s'.maker ∧
      s.taker = s'.taker ∧ s.expiration = s'.expiration := by
    cases s
    cases s'
    rw [Order.mk.injEq]
  have word {x y : Uint256} {v w : ℤ} (hx : (x.toNat : ℤ) = v) (hy : (y.toNat : ℤ) = w) : x = y ↔ v = w := by
    rw [← hx, ← hy, Int.ofNat_inj, BitVec.toNat_inj]
  rw [split, flags, booleanFlagSame, word e.amount e'.amount, word e.limitPrice e'.limitPrice,
    word e.triggerPrice e'.triggerPrice, word e.limitFee e'.limitFee, word e.expiration e'.expiration,
    e.maker, e.taker, e'.maker, e'.taker, h.amount.fixedInj h'.amount, h.expiration.fixedInj h'.expiration,
    ← at18Nonneg h.limitPrice, ← at18Nonneg h'.limitPrice, ← at18Nonneg h.triggerPrice,
    ← at18Nonneg h'.triggerPrice, Alike, whole, whole', saltsMeet]
  simp only [identity, Identity.mk.injEq, and_true]
  constructor
  · rintro ⟨⟨salts,buy,decrease,sign⟩,amount,price,trigger,fee,maker,taker,expiration⟩
    have signed := at18Same.mpr ⟨fee,sign⟩
    exact ⟨⟨buy,decrease,amount,price,trigger,signed.1,sign,maker,taker,expiration⟩,salts⟩
  · rintro ⟨⟨buy,decrease,amount,price,trigger,signed,sign,maker,taker,expiration⟩,salts⟩
    have fee := at18Same.mp ⟨signed,sign⟩
    exact ⟨⟨salts,buy,decrease,sign⟩,amount,price,trigger,fee.1,maker,taker,expiration⟩

theorem alikeIff (differ : order.identity ≠ other.identity) : Alike order other ↔ Merged order other := by
  refine ⟨fun alike => ⟨fun salts => differ ?_,alike⟩,And.right⟩
  calc order.identity
      = { { order.identity with salt := 0 } with salt := order.salt } := rfl
    _ = { { other.identity with salt := 0 } with salt := other.salt } := by rw [alike.1, salts]
    _ = other.identity := rfl

theorem apartIff (h : InRange order) (h' : InRange other) : Apart order other ↔ ¬Alike order other := by
  obtain ⟨s,ok⟩ := encodes h
  obtain ⟨s',ok'⟩ := encodes h'
  rw [← structsSame h h' ok ok']
  constructor
  · rintro ⟨t,t',okT,okT',apart,_⟩
    obtain rfl := Except.ok.inj (ok.symm.trans okT)
    obtain rfl := Except.ok.inj (ok'.symm.trans okT')
    exact apart
  · intro apart
    refine ⟨s,s',ok,ok',apart,fun crypto domainHash injective same => apart ?_⟩
    rw [hashed crypto domainHash ok, hashed crypto domainHash ok'] at same
    exact injective (Set.mem_insert _ _) (Set.mem_insert_of_mem _ rfl) (Except.ok.inj same)

end

theorem differentApart (order other : SignedOrder) (h : InRange order) (h' : InRange other) :
    (order.identity ≠ other.identity → Apart order other) ↔ ¬Merged order other := by
  rw [apartIff h h']
  constructor
  · intro claimed merged
    have differ : order.identity ≠ other.identity := fun same => merged.1 (congrArg Identity.salt same)
    exact claimed differ merged.2
  · intro apart differ alike
    exact apart ((alikeIff differ).mp alike)

def sampleSalted (salt : Nat) : SignedOrder where
  isBuy := true
  isDecreaseOnly := false
  amount := 4
  limitPrice := .ofValue 5
  triggerPrice := .ofValue 0
  limitFee := .ofValue 0
  maker := 1
  taker := 0
  expiration := 100
  salt := salt
  typedSignature := ⟨0,0,0⟩

theorem sampleInRange {salt : Nat} (fits : salt < 2 ^ 256) : (sampleSalted salt).InRange where
  amount := ⟨4,rfl,by norm_num⟩
  expiration := ⟨100,rfl,by norm_num⟩
  salt := ⟨salt,rfl,fits⟩
  limitPrice := (by decide +kernel : 0 ≤ (BaseValue.ofValue 5).value)
  triggerPrice := (by decide +kernel : 0 ≤ (BaseValue.ofValue 0).value)
  limitPriceFits := (by decide +kernel : (BaseValue.ofValue 5).toSolidity < 2 ^ 256)
  triggerPriceFits := (by decide +kernel : (BaseValue.ofValue 0).toSolidity < 2 ^ 256)
  limitFeeFits := (by decide +kernel : (BaseValue.ofValue 0).toSolidity < 2 ^ 256)

theorem sampleDifferent : Apart (sampleSalted 425) (sampleSalted 426) := by
  refine (differentApart _ _ (sampleInRange (by norm_num)) (sampleInRange (by norm_num))).mpr ?_ (by decide +kernel)
  rintro ⟨_,_,k,apart⟩
  have apart : ((425 : ℕ) : ℚ) - (426 : ℕ) = k * 2 ^ 252 := apart
  have whole : ((425 : ℕ) : ℤ) - (426 : ℕ) = k * 2 ^ 252 := by exact_mod_cast apart
  omega

theorem firstDigitDropped : ¬ ∀ order other : SignedOrder, InRange order → InRange other →
    order.identity ≠ other.identity → Apart order other := by
  intro claimed
  obtain ⟨s,s',ok,ok',apart,_⟩ := claimed (sampleSalted 425) (sampleSalted (425 + 2 ^ 252))
    (sampleInRange (by norm_num)) (sampleInRange (by norm_num)) (by decide +kernel)
  have same : orderToSolidity (sampleSalted 425) = orderToSolidity (sampleSalted (425 + 2 ^ 252)) := by
    decide +kernel
  exact apart (Except.ok.inj (ok.symm.trans (same.trans ok')))

end SignedOrder
end Perpetual
