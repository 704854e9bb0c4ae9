import Perpetual.OrderHistory

/-! The limits that P1Orders checks a fill against, and what the fill costs. A fill at the
limits of its order is the worst that its maker can get. -/
namespace Perpetual
namespace P1Orders
open Orders

structure WithinLimits (order : Order) (fill : Fill) : Prop where
  price : if isBuy order then fill.price.toNat ≤ order.limitPrice.toNat
    else order.limitPrice.toNat ≤ fill.price.toNat
  fee : if isNegativeLimitFee order
    then fill.isNegativeFee = true ∧ order.limitFee.toNat ≤ fill.fee.toNat
    else fill.isNegativeFee = true ∨ fill.fee.toNat ≤ order.limitFee.toNat

instance (order : Order) (fill : Fill) : Decidable (WithinLimits order fill) :=
  decidable_of_iff (_ ∧ _) ⟨fun h => ⟨h.1,h.2⟩,fun h => ⟨h.1,h.2⟩⟩

/-- The fee is added for a buyer and taken off for a seller, and a negative one the other way. -/
def marginPerPosition (isBuyOrder : Bool) (price fee : Nat) (isNegativeFee : Bool) : Int :=
  price + signed (isBuyOrder != isNegativeFee) (fee * price / 10 ^ 18)

def fillMargin (isBuyOrder : Bool) (fill : Fill) : Int :=
  marginPerPosition isBuyOrder fill.price.toNat fill.fee.toNat fill.isNegativeFee

def worstPrice (order : Order) : Int :=
  marginPerPosition (isBuy order) order.limitPrice.toNat order.limitFee.toNat (isNegativeLimitFee order)

theorem requestWithinLimits {oraclePrice : Uint256 → Checked Uint256} {decreases : Bool → Bool → Bool}
    {tradeData : TradeData} {maker taker : Address} {perpetual : Storage} {timestamp price : Uint256} {u : Unit}
    (ok : Orders.verifyOrderRequest oraclePrice decreases tradeData maker taker perpetual timestamp price = .ok u) :
    WithinLimits tradeData.order tradeData.fill := by
  simp only [Orders.verifyOrderRequest, Checked.bindOk, Checked.requireOk, exists_const] at ok
  obtain ⟨_,_,_,validPrice,validFee,_⟩ := ok
  refine ⟨?_,?_⟩
  · split at validPrice <;> rename_i side <;> simp only [side, if_true, Bool.false_eq_true, if_false] <;>
      exact of_decide_eq_true validPrice
  · split at validFee <;> rename_i sign <;> simp only [sign, if_true, Bool.false_eq_true, if_false]
    · simpa only [Bool.and_eq_true, decide_eq_true_eq] using validFee
    · simpa only [Bool.or_eq_true, decide_eq_true_eq] using validFee

theorem withinLimits {tradeData : TradeData} {maker taker : Address} {perpetual : Storage}
    {timestamp price : Uint256} {u : Unit}
    (ok : verifyOrderRequest tradeData maker taker perpetual timestamp price = .ok u) :
    WithinLimits tradeData.order tradeData.fill := requestWithinLimits ok

structure Costs (isBuyOrder : Bool) (fill : Fill) (result : TradeResult) : Prop where
  credit : 0 ≤ fillMargin isBuyOrder fill
  margin : (result.marginAmount.toNat : Int) = fill.amount.toNat * fillMargin isBuyOrder fill / 10 ^ 18
  position : result.positionAmount = fill.amount
  isBuy : result.isBuy = !isBuyOrder

theorem costs {tradeData : TradeData} {result : TradeResult} (ok : tradeResult tradeData = .ok result) :
    Costs (Orders.isBuy tradeData.order) tradeData.fill result := by
  have charged : ∀ {perPosition marginAmount : Uint256},
      (perPosition.toNat : Int) = fillMargin (Orders.isBuy tradeData.order) tradeData.fill →
      BaseMath.baseMul tradeData.fill.amount perPosition = .ok marginAmount →
      Costs (Orders.isBuy tradeData.order) tradeData.fill
        ⟨marginAmount,tradeData.fill.amount,!Orders.isBuy tradeData.order,TRADER_FLAG_ORDERS⟩ := by
    intro perPosition marginAmount perInt marginOk
    have marginNat := BaseMath.baseMulNat marginOk
    refine ⟨?_,?_,rfl,rfl⟩
    · rw [← perInt]
      exact Int.natCast_nonneg _
    · rw [← perInt]
      exact_mod_cast marginNat
  simp only [tradeResult, Checked.bindOk] at ok
  obtain ⟨fee,feeOk,ok⟩ := ok
  have feeNat := BaseMath.baseMulNat feeOk
  split at ok
  · rename_i same
    simp only [Checked.bindOk, Checked.pureOk] at ok
    obtain ⟨perPosition,perOk,marginAmount,marginOk,rfl⟩ := ok
    have difference := SafeMath.subOk.mp perOk
    have sign : (Orders.isBuy tradeData.order != tradeData.fill.isNegativeFee) = false := by
      simpa only [bne, Bool.not_eq_false'] using same
    refine charged ?_ marginOk
    rw [fillMargin, marginPerPosition, ← feeNat, sign, Signed.negative]
    omega
  · rename_i different
    simp only [Checked.bindOk, Checked.pureOk] at ok
    obtain ⟨perPosition,perOk,marginAmount,marginOk,rfl⟩ := ok
    have sum := SafeMath.addOk.mp perOk
    have sign : (Orders.isBuy tradeData.order != tradeData.fill.isNegativeFee) = true := by
      simpa only [bne, Bool.not_eq_true', Bool.not_eq_true] using different
    refine charged ?_ marginOk
    rw [fillMargin, marginPerPosition, ← feeNat, sign, Signed.positive]
    omega

/-! A better price, and a lower fee, never cost more. -/

theorem feeMono {fee fee' price price' : Nat} (lowerFee : fee ≤ fee') (lowerPrice : price ≤ price') :
    fee * price / 10 ^ 18 ≤ fee' * price' / 10 ^ 18 :=
  Nat.div_le_div_right (Nat.mul_le_mul lowerFee lowerPrice)

theorem priceAfterFee {fee price price' : Nat} (share : fee ≤ 10 ^ 18) (lower : price ≤ price') :
    price + fee * price' / 10 ^ 18 ≤ price' + fee * price / 10 ^ 18 := by
  have product : fee * price' ≤ fee * price + (price' - price) * 10 ^ 18 := by
    have rest : fee * price' = fee * price + fee * (price' - price) := by
      rw [← Nat.mul_add, Nat.add_sub_cancel' lower]
    rw [rest, Nat.mul_comm (price' - price)]
    exact Nat.add_le_add_left (Nat.mul_le_mul_right _ share) _
  have quotient := Nat.div_le_div_right (c := 10 ^ 18) product
  rw [Nat.add_mul_div_right _ _ (by decide)] at quotient
  omega

theorem feeOverPrice {fee : Nat} (share : 10 ^ 18 < fee) (price : Nat) :
    price ≤ fee * price / 10 ^ 18 := by
  rw [Nat.le_div_iff_mul_le (by decide), Nat.mul_comm]
  exact Nat.mul_le_mul_right _ share.le

section
variable {order : Order} {fill : Fill}

theorem buyerPays (within : WithinLimits order fill) (buy : isBuy order = true)
    (share : isNegativeLimitFee order = true → order.limitFee.toNat ≤ 10 ^ 18) :
    fillMargin (isBuy order) fill ≤ worstPrice order := by
  obtain ⟨price,fee⟩ := within
  rw [buy, if_pos rfl] at price
  rw [fillMargin, worstPrice, marginPerPosition, marginPerPosition, buy]
  cases limit : isNegativeLimitFee order with
  | true =>
    rw [limit, if_pos rfl] at fee
    rw [fee.1]
    have atLimit := priceAfterFee (share limit) price
    have more := feeMono fee.2 (le_refl fill.price.toNat)
    simp only [bne_self_eq_false, Signed.negative]
    omega
  | false =>
    rw [limit, if_neg (by decide)] at fee
    cases negative : fill.isNegativeFee with
    | true =>
      simp only [bne_self_eq_false, Signed.negative, Bool.bne_false, Signed.positive]
      omega
    | false =>
      rw [negative] at fee
      have less := feeMono (fee.resolve_left (by decide)) price
      simp only [Bool.bne_false, Signed.positive]
      omega

theorem sellerGets (within : WithinLimits order fill) (sell : isBuy order = false)
    (credit : 0 ≤ fillMargin (isBuy order) fill) :
    worstPrice order ≤ fillMargin (isBuy order) fill := by
  obtain ⟨price,fee⟩ := within
  rw [sell, if_neg (by decide)] at price
  rw [fillMargin, marginPerPosition, sell] at credit
  rw [fillMargin, worstPrice, marginPerPosition, marginPerPosition, sell]
  cases limit : isNegativeLimitFee order with
  | true =>
    rw [limit, if_pos rfl] at fee
    rw [fee.1]
    have less := feeMono fee.2 price
    simp only [Bool.false_bne, Signed.positive]
    omega
  | false =>
    rw [limit, if_neg (by decide)] at fee
    cases negative : fill.isNegativeFee with
    | true =>
      simp only [bne_self_eq_false, Signed.negative, Bool.false_bne, Signed.positive]
      omega
    | false =>
      rw [negative] at fee credit
      have lower := fee.resolve_left (by decide)
      simp only [bne_self_eq_false, Signed.negative] at credit ⊢
      rcases Nat.lt_or_ge (10 ^ 18) order.limitFee.toNat with beyond | share
      · have whole := feeOverPrice beyond order.limitPrice.toNat
        omega
      · have atLimit := priceAfterFee share price
        have less := feeMono lower (le_refl fill.price.toNat)
        omega

end
end P1Orders
end Perpetual
