import Perpetual.FillLimits

/-! What a fill of P1InverseOrders costs. The margin is the amount over the price, times a
factor of one and the fee; the limits of a request are those of P1Orders. -/
namespace Perpetual
namespace P1InverseOrders
open Orders
open P1Orders (WithinLimits)

/-- The fee is taken off for a buyer and added for a seller, and a negative one the other way. -/
def feeFactor (isBuyOrder : Bool) (fee : Nat) (isNegativeFee : Bool) : Int :=
  10 ^ 18 + signed (isBuyOrder == isNegativeFee) fee

def fillFactor (isBuyOrder : Bool) (fill : Fill) : Int :=
  feeFactor isBuyOrder fill.fee.toNat fill.isNegativeFee

def limitFactor (order : Order) : Int :=
  feeFactor (isBuy order) order.limitFee.toNat (isNegativeLimitFee order)

structure Costs (isBuyOrder : Bool) (fill : Fill) (result : TradeResult) : Prop where
  priced : 0 < fill.price.toNat
  margin : (result.marginAmount.toNat : Int) =
    fill.amount.toNat * fillFactor isBuyOrder fill / fill.price.toNat
  position : result.positionAmount = fill.amount
  isBuy : result.isBuy = isBuyOrder

theorem costs {tradeData : TradeData} {result : TradeResult} (ok : tradeResult tradeData = .ok result) :
    Costs (Orders.isBuy tradeData.order) tradeData.fill result := by
  have base : BaseMath.base.toNat = 10 ^ 18 := BaseMath.baseNat
  have charged : ∀ {factor product marginAmount : Uint256},
      (factor.toNat : Int) = fillFactor (Orders.isBuy tradeData.order) tradeData.fill →
      SafeMath.mul tradeData.fill.amount factor = .ok product →
      SafeMath.div product tradeData.fill.price = .ok marginAmount →
      Costs (Orders.isBuy tradeData.order) tradeData.fill
        ⟨marginAmount,tradeData.fill.amount,Orders.isBuy tradeData.order,TRADER_FLAG_ORDERS⟩ := by
    intro factor product marginAmount factorInt productOk marginOk
    obtain ⟨priced,marginNat⟩ := SafeMath.divOk.mp marginOk
    refine ⟨priced,?_,rfl,rfl⟩
    rw [← factorInt, marginNat, SafeMath.mulOk.mp productOk]
    push_cast
    rfl
  simp only [tradeResult] at ok
  split at ok
  · rename_i same
    simp only [Checked.bindOk, Checked.pureOk] at ok
    obtain ⟨factor,factorOk,product,productOk,marginAmount,marginOk,rfl⟩ := ok
    have sum := SafeMath.addOk.mp factorOk
    refine charged ?_ productOk marginOk
    rw [fillFactor, feeFactor, same, Signed.positive]
    omega
  · rename_i different
    simp only [Checked.bindOk, Checked.pureOk] at ok
    obtain ⟨factor,factorOk,product,productOk,marginAmount,marginOk,rfl⟩ := ok
    have difference := SafeMath.subOk.mp factorOk
    refine charged ?_ productOk marginOk
    rw [fillFactor, feeFactor, Bool.eq_false_of_not_eq_true different, Signed.negative]
    omega

section
variable {order : Order} {fill : Fill}

theorem buyerFactor (within : WithinLimits order fill) (buy : isBuy order = true) :
    limitFactor order ≤ fillFactor (isBuy order) fill := by
  have fee := within.fee
  rw [limitFactor, fillFactor, feeFactor, feeFactor, buy]
  cases limit : isNegativeLimitFee order with
  | true =>
    rw [limit, if_pos rfl] at fee
    rw [fee.1]
    simp only [Bool.true_beq, Signed.positive]
    omega
  | false =>
    rw [limit, if_neg (by decide)] at fee
    cases negative : fill.isNegativeFee with
    | true =>
      simp only [Bool.true_beq, Signed.positive, Signed.negative]
      omega
    | false =>
      rw [negative] at fee
      have lower := fee.resolve_left (by decide)
      simp only [Bool.true_beq, Signed.negative]
      omega

theorem sellerFactor (within : WithinLimits order fill) (sell : isBuy order = false) :
    fillFactor (isBuy order) fill ≤ limitFactor order := by
  have fee := within.fee
  rw [limitFactor, fillFactor, feeFactor, feeFactor, sell]
  cases limit : isNegativeLimitFee order with
  | true =>
    rw [limit, if_pos rfl] at fee
    rw [fee.1]
    simp only [Bool.false_beq, Bool.not_true, Signed.negative]
    omega
  | false =>
    rw [limit, if_neg (by decide)] at fee
    cases negative : fill.isNegativeFee with
    | true =>
      simp only [Bool.false_beq, Bool.not_true, Bool.not_false, Signed.positive, Signed.negative]
      omega
    | false =>
      rw [negative] at fee
      have lower := fee.resolve_left (by decide)
      simp only [Bool.false_beq, Bool.not_false, Signed.positive]
      omega

end
end P1InverseOrders
end Perpetual
