import Perpetual.FillLimits
import Perpetual.Matching

/-! Whether the chain accepts what the matcher submits on price and fee. The maker and the
incoming order are both filled at the maker's price and fee. -/
namespace Perpetual

namespace BaseValue

theorem toSolidityMono {x y : BaseValue} (positive : 0 ≤ x.value) (le : x.value ≤ y.value) :
    x.toSolidity ≤ y.toSolidity := by
  rw [toSolidity, toSolidity, abs_of_nonneg positive, abs_of_nonneg (positive.trans le)]
  exact BigNumber.toFixed0Mono (by gcongr)

def signedSolidity (x : BaseValue) : ℤ := if x.isNegative then -x.toSolidity else x.toSolidity

end BaseValue

namespace SignedOrder

/-- As encoded, the price and the fee are within the limits of the order. A limit fee that is
negative, be it minus zero, asks for a negative fee. -/
structure Allows (order : SignedOrder) (price fee : BaseValue) : Prop where
  priced : if order.isBuy then price.toSolidity ≤ order.limitPrice.toSolidity
    else order.limitPrice.toSolidity ≤ price.toSolidity
  charged : fee.signedSolidity ≤ order.limitFee.signedSolidity
  sign : order.limitFee.isNegative = true → fee.isNegative = true

theorem allowsOwn (order : SignedOrder) : order.Allows order.limitPrice order.limitFee where
  priced := by split <;> exact le_rfl
  charged := le_rfl
  sign := id

theorem pricesKept {order resting : SignedOrder} (positive : 0 ≤ order.limitPrice.value)
    (positive' : 0 ≤ resting.limitPrice.value)
    (matched : if order.isBuy then resting.limitPrice.value ≤ order.limitPrice.value
      else order.limitPrice.value ≤ resting.limitPrice.value) :
    if order.isBuy then resting.limitPrice.toSolidity ≤ order.limitPrice.toSolidity
      else order.limitPrice.toSolidity ≤ resting.limitPrice.toSolidity := by
  split at matched <;> rename_i side <;> simp only [side, if_true, Bool.false_eq_true, if_false]
  · exact BaseValue.toSolidityMono positive' matched
  · exact BaseValue.toSolidityMono positive matched

theorem fillWithin {order : SignedOrder} {amount : ℚ} {price fee : BaseValue} {data : TradeData}
    (fill : FillEncoded order amount price fee data) :
    P1Orders.WithinLimits data.order data.fill ↔ order.Allows price fee := by
  have kept := encoded.mp fill.order
  have side := sideKept fill.order
  have sign := feeSideKept fill.order
  have prices : (if Orders.isBuy data.order then data.fill.price.toNat ≤ data.order.limitPrice.toNat
      else data.order.limitPrice.toNat ≤ data.fill.price.toNat) ↔
      if order.isBuy then price.toSolidity ≤ order.limitPrice.toSolidity
      else order.limitPrice.toSolidity ≤ price.toSolidity := by
    rw [side, ← fill.price, ← kept.limitPrice]
    split <;> exact Int.ofNat_le.symm
  have fees : (if Orders.isNegativeLimitFee data.order
      then data.fill.isNegativeFee = true ∧ data.order.limitFee.toNat ≤ data.fill.fee.toNat
      else data.fill.isNegativeFee = true ∨ data.fill.fee.toNat ≤ data.order.limitFee.toNat) ↔
      fee.signedSolidity ≤ order.limitFee.signedSolidity ∧
        (order.limitFee.isNegative = true → fee.isNegative = true) := by
    rw [sign, fill.isNegativeFee, BaseValue.signedSolidity, BaseValue.signedSolidity, ← fill.fee,
      ← kept.limitFee]
    cases order.limitFee.isNegative <;> cases fee.isNegative <;> simp
  constructor
  · rintro ⟨price,fee⟩
    exact ⟨prices.mp price,(fees.mp fee).1,(fees.mp fee).2⟩
  · rintro ⟨price,fee,sign⟩
    exact ⟨prices.mpr price,fees.mpr ⟨fee,sign⟩⟩

end SignedOrder

namespace OrderBook
open P1Orders
variable {env : Environment} {now : ℚ} {rows : List SignedOrderEntity} {signedOrder : SignedOrder}

theorem tradesWithin {fills : List (SRAOrder × ℚ)} {datas : List TradeData}
    (made : Trades env signedOrder fills datas) :
    (∀ data ∈ datas, WithinLimits data.order data.fill) ↔
      ∀ fill ∈ fills, signedOrder.Allows fill.1.order.limitPrice fill.1.order.limitFee := by
  induction made with
  | none => simp
  | more makerFill takerFill others ih =>
    rw [List.forall_mem_cons, List.forall_mem_cons, List.forall_mem_cons, ih,
      SignedOrder.fillWithin makerFill, SignedOrder.fillWithin takerFill]
    exact and_iff_right (SignedOrder.allowsOwn _)

theorem splitCons {α : Type} {x first : α} {rest : List α} {holds : List α → Prop} :
    (∃ before after, first::rest = before ++ x::after ∧ holds before) ↔
      (x = first ∧ holds []) ∨ ∃ before after, rest = before ++ x::after ∧ holds (first::before) := by
  constructor
  · rintro ⟨before,after,split,holds⟩
    cases before with
    | nil => exact .inl ⟨(List.cons.inj split).1.symm,holds⟩
    | cons y before =>
      obtain ⟨rfl,later⟩ := List.cons.inj split
      exact .inr ⟨before,after,later,holds⟩
  · rintro (⟨rfl,holds⟩ | ⟨before,after,rfl,holds⟩)
    · exact ⟨[],rest,rfl,holds⟩
    · exact ⟨first::before,after,rfl,holds⟩

theorem remainingBefore {before after : List SRAOrder} {o : SRAOrder}
    (open' : ∀ a ∈ before ++ o::after, 0 ≤ remainingOf a) : 0 ≤ (before.map remainingOf).sum := by
  refine List.sum_nonneg fun x mem => ?_
  obtain ⟨a,inside,rfl⟩ := List.mem_map.mp mem
  exact open' a (List.mem_append_left _ inside)

theorem matchLoopReaches {orders : List SRAOrder} {amount : ℚ}
    (open' : ∀ o ∈ orders, 0 ≤ remainingOf o) (o : SRAOrder) :
    o ∈ (matchLoop orders amount).2.map Prod.fst ↔
      ∃ before after, orders = before ++ o::after ∧ (before.map remainingOf).sum < amount := by
  induction orders generalizing amount with
  | nil => simp [matchLoop]
  | cons first rest ih =>
    by_cases done : amount ≤ 0
    · rw [matchLoopNone _ done]
      refine ⟨fun mem => (List.not_mem_nil mem).elim,?_⟩
      rintro ⟨before,after,split,less⟩
      rw [split] at open'
      have before' := remainingBefore open'
      linarith
    · have later := List.forall_mem_cons.mp open'
      rw [matchLoopCons done, List.map_cons, List.mem_cons, ih later.2, splitCons]
      refine or_congr ⟨fun same => ⟨same,not_le.mp done⟩,And.left⟩ ?_
      refine exists_congr fun before => exists_congr fun after => and_congr_right fun split => ?_
      rw [split] at later
      have before' := remainingBefore later.2
      rw [List.map_cons, List.sum_cons]
      rcases le_total amount (remainingOf first) with low | high
      · rw [min_eq_left low]
        constructor <;> intro less <;> linarith
      · rw [min_eq_right high]
        constructor <;> intro less <;> linarith

def Reached (env : Environment) (now : ℚ) (rows : List SignedOrderEntity) (signedOrder : SignedOrder)
    (o : SRAOrder) : Prop :=
  ∃ before after, apiOrders env now rows signedOrder = before ++ o::after ∧
    (before.map remainingOf).sum < signedOrder.amount

theorem fillsReached {plan : Plan} (ok : fulfillOrder env now rows signedOrder = .ok plan)
    (o : SRAOrder) : o ∈ plan.fills.map Prod.fst ↔ Reached env now rows signedOrder o := by
  rw [Reached, ← matchLoopReaches apiOrdersOpen, fulfillFills ok, matchOrders]

/-- The chain accepts on price and fee what the matcher submits exactly when it would accept, for
the incoming order, the price and the fee of each order that this is matched with. -/
theorem submittedWithinLimits {plan : Plan} (ok : fulfillOrder env now rows signedOrder = .ok plan) :
    (∀ arg ∈ plan.trades, WithinLimits arg.data.order arg.data.fill) ↔
      ∀ o, Reached env now rows signedOrder o → signedOrder.Allows o.order.limitPrice o.order.limitFee := by
  have within := tradesWithin (planned ok).trades
  rw [List.forall_mem_map] at within
  refine within.trans ?_
  simp only [← fillsReached ok, List.forall_mem_map]

theorem feeDecides (positive : 0 ≤ signedOrder.limitPrice.value) {o : SRAOrder}
    (reached : Reached env now rows signedOrder o) (positive' : 0 ≤ o.order.limitPrice.value) :
    signedOrder.Allows o.order.limitPrice o.order.limitFee ↔
      o.order.limitFee.signedSolidity ≤ signedOrder.limitFee.signedSolidity ∧
        (signedOrder.limitFee.isNegative = true → o.order.limitFee.isNegative = true) := by
  refine ⟨fun allows => ⟨allows.charged,allows.sign⟩,fun ⟨charged,sign⟩ => ⟨?_,charged,sign⟩⟩
  obtain ⟨before,after,listed,_⟩ := reached
  have inside : o ∈ apiOrders env now rows signedOrder := by
    rw [listed]
    exact List.mem_append_right _ List.mem_cons_self
  have matched := (List.mem_filter.mp ((apiOrdersPerm env now rows signedOrder).subset inside)).2
  refine SignedOrder.pricesKept positive positive' ?_
  split at matched <;> rename_i side <;> simp only [side, if_true, Bool.false_eq_true, if_false]
  · exact of_decide_eq_true matched
  · exact of_decide_eq_true matched

def sampleFeeMaker (limitFee : ℚ) : SignedOrderEntity := { sampleMaker 0 with limitFee := limitFee }

theorem sampleWithinLimits : ∃ plan, fulfillOrder .sample 0 [sampleFeeMaker (-1 / 200)]
    (sampleSigned true 4 100) = .ok plan ∧ plan.trades.length = 2 ∧
    ((∀ arg ∈ plan.trades, WithinLimits arg.data.order arg.data.fill) ↔
      ∀ o, Reached .sample 0 [sampleFeeMaker (-1 / 200)] (sampleSigned true 4 100) o →
        (sampleSigned true 4 100).Allows o.order.limitPrice o.order.limitFee) := by
  have trades : (do
      let plan ← fulfillOrder .sample 0 [sampleFeeMaker (-1 / 200)] (sampleSigned true 4 100)
      return plan.trades.length) = .ok 2 := by decide +kernel
  simp only [Checked.bindOk, Checked.pureOk] at trades
  obtain ⟨plan,ok,two⟩ := trades
  exact ⟨plan,ok,two,submittedWithinLimits ok⟩

theorem takerFeeRefused : ∃ plan, fulfillOrder .sample 0 [sampleFeeMaker (1 / 200)]
    (sampleSigned true 4 100) = .ok plan ∧
    ¬(∀ arg ∈ plan.trades, WithinLimits arg.data.order arg.data.fill) ∧
    plan.trades.map (fun arg => P1Orders.verifyOrderRequest arg.data arg.maker arg.taker
      (Storage.deployed 3) 50 (5 * BaseMath.BASE)) = [.ok (),.error "Fill fee is invalid"] := by
  have verified : (do
      let plan ← fulfillOrder .sample 0 [sampleFeeMaker (1 / 200)] (sampleSigned true 4 100)
      return (decide (∀ arg ∈ plan.trades, WithinLimits arg.data.order arg.data.fill),
        plan.trades.map fun (arg : TradeArg) => P1Orders.verifyOrderRequest arg.data arg.maker arg.taker
          (Storage.deployed 3) 50 (5 * BaseMath.BASE))) =
      .ok (false,[.ok (),.error "Fill fee is invalid"]) := by decide +kernel
  simp only [Checked.bindOk, Checked.pureOk, Prod.mk.injEq] at verified
  obtain ⟨plan,ok,outside,refused⟩ := verified
  exact ⟨plan,ok,of_decide_eq_false outside,refused⟩

end OrderBook
end Perpetual
