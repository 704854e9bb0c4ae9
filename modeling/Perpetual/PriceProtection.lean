import Mathlib.Algebra.Order.BigOperators.Group.List
import Mathlib.Data.Rat.Cast.Order
import Perpetual.FillLimits
import Perpetual.OrderRuns

/-! What all fills of one order cost its maker together, however the order is split up. -/
namespace Perpetual
namespace P1Orders
open Orders

/-- The fills of an order in a history of P1Orders, each with its result. The calls in between
are any others, by anyone. -/
inductive FillsOf (crypto : Crypto) (order : Order) (start : OrdersContract) :
    List (Fill × TradeResult) → OrdersContract → Prop where
  | none : FillsOf crypto order start [] start
  | fill {fills : List (Fill × TradeResult)} {s s' : OrdersContract}
      (before : FillsOf crypto order start fills s) (msg : Msg) (perpetual : Storage)
      (call : TraderCall) (tradeData : TradeData) (result : TradeResult)
      (decoded : decodeTradeData call.data = .ok tradeData) (same : tradeData.order = order)
      (ok : P1Orders.trade crypto msg perpetual call s = .ok (result,s')) :
      FillsOf crypto order start (fills ++ [(tradeData.fill,result)]) s'
  | other {fills : List (Fill × TradeResult)} {s s' : OrdersContract}
      (before : FillsOf crypto order start fills s) (call : OrderCall)
      (different : ∀ f, call ≠ .fill order f) (step : Step P1Orders.code crypto s call s') :
      FillsOf crypto order start fills s'

def amounts (fills : List (Fill × TradeResult)) : Nat := (fills.map fun f => f.1.amount.toNat).sum

def marginAmounts (fills : List (Fill × TradeResult)) : Nat :=
  (fills.map fun f => f.2.marginAmount.toNat).sum

theorem amountsSnoc (fills : List (Fill × TradeResult)) (fill : Fill) (result : TradeResult) :
    amounts (fills ++ [(fill,result)]) = amounts fills + fill.amount.toNat := by
  simp only [amounts, List.map_append, List.sum_append, List.map_cons, List.map_nil, List.sum_cons,
    List.sum_nil, Nat.add_zero]

def fillOf (order : Order) : OrderCall → Option Fill
  | .fill o f => if o = order then some f else none
  | _ => none

section
variable {crypto : Crypto} {order : Order} {start s s' : OrdersContract}
  {fills : List (Fill × TradeResult)}

theorem fillsOfHistory {calls : List OrderCall} (steps : Steps P1Orders.code crypto start calls s)
    (order : Order) : ∃ fills, FillsOf crypto order start fills s ∧
      fills.map Prod.fst = calls.filterMap (fillOf order) := by
  induction steps with
  | none => exact ⟨[],.none,rfl⟩
  | more before next ih =>
    obtain ⟨fills,found,same⟩ := ih
    rw [List.filterMap_append, ← same]
    cases next with
    | approve msg o ok =>
      exact ⟨fills,.other found _ (fun f same => by cases same) (.approve msg o ok),
        (List.append_nil _).symm⟩
    | cancel msg o ok =>
      exact ⟨fills,.other found _ (fun f same => by cases same) (.cancel msg o ok),
        (List.append_nil _).symm⟩
    | fill msg perpetual call tradeData result decoded ok =>
      by_cases here : tradeData.order = order
      · refine ⟨_,.fill found msg perpetual call tradeData result decoded here ok,?_⟩
        rw [List.map_append, List.filterMap_cons, fillOf, if_pos here]
        rfl
      · refine ⟨fills,.other found _ ?_ (.fill msg perpetual call tradeData result decoded ok),?_⟩
        · intro f same
          exact here (OrderCall.fill.inj same).1
        · rw [List.filterMap_cons, fillOf, if_neg here]
          exact (List.append_nil _).symm

theorem executed {msg : Msg} {perpetual : Storage} {call : TraderCall} {tradeData : TradeData}
    {result : TradeResult} (decoded : decodeTradeData call.data = .ok tradeData)
    (ok : P1Orders.trade crypto msg perpetual call s = .ok (result,s')) :
    WithinLimits tradeData.order tradeData.fill ∧
      Costs (isBuy tradeData.order) tradeData.fill result := by
  obtain ⟨valid,resultOk⟩ := tradeOk decoded ok
  exact ⟨withinLimits valid,costs resultOk⟩

structure Filling (order : Order) (fills : List (Fill × TradeResult)) : Prop where
  within : ∀ f ∈ fills, WithinLimits order f.1 ∧ Costs (isBuy order) f.1 f.2
  bounded : amounts fills ≤ order.amount.toNat

theorem filling (found : FillsOf crypto order start fills s) :
    Filling order fills ∧
      amounts fills ≤ (s.filledAmount (getOrderHash crypto start.eip712DomainHash order)).toNat ∧
      s.eip712DomainHash = start.eip712DomainHash := by
  induction found with
  | none => exact ⟨⟨fun f mem => (List.not_mem_nil mem).elim,Nat.zero_le _⟩,Nat.zero_le _,rfl⟩
  | fill before msg perpetual call tradeData result decoded same ok ih =>
    obtain ⟨earlier,recorded,domain⟩ := ih
    have committed : P1Orders.code.trade crypto msg perpetual call _ = .ok (result,_) := ok
    have done := filled decoded committed
    have last := executed decoded ok
    rw [same, domain] at done
    rw [same] at last
    have bounded := done.bounded
    have sum := done.filled
    rw [same] at bounded
    refine ⟨⟨fun f mem => ?_,?_⟩,?_,done.domain.trans domain⟩
    rcases List.mem_append.mp mem with old | new
    · exact earlier.within f old
    · rw [List.mem_singleton.mp new]
      exact last
    · rw [amountsSnoc]
      omega
    · rw [amountsSnoc]
      omega
  | other before call different step ih =>
    obtain ⟨earlier,recorded,domain⟩ := ih
    have grown := stepFilled step (getOrderHash crypto start.eip712DomainHash order)
    exact ⟨earlier,by omega,(stepDomain step).trans domain⟩

theorem buyTotal (within : ∀ f ∈ fills, WithinLimits order f.1 ∧ Costs (isBuy order) f.1 f.2)
    (buy : isBuy order = true)
    (share : isNegativeLimitFee order = true → order.limitFee.toNat ≤ 10 ^ 18) :
    10 ^ 18 * (marginAmounts fills : Int) ≤ amounts fills * worstPrice order := by
  induction fills with
  | nil => simp [marginAmounts, amounts]
  | cons f rest ih =>
    rw [List.forall_mem_cons] at within
    obtain ⟨⟨limits,cost⟩,others⟩ := within
    have later := ih others
    have floor := Int.ediv_mul_le (f.1.amount.toNat * fillMargin (isBuy order) f.1)
      (show (10 ^ 18 : Int) ≠ 0 by decide)
    rw [← cost.margin] at floor
    have price := Int.mul_le_mul_of_nonneg_left (buyerPays limits buy share)
      (Int.natCast_nonneg f.1.amount.toNat)
    simp only [marginAmounts, amounts, List.map_cons, List.sum_cons, Nat.cast_add, Int.add_mul,
      Int.mul_add] at later ⊢
    omega

theorem sellTotal (within : ∀ f ∈ fills, WithinLimits order f.1 ∧ Costs (isBuy order) f.1 f.2)
    (sell : isBuy order = false) (some' : fills ≠ []) :
    amounts fills * worstPrice order < 10 ^ 18 * ((marginAmounts fills : Int) + fills.length) := by
  have each : ∀ f ∈ fills, f.1.amount.toNat * worstPrice order <
      10 ^ 18 * ((f.2.marginAmount.toNat : Int) + 1) := by
    intro f mem
    obtain ⟨limits,cost⟩ := within f mem
    have floor := Int.lt_ediv_add_one_mul_self (f.1.amount.toNat * fillMargin (isBuy order) f.1)
      (show (0 : Int) < 10 ^ 18 by decide)
    rw [← cost.margin] at floor
    have price := Int.mul_le_mul_of_nonneg_left (sellerGets limits sell cost.credit)
      (Int.natCast_nonneg f.1.amount.toNat)
    omega
  clear within
  induction fills with
  | nil => exact absurd rfl some'
  | cons f rest ih =>
    rw [List.forall_mem_cons] at each
    simp only [marginAmounts, amounts, List.map_cons, List.sum_cons, Nat.cast_add, Int.add_mul,
      List.length_cons, Nat.cast_one]
    by_cases last : rest = []
    · subst last
      simp only [List.map_nil, List.sum_nil, List.length_nil, Nat.cast_zero]
      omega
    · have later := ih last each.2
      simp only [marginAmounts, amounts] at later
      omega

end

/-- However an order is filled, a buyer pays at most the rounded worst price for what was filled,
so never more than for the whole order, and a seller gets at least the worst price less one unit
for each fill. -/
theorem makerPriceProtected {crypto : Crypto} {order : Order} {start s : OrdersContract}
    {fills : List (Fill × TradeResult)} (found : FillsOf crypto order start fills s)
    (some' : fills ≠ []) :
    (isBuy order = true → (isNegativeLimitFee order = true → order.limitFee.toNat ≤ 10 ^ 18) →
      (marginAmounts fills : Int) ≤ amounts fills * worstPrice order / 10 ^ 18 ∧
      (marginAmounts fills : Int) ≤ order.amount.toNat * worstPrice order / 10 ^ 18) ∧
    (isBuy order = false →
      (amounts fills * worstPrice order / 10 ^ 18 - fills.length : ℚ) < marginAmounts fills) := by
  obtain ⟨⟨within,bounded⟩,_⟩ := filling found
  refine ⟨fun buy share => ?_,fun sell => ?_⟩
  · have total := buyTotal within buy share
    have paid : (marginAmounts fills : Int) ≤ amounts fills * worstPrice order / 10 ^ 18 := by
      rw [Int.le_ediv_iff_mul_le (by decide)]
      omega
    refine ⟨paid,paid.trans (Int.ediv_le_ediv (by decide) ?_)⟩
    have positive : 0 ≤ worstPrice order := by
      obtain ⟨f,mem⟩ := List.exists_mem_of_ne_nil fills some'
      exact (within f mem).2.credit.trans (buyerPays (within f mem).1 buy share)
    exact Int.mul_le_mul_of_nonneg_right (by exact_mod_cast bounded) positive
  · have total : (amounts fills * worstPrice order : ℚ) < 10 ^ 18 * (marginAmounts fills + fills.length) := by
      exact_mod_cast sellTotal within sell some'
    rw [sub_lt_iff_lt_add, div_lt_iff₀ (by norm_num)]
    linarith

def sampleBuy : Order := ⟨1,10,5 * BaseMath.BASE,0,10000000000000000,1,0,0⟩

def sampleBuyData (amount price : Uint256) : TradeData :=
  ⟨sampleBuy,⟨amount,price * BaseMath.BASE,10000000000000000,false⟩,⟨1,0,0⟩⟩

def sampleBuyCall (amount price : Uint256) : TraderCall :=
  ⟨2,1,2,BaseMath.BASE,encodeTradeData (sampleBuyData amount price),0⟩

def sampleBought : Checked (TradeResult × TradeResult) := do
  let (first,s) ← P1Orders.trade .sample ⟨7,100⟩ sampleDeployment.perpetual (sampleBuyCall 4 5)
    sampleDeployment.ext.contract
  let (second,_) ← P1Orders.trade .sample ⟨7,100⟩ sampleDeployment.perpetual (sampleBuyCall 3 4) s
  return (first,second)

theorem sampleMakerProtected : ∃ fills : List (Fill × TradeResult),
    fills.map (fun f => (f.1.amount,f.2.marginAmount)) = [(4,20),(3,12)] ∧
    (marginAmounts fills : Int) ≤ amounts fills * worstPrice sampleBuy / 10 ^ 18 := by
  have bought : sampleBought = .ok (⟨20,4,false,TRADER_FLAG_ORDERS⟩,⟨12,3,false,TRADER_FLAG_ORDERS⟩) := by
    decide +kernel
  simp only [sampleBought, Checked.bindOk, Prod.exists, Checked.pureOk, Prod.mk.injEq] at bought
  obtain ⟨first,s,firstOk,second,s',secondOk,rfl,rfl⟩ := bought
  have decoded : ∀ amount price, (amount = 4 ∧ price = 5) ∨ (amount = 3 ∧ price = 4) →
      decodeTradeData (sampleBuyCall amount price).data = .ok (sampleBuyData amount price) := by
    rintro _ _ (⟨rfl,rfl⟩ | ⟨rfl,rfl⟩) <;> decide +kernel
  have once := FillsOf.fill .none _ _ (sampleBuyCall 4 5) _ _ (decoded 4 5 (.inl ⟨rfl,rfl⟩)) rfl firstOk
  have twice := once.fill _ _ (sampleBuyCall 3 4) _ _ (decoded 3 4 (.inr ⟨rfl,rfl⟩)) rfl secondOk
  exact ⟨_,rfl,((makerPriceProtected twice (List.cons_ne_nil _ _)).1 (by decide +kernel)
    (by decide +kernel)).1⟩

end P1Orders
end Perpetual
