import Perpetual.DecreaseOnly

/-! What the fills of one order of P1InverseOrders bring its maker together. Its base is the
margin, so a buyer gives up position and receives margin. -/
namespace Perpetual
namespace P1InverseOrders
open Orders
open P1Orders (WithinLimits requestWithinLimits)

structure Execution where
  fill : Fill
  result : TradeResult
  before : Balance
  after : Balance

/-- The trades of committed calls of PerpetualV1 by which an order was filled, with any taker but
the maker. The states of the contracts and the rest of each batch are free. -/
inductive Executed (ρ : Type) (crypto : Crypto) (this ordersAddress inverseAddress : Address)
    (order : Order) : Execution → Prop where
  | fill {x : Externals (TradersHost ρ)} {msg : Msg} {accounts : List Address} {done rest : List TradeArg}
      {tradeArg : TradeArg} {w w' mid : World (TradersHost ρ)} {context : Context}
      {s s' : Trade.Batch (TradersHost ρ)} {tradeData : TradeData} {maker taker : Address}
      {result : TradeResult}
      (environment : TradersEnvironment crypto this ordersAddress inverseAddress x msg)
      (committed : exec x msg (.trade accounts (done ++ tradeArg::rest)) w = .ok w')
      (passed : Trade.Pass x msg accounts w done tradeArg context s s')
      (trader : tradeArg.trader = inverseAddress)
      (decoded : decodeTradeData tradeArg.data = .ok tradeData) (same : tradeData.order = order)
      (atMaker : accounts[tradeArg.makerIndex.toNat]? = some maker)
      (atTaker : accounts[tradeArg.takerIndex.toNat]? = some taker) (different : maker ≠ taker)
      (called : x.trade tradeArg.trader
        ⟨msg.sender,maker,taker,context.price,tradeArg.data,s.traderFlags⟩ s.world = .ok (result,mid)) :
      Executed ρ crypto this ordersAddress inverseAddress order
        ⟨tradeData.fill,result,s.world.perpetual.balances maker,s'.world.perpetual.balances maker⟩

section
variable {ρ : Type} {crypto : Crypto} {this ordersAddress inverseAddress : Address} {order : Order}

theorem executed {msg : Msg} {perpetual : Storage} {call : TraderCall} {s s' : OrdersContract}
    {tradeData : TradeData} {result : TradeResult} (decoded : decodeTradeData call.data = .ok tradeData)
    (ok : P1InverseOrders.trade crypto msg perpetual call s = .ok (result,s')) :
    WithinLimits tradeData.order tradeData.fill ∧ Costs (isBuy tradeData.order) tradeData.fill result := by
  obtain ⟨valid,resultOk⟩ := tradeOk decoded ok
  exact ⟨requestWithinLimits valid,costs resultOk⟩

theorem ofCall {x : Externals (TradersHost ρ)} {msg : Msg} {accounts : List Address}
    {done rest : List TradeArg} {tradeArg : TradeArg} {w w' : World (TradersHost ρ)} {tradeData : TradeData}
    {maker taker : Address}
    (environment : TradersEnvironment crypto this ordersAddress inverseAddress x msg)
    (committed : exec x msg (.trade accounts (done ++ tradeArg::rest)) w = .ok w')
    (trader : tradeArg.trader = inverseAddress) (decoded : decodeTradeData tradeArg.data = .ok tradeData)
    (atMaker : accounts[tradeArg.makerIndex.toNat]? = some maker)
    (atTaker : accounts[tradeArg.takerIndex.toNat]? = some taker) (different : maker ≠ taker) :
    ∃ e : Execution, e.fill = tradeData.fill ∧
      Executed ρ crypto this ordersAddress inverseAddress tradeData.order e := by
  obtain ⟨context,s,s',passed,inStep⟩ := Trade.callPass environment.traders committed
  obtain ⟨result,mid,called,_⟩ :=
    (Trade.exchanged environment.traders inStep atMaker atTaker different passed.pass).called
  exact ⟨_,rfl,.fill environment committed passed trader decoded rfl atMaker atTaker different called⟩

structure Within (order : Order) (e : Execution) : Prop where
  limits : WithinLimits order e.fill
  costs : Costs (isBuy order) e.fill e.result
  position : e.after.positionInt = e.before.positionInt - signed (isBuy order) e.fill.amount.toNat
  margin : e.after.marginInt = e.before.marginInt + signed (isBuy order) e.result.marginAmount.toNat

theorem Executed.within {e : Execution}
    (h : Executed ρ crypto this ordersAddress inverseAddress order e) : Within order e := by
  cases h with
  | @fill x msg accounts done rest tradeArg w w' mid context s s' tradeData maker taker result environment
      committed passed trader decoded same atMaker atTaker different called =>
    obtain ⟨context',t,t',passed',inStep⟩ := Trade.callPass environment.traders committed
    obtain ⟨rfl,rfl,rfl⟩ := passed.unique passed'
    obtain ⟨result',mid',again,applied⟩ :=
      (Trade.exchanged environment.traders inStep atMaker atTaker different passed.pass).called
    obtain ⟨rfl,rfl⟩ := Prod.mk.inj (Except.ok.inj (called.symm.trans again))
    rw [trader, environment.inverseOrders] at called
    simp only [callInverseOrders, Checked.bindOk, Prod.exists, Checked.pureOk, Prod.mk.injEq] at called
    obtain ⟨_,_,filled,rfl,_⟩ := called
    obtain ⟨limits,cost⟩ := executed decoded filled
    rw [same] at limits cost
    have position := applied.makerPosition
    have margin := applied.makerMargin
    rw [cost.isBuy, cost.position] at position
    rw [cost.isBuy] at margin
    exact ⟨limits,cost,position,margin⟩

theorem Within.buyer {e : Execution} (h : Within order e) (buy : isBuy order = true) :
    e.fill.amount.toNat * limitFactor order < (e.result.marginAmount.toNat + 1) * order.limitPrice.toNat := by
  have factor := buyerFactor h.limits buy
  have price := h.limits.price
  rw [if_pos buy] at price
  have priced : (0 : Int) < e.fill.price.toNat := by exact_mod_cast h.costs.priced
  have floor := Int.lt_ediv_add_one_mul_self (e.fill.amount.toNat * fillFactor (isBuy order) e.fill) priced
  rw [← h.costs.margin] at floor
  calc (e.fill.amount.toNat * limitFactor order : Int)
      ≤ e.fill.amount.toNat * fillFactor (isBuy order) e.fill :=
        Int.mul_le_mul_of_nonneg_left factor (Int.natCast_nonneg _)
    _ < (e.result.marginAmount.toNat + 1) * e.fill.price.toNat := floor
    _ ≤ (e.result.marginAmount.toNat + 1) * order.limitPrice.toNat :=
        Int.mul_le_mul_of_nonneg_left (by exact_mod_cast price) (by omega)

theorem Within.seller {e : Execution} (h : Within order e) (sell : isBuy order = false) :
    (e.result.marginAmount.toNat * order.limitPrice.toNat : Int) ≤
      e.fill.amount.toNat * limitFactor order := by
  have factor := sellerFactor h.limits sell
  have price := h.limits.price
  rw [if_neg (by rw [sell]; decide)] at price
  have priced : (e.fill.price.toNat : Int) ≠ 0 := by exact_mod_cast h.costs.priced.ne'
  have floor := Int.ediv_mul_le (e.fill.amount.toNat * fillFactor (isBuy order) e.fill) priced
  rw [← h.costs.margin] at floor
  calc (e.result.marginAmount.toNat * order.limitPrice.toNat : Int)
      ≤ e.result.marginAmount.toNat * e.fill.price.toNat :=
        Int.mul_le_mul_of_nonneg_left (by exact_mod_cast price) (Int.natCast_nonneg _)
    _ ≤ e.fill.amount.toNat * fillFactor (isBuy order) e.fill := floor
    _ ≤ e.fill.amount.toNat * limitFactor order :=
        Int.mul_le_mul_of_nonneg_left factor (Int.natCast_nonneg _)

end

/-! The sums over a sequence of fills. -/

def amounts (executions : List Execution) : Int := (executions.map fun e => (e.fill.amount.toNat : Int)).sum

def marginAmounts (executions : List Execution) : Int :=
  (executions.map fun e => (e.result.marginAmount.toNat : Int)).sum

def positionChange (executions : List Execution) : Int :=
  (executions.map fun e => e.after.positionInt - e.before.positionInt).sum

def marginChange (executions : List Execution) : Int :=
  (executions.map fun e => e.after.marginInt - e.before.marginInt).sum

section
variable {order : Order} {executions : List Execution}

theorem changes (within : ∀ e ∈ executions, Within order e) :
    positionChange executions = (if isBuy order then -1 else 1) * amounts executions ∧
      marginChange executions = (if isBuy order then 1 else -1) * marginAmounts executions := by
  induction executions with
  | nil => simp [positionChange, marginChange, amounts, marginAmounts]
  | cons e rest ih =>
    obtain ⟨first,others⟩ := List.forall_mem_cons.mp within
    obtain ⟨position,margin⟩ := ih others
    have here := first.position
    have there := first.margin
    simp only [positionChange, marginChange, amounts, marginAmounts, List.map_cons, List.sum_cons]
      at position margin ⊢
    rw [position, margin, here, there]
    cases isBuy order <;> simp only [Signed.positive, Signed.negative, Bool.false_eq_true, if_true, if_false] <;>
      omega

theorem buyTotal (within : ∀ e ∈ executions, Within order e) (buy : isBuy order = true) :
    amounts executions * limitFactor order + executions.length ≤
      (marginAmounts executions + executions.length) * order.limitPrice.toNat := by
  induction executions with
  | nil => simp [amounts, marginAmounts]
  | cons e rest ih =>
    obtain ⟨first,others⟩ := List.forall_mem_cons.mp within
    have later := ih others
    have now := first.buyer buy
    simp only [amounts, marginAmounts, List.map_cons, List.sum_cons, List.length_cons, Nat.cast_add,
      Nat.cast_one, Int.add_mul] at later now ⊢
    omega

theorem sellTotal (within : ∀ e ∈ executions, Within order e) (sell : isBuy order = false) :
    marginAmounts executions * order.limitPrice.toNat ≤ amounts executions * limitFactor order := by
  induction executions with
  | nil => simp [amounts, marginAmounts]
  | cons e rest ih =>
    obtain ⟨first,others⟩ := List.forall_mem_cons.mp within
    have later := ih others
    have now := first.seller sell
    simp only [amounts, marginAmounts, List.map_cons, List.sum_cons, Int.add_mul] at later ⊢
    omega

end

/-- However an order is filled, a buyer gives up what was filled and receives more than the limits
allow less one unit for each fill, and a seller receives what was filled and pays no more than the
limits allow. -/
theorem inverseMakerProtected {ρ : Type} {crypto : Crypto} {this ordersAddress inverseAddress : Address}
    {order : Order} {executions : List Execution}
    (fills : ∀ e ∈ executions, Executed ρ crypto this ordersAddress inverseAddress order e) :
    (isBuy order = true →
      positionChange executions = -amounts executions ∧ marginChange executions = marginAmounts executions ∧
      (1 ≤ executions.length → amounts executions * limitFactor order <
        (marginAmounts executions + executions.length) * order.limitPrice.toNat)) ∧
    (isBuy order = false →
      positionChange executions = amounts executions ∧ marginChange executions = -marginAmounts executions ∧
      marginAmounts executions * order.limitPrice.toNat ≤ amounts executions * limitFactor order) := by
  have within : ∀ e ∈ executions, Within order e := fun e mem => (fills e mem).within
  obtain ⟨position,margin⟩ := changes within
  refine ⟨fun buy => ?_,fun sell => ?_⟩
  · rw [buy, if_pos rfl] at position margin
    have total := buyTotal within buy
    exact ⟨by omega,by omega,fun some' => by omega⟩
  · rw [sell, if_neg Bool.false_ne_true] at position margin
    exact ⟨by omega,by omega,sellTotal within sell⟩

theorem sampleInverseProtected : ∃ executions : List Execution,
    executions.map (fun e => e.fill.amount) = [3,1] ∧
    positionChange executions = -amounts executions ∧ marginChange executions = marginAmounts executions ∧
    amounts executions * limitFactor (sampleDecrease true) <
      (marginAmounts executions + executions.length) * (sampleDecrease true).limitPrice.toNat := by
  have environment := tradersSampleEnvironment ⟨2,100⟩
  let three := sampleDecreaseArg true 3
  let one := sampleDecreaseArg true 1
  have succeeds : (exec (tradersSample 100) ⟨2,100⟩ (.trade [1,2] [three,one]) tradersDeployment).isOk = true := by
    decide +kernel
  obtain ⟨w',ok⟩ := Checked.okExists succeeds
  have decodedThree : decodeTradeData three.data = .ok (sampleDecreaseData true 3) := by decide +kernel
  have decodedOne : decodeTradeData one.data = .ok (sampleDecreaseData true 1) := by decide +kernel
  have atMaker : ([1,2] : List Address)[0]? = some 1 := rfl
  have atTaker : ([1,2] : List Address)[1]? = some 2 := rfl
  have committed : exec (tradersSample 100) ⟨2,100⟩ (.trade [1,2] ([] ++ three::[one])) tradersDeployment =
      .ok w' := ok
  obtain ⟨first,firstFill,firstOk⟩ := ofCall environment committed rfl decodedThree atMaker atTaker (by decide)
  have committed : exec (tradersSample 100) ⟨2,100⟩ (.trade [1,2] ([three] ++ one::[])) tradersDeployment =
      .ok w' := ok
  obtain ⟨second,secondFill,secondOk⟩ := ofCall environment committed rfl decodedOne atMaker atTaker (by decide)
  have fills : ∀ e ∈ [first,second], Executed Unit Crypto.sample 7 9 10 (sampleDecrease true) e := by
    simp only [List.forall_mem_cons]
    exact ⟨firstOk,secondOk,fun _ no => by (cases no)⟩
  obtain ⟨position,margin,price⟩ := (inverseMakerProtected fills).1 (by decide +kernel)
  exact ⟨[first,second],by rw [List.map_cons, List.map_cons, firstFill, secondFill]; rfl,position,margin,
    price (Nat.succ_pos _)⟩

end P1InverseOrders
end Perpetual
