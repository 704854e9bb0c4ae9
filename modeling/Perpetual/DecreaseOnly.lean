import Perpetual.InverseLimits
import Perpetual.OrderRuns
import Perpetual.Passes
import Perpetual.Takeover

/-! Both orders contracts as traders of PerpetualV1. A fill of a decrease-only order moves the
position of its maker towards zero, whatever the batch did before it. -/
namespace Perpetual
open Orders

structure TradersHost (ρ : Type) where
  orders : OrdersContract
  inverseOrders : OrdersContract
  rest : ρ

variable {ρ : Type}

def callOrders (crypto : Crypto) (msg : Msg) (call : TraderCall) (w : World (TradersHost ρ)) :
    Checked (TradeResult × World (TradersHost ρ)) := do
  let (result,orders) ← P1Orders.trade crypto msg w.perpetual call w.ext.orders
  return (result,{ w with ext := { w.ext with orders := orders } })

def callInverseOrders (crypto : Crypto) (msg : Msg) (call : TraderCall) (w : World (TradersHost ρ)) :
    Checked (TradeResult × World (TradersHost ρ)) := do
  let (result,inverseOrders) ← P1InverseOrders.trade crypto msg w.perpetual call w.ext.inverseOrders
  return (result,{ w with ext := { w.ext with inverseOrders := inverseOrders } })

/-- `this` is PerpetualV1. Any other trader is any code that reaches it only by calling it. -/
structure TradersEnvironment (crypto : Crypto) (this ordersAddress inverseAddress : Address)
    (x : Externals (TradersHost ρ)) (msg : Msg) : Prop where
  orders : ∀ call w, x.trade ordersAddress call w = callOrders crypto ⟨this,msg.timestamp⟩ call w
  inverseOrders : ∀ call w,
    x.trade inverseAddress call w = callInverseOrders crypto ⟨this,msg.timestamp⟩ call w
  others : ∀ trader call w r w', trader ≠ ordersAddress → trader ≠ inverseAddress →
    x.trade trader call w = .ok (r,w') → External (fun _ _ => True) w w'

theorem TradersEnvironment.traders {crypto : Crypto} {this ordersAddress inverseAddress : Address}
    {x : Externals (TradersHost ρ)} {msg : Msg}
    (h : TradersEnvironment crypto this ordersAddress inverseAddress x msg) :
    Traders (fun _ _ => True) x := by
  intro trader call w r w' ok
  by_cases orders : trader = ordersAddress
  · rw [orders, h.orders] at ok
    simp only [callOrders, Checked.bindOk, Prod.exists, Checked.pureOk, Prod.mk.injEq] at ok
    obtain ⟨_,_,_,_,rfl⟩ := ok
    exact .own w _ trivial
  · by_cases inverse : trader = inverseAddress
    · rw [inverse, h.inverseOrders] at ok
      simp only [callInverseOrders, Checked.bindOk, Prod.exists, Checked.pureOk, Prod.mk.injEq] at ok
      obtain ⟨_,_,_,_,rfl⟩ := ok
      exact .own w _ trivial
    · exact h.others trader call w r w' orders inverse ok

structure Decreases (perpetual : Storage) (maker : Address) (fill : Fill) (result : TradeResult) : Prop where
  side : result.isBuy = (perpetual.balances maker).positionIsPositive
  amount : result.positionAmount = fill.amount
  bounded : fill.amount.toNat ≤ (perpetual.balances maker).position.toNat

theorem requestDecreases {oraclePrice : Uint256 → Checked Uint256} {decreases : Bool → Bool → Bool}
    {tradeData : TradeData} {maker taker : Address} {perpetual : Storage} {timestamp price : Uint256} {u : Unit}
    (decreaseOnly : isDecreaseOnly tradeData.order = true)
    (ok : verifyOrderRequest oraclePrice decreases tradeData maker taker perpetual timestamp price = .ok u) :
    decreases (isBuy tradeData.order) (perpetual.balances maker).positionIsPositive = true ∧
      tradeData.fill.amount.toNat ≤ (perpetual.balances maker).position.toNat := by
  simp only [verifyOrderRequest, Checked.bindOk, Checked.requireOk, exists_const] at ok
  obtain ⟨_,_,_,_,_,_,_,_,least⟩ := ok
  exact least.resolve_left (by rw [decreaseOnly]; decide)

section
variable {crypto : Crypto} {msg : Msg} {perpetual : Storage} {call : TraderCall} {s s' : OrdersContract}
  {tradeData : TradeData} {result : TradeResult}

theorem ordersDecrease (decoded : decodeTradeData call.data = .ok tradeData)
    (decreaseOnly : isDecreaseOnly tradeData.order = true)
    (ok : P1Orders.trade crypto msg perpetual call s = .ok (result,s')) :
    Decreases perpetual call.maker tradeData.fill result := by
  obtain ⟨valid,resultOk⟩ := tradeOk decoded ok
  obtain ⟨opposite,bounded⟩ := requestDecreases decreaseOnly valid
  have cost := P1Orders.costs resultOk
  refine ⟨?_,cost.position,bounded⟩
  rw [cost.isBuy]
  exact Bool.not_eq.mpr (bne_iff_ne.mp opposite)

theorem inverseOrdersDecrease (decoded : decodeTradeData call.data = .ok tradeData)
    (decreaseOnly : isDecreaseOnly tradeData.order = true)
    (ok : P1InverseOrders.trade crypto msg perpetual call s = .ok (result,s')) :
    Decreases perpetual call.maker tradeData.fill result := by
  obtain ⟨valid,resultOk⟩ := tradeOk decoded ok
  obtain ⟨agree,bounded⟩ := requestDecreases decreaseOnly valid
  have cost := P1InverseOrders.costs resultOk
  exact ⟨cost.isBuy.trans (beq_iff_eq.mp agree),cost.position,bounded⟩

end

structure Decreased (before after : Int) (amount : Nat) : Prop where
  size : after.natAbs + amount = before.natAbs
  notDown : ¬ (0 < before ∧ after < 0)
  notUp : ¬ (before < 0 ∧ 0 < after)

theorem Shrunk.decreased {b b' : Balance} {amount : Nat} (h : Shrunk b b' amount) :
    Decreased b.positionInt b'.positionInt amount := by
  have sign := h.sign
  refine ⟨?_,?_,?_⟩
  · rw [Balance.positionInt, Balance.positionInt, Signed.natAbs, Signed.natAbs]
    exact h.size
  all_goals
    rw [sign, Balance.positionInt]
    cases b.positionIsPositive <;> simp only [Signed.positive, Signed.negative] <;> omega

/-- A fill of a decrease-only order by either contract, in any call of `trade` that succeeds, takes
exactly its amount from the position that its maker has at that point of the batch. -/
theorem decreaseOnlyDecreases {crypto : Crypto} {this ordersAddress inverseAddress : Address}
    {x : Externals (TradersHost ρ)} {msg : Msg}
    (environment : TradersEnvironment crypto this ordersAddress inverseAddress x msg)
    {accounts : List Address} {done rest : List TradeArg} {tradeArg : TradeArg}
    {w w' : World (TradersHost ρ)}
    (ok : exec x msg (.trade accounts (done ++ tradeArg::rest)) w = .ok w') : ∃ context s s',
    Trade.Pass x msg accounts w done tradeArg context s s' ∧
    ∀ tradeData maker taker, (tradeArg.trader = ordersAddress ∨ tradeArg.trader = inverseAddress) →
      decodeTradeData tradeArg.data = .ok tradeData → isDecreaseOnly tradeData.order = true →
      accounts[tradeArg.makerIndex.toNat]? = some maker →
      accounts[tradeArg.takerIndex.toNat]? = some taker → maker ≠ taker →
      Decreased (s.world.perpetual.balances maker).positionInt (s'.world.perpetual.balances maker).positionInt
        tradeData.fill.amount.toNat := by
  obtain ⟨context,s,s',passed,inStep⟩ := Trade.callPass environment.traders ok
  refine ⟨context,s,s',passed,?_⟩
  intro tradeData maker taker trader decoded decreaseOnly atMaker atTaker different
  have exchange := Trade.exchanged environment.traders inStep atMaker atTaker different passed.pass
  obtain ⟨result,w₁,called,applied⟩ := exchange.called
  have decreases : Decreases s.world.perpetual maker tradeData.fill result := by
    rcases trader with orders | inverse
    · rw [orders, environment.orders] at called
      simp only [callOrders, Checked.bindOk, Prod.exists, Checked.pureOk, Prod.mk.injEq] at called
      obtain ⟨_,_,fill,rfl,_⟩ := called
      exact ordersDecrease decoded decreaseOnly fill
    · rw [inverse, environment.inverseOrders] at called
      simp only [callInverseOrders, Checked.bindOk, Prod.exists, Checked.pureOk, Prod.mk.injEq] at called
      obtain ⟨_,_,fill,rfl,_⟩ := called
      exact inverseOrdersDecrease decoded decreaseOnly fill
  have moved := applied.makerPosition
  rw [decreases.side, decreases.amount] at moved
  exact (shrunk decreases.bounded moved).decreased

def tradersSample (timestamp : Uint256) : Externals (TradersHost Unit) where
  getPrice := fun _ _ => .ok BaseMath.BASE
  getFunding := fun _ _ _ => .ok (true,0)
  balanceOf := fun _ _ => .ok 0
  transferFrom := fun _ _ _ w => .ok w
  transfer := fun _ _ _ w => .ok w
  trade := fun trader call w =>
    if trader = 9 then callOrders Crypto.sample ⟨7,timestamp⟩ call w
    else if trader = 10 then callInverseOrders Crypto.sample ⟨7,timestamp⟩ call w
    else .error "no trader"

theorem tradersSampleEnvironment (msg : Msg) :
    TradersEnvironment Crypto.sample 7 9 10 (tradersSample msg.timestamp) msg where
  orders := fun _ _ => rfl
  inverseOrders := fun _ _ => rfl
  others := by
    intro trader call w r w' notOrders notInverse ok
    simp only [tradersSample, if_neg notOrders, if_neg notInverse] at ok
    cases ok

def tradersDeployment : World (TradersHost Unit) where
  perpetual := { Storage.deployed 3 with
    initialized := true
    balances := fun _ => ⟨true,true,1000,5⟩
    globalOperators := fun _ => true
    minCollateral := BaseMath.BASE }
  logs := []
  ext := ⟨constructor Crypto.sample P1Orders.EIP712_DOMAIN_NAME 7 1 9,
    constructor Crypto.sample P1InverseOrders.EIP712_DOMAIN_NAME 7 1 10,()⟩

def sampleDecrease (isBuy : Bool) : Order := ⟨if isBuy then 3 else 2,4,2 * BaseMath.BASE,0,0,1,0,0⟩

def sampleDecreaseData (isBuy : Bool) (amount : Uint256) : TradeData :=
  ⟨sampleDecrease isBuy,⟨amount,2 * BaseMath.BASE,0,false⟩,⟨1,0,0⟩⟩

def sampleDecreaseArg (isBuy : Bool) (amount : Uint256) : TradeArg :=
  ⟨1,0,if isBuy then 10 else 9,encodeTradeData (sampleDecreaseData isBuy amount)⟩

theorem sampleDecreased : ∃ context s s',
    Trade.Pass (tradersSample 100) ⟨2,100⟩ [1,2] tradersDeployment [sampleDecreaseArg false 3]
      (sampleDecreaseArg true 1) context s s' ∧
    Decreased (s.world.perpetual.balances 1).positionInt (s'.world.perpetual.balances 1).positionInt 1 := by
  have succeeds : (exec (tradersSample 100) ⟨2,100⟩
      (.trade [1,2] ([sampleDecreaseArg false 3] ++ [sampleDecreaseArg true 1])) tradersDeployment).isOk =
        true := by decide +kernel
  obtain ⟨w',ok⟩ := Checked.okExists succeeds
  obtain ⟨context,s,s',passed,decreases⟩ := decreaseOnlyDecreases (tradersSampleEnvironment ⟨2,100⟩) ok
  exact ⟨context,s,s',passed,decreases (sampleDecreaseData true 1) 1 2 (.inr rfl) (by decide +kernel)
    (by decide +kernel) rfl rfl (by decide)⟩

end Perpetual
