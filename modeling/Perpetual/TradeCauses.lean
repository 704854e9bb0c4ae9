import Perpetual.BatchMerging
import Perpetual.CallLogs
import Perpetual.InverseLimits
import Perpetual.OrderRuns
import Perpetual.Takeover

/-! Why a trade could happen. When the traders of PerpetualV1 are the four contracts of the
repository, each trade in its logs is one that the logs before it allow. -/
namespace Perpetual
open Settlement

structure OrdersSite where
  address : Address
  deployed : OrdersContract
  fresh : ∀ h, deployed.status h = .Open
  approvals : Order → Prop

/-- What is known beside the logs: where the four traders are, who calls PerpetualV1, with what data for the
traders, and the prices that it is told. -/
structure TraderSites where
  perpetualV1 : Address
  orders : OrdersSite
  inverseOrders : OrdersSite
  liquidation : Address
  deleveraging : Address
  callers : Address → Prop
  presented : List UInt8 → Prop
  prices : Uint256 → Prop

def OrdersSite.Holds (site : OrdersSite) (code : Orders.Code) (crypto : Crypto) (s : OrdersContract) : Prop :=
  ∃ calls, Orders.Steps code crypto site.deployed calls s ∧ ∀ order, .approve order.maker order ∈ calls →
    site.approvals order

inductive Answered (crypto : Crypto) (sites : TraderSites) (timestamp : Uint256) (perpetual : Storage)
    (call : TraderCall) (result : TradeResult) : Address → Prop where
  | orders {s s' : OrdersContract} (holds : sites.orders.Holds P1Orders.code crypto s)
      (ok : P1Orders.trade crypto ⟨sites.perpetualV1,timestamp⟩ perpetual call s = .ok (result,s')) :
      Answered crypto sites timestamp perpetual call result sites.orders.address
  | inverseOrders {s s' : OrdersContract} (holds : sites.inverseOrders.Holds P1InverseOrders.code crypto s)
      (ok : P1InverseOrders.trade crypto ⟨sites.perpetualV1,timestamp⟩ perpetual call s = .ok (result,s')) :
      Answered crypto sites timestamp perpetual call result sites.inverseOrders.address
  | liquidation {s s' : LiquidationContract}
      (ok : P1Liquidation.trade ⟨sites.perpetualV1,timestamp⟩ perpetual call s = .ok (result,s')) :
      Answered crypto sites timestamp perpetual call result sites.liquidation
  | deleveraging {s s' : DeleveragingContract}
      (ok : P1Deleveraging.trade ⟨sites.perpetualV1,timestamp⟩ perpetual call s = .ok (result,s')) :
      Answered crypto sites timestamp perpetual call result sites.deleveraging

structure FourTraders {σ : Type} (crypto : Crypto) (sites : TraderSites) (x : Externals σ) (msg : Msg) : Prop where
  caller : sites.callers msg.sender
  prices : ∀ {oracle w price}, x.getPrice oracle w = .ok price → sites.prices price
  answers : ∀ {trader call w result w'}, x.trade trader call w = .ok (result,w') →
    ∃ ext, w' = { w with ext := ext } ∧ Answered crypto sites msg.timestamp w.perpetual call result trader
  pulls : ∀ token sender amount w w', x.transferFrom token sender amount w = .ok w' → External (fun _ _ => True) w w'
  pushes : ∀ token recipient amount w w', x.transfer token recipient amount w = .ok w' →
    External (fun _ _ => True) w w'

def Entry.tradeData : Entry → List (List UInt8)
  | .trade _ trades => trades.map TradeArg.data
  | _ => []

inductive FourTradersStep {σ : Type} (crypto : Crypto) (sites : TraderSites) : World σ → World σ → Prop where
  | call (w : World σ) (x : Externals σ) (msg : Msg) (entry : Entry) (four : FourTraders crypto sites x msg)
      (presented : ∀ data ∈ entry.tradeData, sites.presented data) :
      FourTradersStep crypto sites w (perform x msg entry w)
  | elsewhere (w : World σ) (ext : σ) : FourTradersStep crypto sites w { w with ext := ext }

def Observed.permits (v : Observed) (account operator : Address) : Bool :=
  account == operator || v.globalOperators operator || v.localOperators account operator

def Observed.Undercollateralized (v : Observed) (account : Address) (price : Uint256) : Prop :=
  (v.balances account).positiveValue price.toNat * 10 ^ 18 <
    (v.balances account).negativeValue price.toNat * v.minCollateral.toNat

open Orders in
def OrdersSite.Vouched (site : OrdersSite) (crypto : Crypto) (data : TradeData) : Prop :=
  let hash := getOrderHash crypto site.deployed.eip712DomainHash
  (∃ order, site.approvals order ∧ hash order = hash data.order) ∨
    TypedSignature.recover crypto (hash data.order) data.signature = .ok data.order.maker

open Orders in
structure Ordered (crypto : Crypto) (site : OrdersSite) (v : Observed) (sender maker taker : Address)
    (presented : List UInt8) (data : TradeData) : Prop where
  decoded : decodeTradeData presented = .ok data
  ofMaker : data.order.maker = maker
  forTaker : data.order.taker = taker ∨ data.order.taker = 0
  vouched : site.Vouched crypto data
  within : P1Orders.WithinLimits data.order data.fill
  bounded : data.fill.amount.toNat ≤ data.order.amount.toNat
  permitted : v.permits taker sender = true

inductive Cause (crypto : Crypto) (sites : TraderSites) (v : Observed) (sender : Address) (price : Uint256)
    (presented : List UInt8) (maker taker : Address) (result : TradeResult) : Address → Prop where
  | order {data : TradeData} (ordered : Ordered crypto sites.orders v sender maker taker presented data)
      (costs : P1Orders.Costs (Orders.isBuy data.order) data.fill result) :
      Cause crypto sites v sender price presented maker taker result sites.orders.address
  | inverseOrder {data : TradeData}
      (ordered : Ordered crypto sites.inverseOrders v sender maker taker presented data)
      (costs : P1InverseOrders.Costs (Orders.isBuy data.order) data.fill result) :
      Cause crypto sites v sender price presented maker taker result sites.inverseOrders.address
  | liquidation (operator : v.globalOperators sender = true) (under : v.Undercollateralized maker price)
      (takeover : Takeover (v.balances maker) price.toNat result) :
      Cause crypto sites v sender price presented maker taker result sites.liquidation
  | deleveraging (under : P1Deleveraging.Underwater (v.balances maker) price)
      (opposite : (v.balances taker).positionIsPositive = !result.isBuy)
      (bounded : result.positionAmount.toNat ≤ (v.balances taker).position.toNat)
      (takeover : Takeover (v.balances maker) price.toNat result) :
      Cause crypto sites v sender price presented maker taker result sites.deleveraging

def Log.Caused (crypto : Crypto) (sites : TraderSites) (v : Observed) : Log → Prop
  | .trade maker taker trader marginAmount positionAmount isBuy _ _ => maker ≠ taker ∧ ∃ sender price data flags,
      sites.callers sender ∧ sites.prices price ∧ sites.presented data ∧
        Cause crypto sites v sender price data maker taker ⟨marginAmount,positionAmount,isBuy,flags⟩ trader
  | _ => True

section
variable {σ : Type} {crypto : Crypto} {sites : TraderSites} {perpetual : Storage} {call : TraderCall}
variable {result : TradeResult} {timestamp : Uint256} {trader : Address}

open Orders in
theorem filledOrder {oraclePrice : Uint256 → Checked Uint256} {decreases : Bool → Bool → Bool}
    {compute : TradeData → Checked TradeResult} {code : Code} {msg : Msg} {s s' : OrdersContract}
    {site : OrdersSite} (holds : site.Holds code crypto s)
    (ok : Orders.trade (Orders.verifyOrderRequest oraclePrice decreases) compute crypto msg perpetual call s =
      .ok (result,s')) :
    ∃ data, Ordered crypto site (observe perpetual) call.sender call.maker call.taker call.data data ∧
      compute data = .ok result := by
  simp only [Orders.trade, Checked.bindOk, Checked.requireOk, exists_const, Checked.pureOk, Prod.mk.injEq,
    SafeMath.addOk] at ok
  obtain ⟨_,permission,data,decoded,_,state,_,valid,filled,sum,bounded,_,computed,rfl,_⟩ := ok
  have within := P1Orders.requestWithinLimits valid
  simp only [Orders.verifyOrderRequest, Checked.bindOk, Checked.requireOk, exists_const] at valid
  obtain ⟨maker,taker,_⟩ := valid
  obtain ⟨calls,steps,known⟩ := holds
  have vouched := permitted state
  rw [stepsDomain steps] at vouched
  refine ⟨data,⟨decoded,maker,taker,?_,within,by omega,?_⟩,computed⟩
  · rcases vouched with approved | ⟨_,signed⟩
    · obtain ⟨order,same,approval⟩ := stepsApproval steps site.fresh approved
      exact .inl ⟨order,known order approval,same⟩
    · exact .inr signed
  · rcases permission with own | permission
    · simp only [Observed.permits, own, beq_self_eq_true, Bool.true_or]
    · exact permission

theorem P1Liquidation.liquidatable {balance : Balance} {price : Uint256}
    (ok : isUndercollateralized balance perpetual price = .ok true) :
    balance.positiveValue price.toNat * 10 ^ 18 <
      balance.negativeValue price.toNat * perpetual.minCollateral.toNat := by
  simp only [isUndercollateralized, Checked.bindOk, Prod.exists, SafeMath.mulOk, Checked.pureOk,
    decide_eq_true_eq] at ok
  obtain ⟨positive,negative,values,left,hl,right,hr,less⟩ := ok
  obtain ⟨exactPositive,exactNegative⟩ := Balance.valuesExact values
  have base : BaseMath.base.toNat = 10 ^ 18 := BaseMath.baseNat
  rw [hl, hr, base, exactPositive, exactNegative] at less
  exact less

theorem Answered.cause (answered : Answered crypto sites timestamp perpetual call result trader) :
    Cause crypto sites (observe perpetual) call.sender call.price call.data call.maker call.taker result trader := by
  cases answered with
  | orders holds ok =>
    obtain ⟨data,ordered,computed⟩ := filledOrder holds ok
    exact .order ordered (P1Orders.costs computed)
  | inverseOrders holds ok =>
    obtain ⟨data,ordered,computed⟩ := filledOrder holds ok
    exact .inverseOrder ordered (P1InverseOrders.costs computed)
  | liquidation ok =>
    obtain ⟨data,taken⟩ := P1Liquidation.liquidated ok
    simp only [P1Liquidation.trade, P1Liquidation.verifyTrade, Checked.bindOk, Checked.requireOk,
      exists_const] at ok
    obtain ⟨_,operator,_,_,⟨_,under,rfl,_⟩,_⟩ := ok
    exact .liquidation operator (P1Liquidation.liquidatable under) taken.takeover
  | deleveraging ok =>
    obtain ⟨data,taken⟩ := P1Deleveraging.offset ok
    simp only [P1Deleveraging.trade, P1Deleveraging.verifyTrade, Checked.bindOk, Checked.requireOk,
      exists_const] at ok
    obtain ⟨_,_,_,_,_,_,⟨_,under,rfl,_⟩,_⟩ := ok
    refine .deleveraging ((P1Deleveraging.underwater under).mp rfl) taken.opposite ?_ taken.takeover
    rw [taken.amount]
    exact (Nat.min_le_right _ _).trans (Nat.min_le_right _ _)

variable {x : Externals σ} {msg : Msg} {w w' : World σ}

theorem Log.comesFrom.caused {sender : Address} {entry : Entry} {l : Log} (comes : l.comesFrom sender entry)
    (other : ∀ accounts trades, entry ≠ .trade accounts trades) (v : Observed) : Log.Caused crypto sites v l := by
  cases l with
  | trade =>
    obtain ⟨accounts,trades,same⟩ := comes
    exact absurd same (other accounts trades)
  | _ => exact trivial

theorem otherwiseCaused {sender : Address} {entry : Entry} (explained : (eventLog σ).Explained w w')
    (logs : LogsOf (Log.comesFrom sender entry) w w') (other : ∀ accounts trades, entry ≠ .trade accounts trades) :
    (eventLog σ).Justified (Log.Caused crypto sites) w w' := by
  obtain ⟨new,logged,comes⟩ := logs
  refine explained.justified fun same more l mem v => ?_
  obtain rfl : new = same := List.append_cancel_left (logged.symm.trans more)
  exact (comes l mem).caused other v

namespace FourTraders

theorem honest (four : FourTraders crypto sites x msg) : Honest (fun _ _ => True) x where
  traders := by
    intro trader call w result w' ok
    obtain ⟨ext,rfl,_⟩ := four.answers ok
    exact .own w ext trivial
  pulls := four.pulls
  pushes := four.pushes

theorem passCaused (four : FourTraders crypto sites x msg) {context : Context} {accounts : List Address}
    {s s' : Trade.Batch σ} {tradeArg : TradeArg} (priced : sites.prices context.price)
    (presented : sites.presented tradeArg.data)
    (ok : Trade.tradeOne x msg context accounts s tradeArg = .ok s') :
    (eventLog σ).Justified (Log.Caused crypto sites) s.world s'.world := by
  simp only [Trade.tradeOne, Checked.bindOk, Checked.requireOk, Checked.atOk, Prod.exists, exists_const] at ok
  obtain ⟨_,maker,_,taker,_,result,called,trade,ok⟩ := ok
  obtain ⟨ext,rfl,answered⟩ := four.answers trade
  split at ok
  · cases Checked.pureOk.mp ok
    exact .quiet rfl rfl
  · rename_i different
    simp only [Checked.bindOk, Checked.atOk, Prod.exists, Checked.pureOk] at ok
    obtain ⟨m,_,t,_,m',t',_,rfl⟩ := ok
    -- The answer changed nothing that can be seen, so its cause is a cause at the log.
    refine .emitted rfl ?_ ⟨different,msg.sender,context.price,tradeArg.data,result.traderFlags,four.caller,
      priced,presented,answered.cause⟩
    change observe ((s.world.perpetual.setBalance maker m').setBalance taker t') = _
    rw [observeBalance, observeBalance]
    rfl

theorem tradeCaused (four : FourTraders crypto sites x msg) {accounts : List Address} {trades : List TradeArg}
    (presented : ∀ data ∈ trades.map TradeArg.data, sites.presented data)
    (ok : Trade.trade x msg accounts trades w = .ok w') :
    (eventLog σ).Justified (Log.Caused crypto sites) w w' := by
  cases batchTraded ok with
  | @done context initialBalances w₁ w₂ batch live unique load settle start ran verified =>
    have priced : sites.prices context.price := four.prices (Trade.loadedPrice load)
    have logs : LogsOf (Log.comesFrom msg.sender .withdrawFinalSettlement) w w₂ := openingLogged load settle
    have explained := (loadExplained load).trans (settleAllExplained settle)
    have opened : (eventLog σ).Justified (Log.Caused crypto sites) w w₂ :=
      otherwiseCaused ((statusExplained w ENTERED).trans explained) logs fun _ _ same => by cases same
    have loop := Checked.loopKeeps
      (P := fun s : Trade.Batch σ => (eventLog σ).Justified (Log.Caused crypto sites) w₂ s.world)
      (fun s tradeArg s' mem before pass =>
        before.trans (passCaused four priced (presented _ (List.mem_map_of_mem mem)) pass)) ran (.quiet rfl rfl)
    exact opened.trans (loop.trans (.quiet rfl rfl))

theorem execCaused (four : FourTraders crypto sites x msg) {entry : Entry}
    (presented : ∀ data ∈ entry.tradeData, sites.presented data)
    (initialized : w.perpetual.initialized = true) (ok : exec x msg entry w = .ok w') :
    (eventLog σ).Justified (Log.Caused crypto sites) w w' := by
  cases entry with
  | trade accounts trades => exact four.tradeCaused presented ok
  | _ =>
    exact otherwiseCaused (execExplained four.honest initialized ok) (execLogged four.honest ok)
      fun _ _ same => by cases same

end FourTraders

theorem stepCaused (initialized : w.perpetual.initialized = true) (next : FourTradersStep crypto sites w w') :
    (eventLog σ).Justified (Log.Caused crypto sites) w w' ∧ w'.perpetual.initialized = true := by
  have caused : (eventLog σ).Justified (Log.Caused crypto sites) w w' := by
    cases next with
    | call x msg entry four presented =>
      unfold perform
      cases result : exec x msg entry w with
      | error reason => exact .quiet rfl rfl
      | ok w' => exact four.execCaused presented initialized result
    | elsewhere ext => exact .quiet rfl rfl
  exact ⟨caused,explainedInitialized caused.explained initialized⟩

/-- Behind every trade there is an order that its maker has signed or approved, at a price and a fee within
its limits, and a taker's permission; or a maker that was short of collateral at the price of the moment, or
under water, whose position is taken over in part or as a whole. All of it, but for the order and the price,
can be checked by the logs before the trade. -/
theorem everyTradeHasACause (initialized : w.perpetual.initialized = true)
    (run : Relation.ReflTransGen (FourTradersStep crypto sites) w w') :
    ∃ new, w'.logs = w.logs ++ new ∧ ∀ before log after, new = before ++ log::after →
      Log.Caused crypto sites (before.foldl Observed.apply (observe w.perpetual)) log := by
  have caused := EventLog.runDoes (R := (eventLog σ).Justified (Log.Caused crypto sites))
    (I := fun w => w.perpetual.initialized = true) (fun _ => .quiet rfl rfl) .trans stepCaused initialized run
  obtain ⟨new,explains,caused⟩ := caused.1
  refine ⟨new,explains.logged,fun before log after same => ?_⟩
  rw [same] at caused
  exact EventLog.justifiesEach caused

end

def sampleTrades : Entry :=
  .trade [1,2,3] [
    ⟨1,0,9,encodeTradeData ⟨⟨2,4,20 * BaseMath.BASE,0,0,1,0,0⟩,⟨3,20 * BaseMath.BASE,0,false⟩,⟨1,0,0⟩⟩⟩,
    ⟨1,2,11,Abi.word 3 ++ Abi.word 0 ++ Abi.word 0⟩]

def sampleOrdersSite : OrdersSite where
  address := 9
  deployed := Orders.constructor Crypto.sample P1Orders.EIP712_DOMAIN_NAME 7 1 9
  fresh := fun _ => rfl
  approvals := fun _ => False

def sampleSites : TraderSites where
  perpetualV1 := 7
  orders := sampleOrdersSite
  inverseOrders := { sampleOrdersSite with address := 10 }
  liquidation := 11
  deleveraging := 12
  callers := fun sender => sender = 2
  presented := fun data => data ∈ sampleTrades.tradeData
  prices := fun price => price = 20 * BaseMath.BASE

structure SampleTraders where
  orders : OrdersContract
  calls : List OrderCall
  reached : Orders.Steps P1Orders.code Crypto.sample sampleOrdersSite.deployed calls orders
  fills : ∀ c ∈ calls, ∃ order fill, c = .fill order fill
  liquidation : LiquidationContract

def SampleTraders.fillOrder (e : SampleTraders) (msg : Msg) (perpetual : Storage) (call : TraderCall) :
    Checked (TradeResult × SampleTraders) :=
  match decoded : Orders.decodeTradeData call.data,
      ok : P1Orders.code.trade Crypto.sample msg perpetual call e.orders with
  | .ok data, .ok (result,orders) => .ok (result,{
      orders := orders
      calls := e.calls ++ [.fill data.order data.fill]
      reached := .more e.reached (.fill msg perpetual call data result decoded ok)
      fills := List.forall_mem_append.mpr ⟨e.fills,List.forall_mem_singleton.mpr ⟨_,_,rfl⟩⟩
      liquidation := e.liquidation })
  | .error reason, _ => .error reason
  | _, .error reason => .error reason

def causesSample (timestamp : Uint256) : Externals SampleTraders where
  getPrice := fun _ _ => .ok (20 * BaseMath.BASE)
  getFunding := fun _ _ _ => .ok (true,0)
  balanceOf := fun _ _ => .ok 0
  transferFrom := fun _ _ _ w => .ok w
  transfer := fun _ _ _ w => .ok w
  trade := fun trader call w =>
    if trader = 9 then do
      let (result,e) ← w.ext.fillOrder ⟨7,timestamp⟩ w.perpetual call
      return (result,{ w with ext := e })
    else if trader = 11 then do
      let (result,liquidation) ← P1Liquidation.trade ⟨7,timestamp⟩ w.perpetual call w.ext.liquidation
      return (result,{ w with ext := { w.ext with liquidation := liquidation } })
    else .error "no trader"

theorem SampleTraders.filledOrder {e e' : SampleTraders} {msg : Msg} {perpetual : Storage} {call : TraderCall}
    {result : TradeResult} (ok : e.fillOrder msg perpetual call = .ok (result,e')) :
    P1Orders.code.trade Crypto.sample msg perpetual call e.orders = .ok (result,e'.orders) := by
  unfold SampleTraders.fillOrder at ok
  split at ok
  · rename_i filled
    obtain ⟨rfl,rfl⟩ := Prod.mk.inj (Except.ok.inj ok)
    exact filled
  · cases ok
  · cases ok

theorem SampleTraders.holds (e : SampleTraders) :
    sampleSites.orders.Holds P1Orders.code Crypto.sample e.orders := by
  refine ⟨e.calls,e.reached,fun order mem => ?_⟩
  obtain ⟨_,_,same⟩ := e.fills _ mem
  cases same

theorem causesSampleFour (timestamp : Uint256) :
    FourTraders Crypto.sample sampleSites (causesSample timestamp) ⟨2,timestamp⟩ where
  caller := rfl
  prices := fun same => (Except.ok.inj same).symm
  answers := by
    intro trader call w result w' ok
    simp only [causesSample] at ok
    split at ok
    · rename_i here
      subst here
      simp only [Checked.bindOk, Prod.exists, Checked.pureOk, Prod.mk.injEq] at ok
      obtain ⟨_,e,filled,rfl,rfl⟩ := ok
      exact ⟨e,rfl,.orders w.ext.holds (SampleTraders.filledOrder filled)⟩
    · split at ok
      · rename_i here
        subst here
        simp only [Checked.bindOk, Prod.exists, Checked.pureOk, Prod.mk.injEq] at ok
        obtain ⟨_,liquidation,taken,rfl,rfl⟩ := ok
        exact ⟨_,rfl,.liquidation taken⟩
      · cases ok
  pulls := fun _ _ _ _ _ ok => .ofSame ok
  pushes := fun _ _ _ _ _ ok => .ofSame ok

def sampleShortage : World SampleTraders where
  perpetual := { Storage.deployed 3 with
    initialized := true
    balances := Function.update (fun _ => ⟨true,true,1000,5⟩) 3 ⟨true,false,150,7⟩
    globalOperators := fun _ => true
    minCollateral := 11 * 10 ^ 17 }
  logs := []
  ext := ⟨sampleOrdersSite.deployed,[],.none,List.forall_mem_nil _,P1Liquidation.constructor 7⟩

theorem sampleCauses : ∃ w' : World SampleTraders,
    exec (causesSample 100) ⟨2,100⟩ sampleTrades sampleShortage = .ok w' ∧
    ∃ new, w'.logs = sampleShortage.logs ++ new ∧ ∀ before log after, new = before ++ log::after →
      Log.Caused Crypto.sample sampleSites (before.foldl Observed.apply (observe sampleShortage.perpetual)) log := by
  have succeeds : (exec (causesSample 100) ⟨2,100⟩ sampleTrades sampleShortage).isOk = true := by decide +kernel
  obtain ⟨w',ok⟩ := Checked.okExists succeeds
  have performed : perform (causesSample 100) ⟨2,100⟩ sampleTrades sampleShortage = w' := by rw [perform, ok]
  have run : Relation.ReflTransGen (FourTradersStep Crypto.sample sampleSites) sampleShortage w' :=
    performed ▸ .single (.call _ _ _ _ (causesSampleFour 100) fun _ mem => mem)
  exact ⟨w',ok,everyTradeHasACause rfl run⟩

end Perpetual
