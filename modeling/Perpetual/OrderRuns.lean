import Perpetual.OrderHistory
import Perpetual.Solvency

/-! P1Orders beside PerpetualV1: approvals, cancellations and whole transactions of
PerpetualV1 in any order. A transaction that reverts leaves nothing, its fills included. -/
namespace Perpetual
open Orders
variable {ρ : Type}

structure OrdersHost (ρ : Type) where
  contract : OrdersContract
  journal : List OrderCall
  rest : ρ

def OrdersHost.commit (e : OrdersHost ρ) (contract : OrdersContract) (call : OrderCall) : OrdersHost ρ :=
  { e with contract := contract, journal := e.journal ++ [call] }

def ordersTrade (crypto : Crypto) (msg : Msg) (call : TraderCall) (w : World (OrdersHost ρ)) :
    Checked (TradeResult × World (OrdersHost ρ)) := do
  let (result,contract) ← P1Orders.code.trade crypto msg w.perpetual call w.ext.contract
  let tradeData ← decodeTradeData call.data
  return (result,{ w with ext := w.ext.commit contract (.fill tradeData.order tradeData.fill) })

/-- Other code changes the state of P1Orders only by calls that it commits. -/
def CallsOrders (crypto : Crypto) (e e' : OrdersHost ρ) : Prop :=
  ∃ calls, Steps P1Orders.code crypto e.contract calls e'.contract ∧ e'.journal = e.journal ++ calls

structure OrdersEnvironment (crypto : Crypto) (this ordersAddress : Address)
    (x : Externals (OrdersHost ρ)) (msg : Msg) : Prop where
  orders : ∀ call w, x.trade ordersAddress call w = ordersTrade crypto ⟨this,msg.timestamp⟩ call w
  others : ∀ trader call w r w', trader ≠ ordersAddress → x.trade trader call w = .ok (r,w') →
    CallsOrders crypto w.ext w'.ext
  pulls : ∀ token sender amount w w',
    x.transferFrom token sender amount w = .ok w' → CallsOrders crypto w.ext w'.ext
  pushes : ∀ token recipient amount w w',
    x.transfer token recipient amount w = .ok w' → CallsOrders crypto w.ext w'.ext

def performApproveOrder (crypto : Crypto) (msg : Msg) (order : Order) (w : World (OrdersHost ρ)) :
    World (OrdersHost ρ) :=
  match Orders.approveOrder crypto msg order w.ext.contract with
  | .ok contract => { w with ext := w.ext.commit contract (.approve msg.sender order) }
  | .error _ => w

def performCancelOrder (crypto : Crypto) (msg : Msg) (order : Order) (w : World (OrdersHost ρ)) :
    World (OrdersHost ρ) :=
  match Orders.cancelOrder crypto msg order w.ext.contract with
  | .ok contract => { w with ext := w.ext.commit contract (.cancel msg.sender order) }
  | .error _ => w

inductive OrdersRun (crypto : Crypto) (this ordersAddress : Address) (start : World (OrdersHost ρ)) :
    World (OrdersHost ρ) → Prop where
  | none : OrdersRun crypto this ordersAddress start start
  | approve {w : World (OrdersHost ρ)} (before : OrdersRun crypto this ordersAddress start w) (msg : Msg)
      (order : Order) : OrdersRun crypto this ordersAddress start (performApproveOrder crypto msg order w)
  | cancel {w : World (OrdersHost ρ)} (before : OrdersRun crypto this ordersAddress start w) (msg : Msg)
      (order : Order) : OrdersRun crypto this ordersAddress start (performCancelOrder crypto msg order w)
  | call {w : World (OrdersHost ρ)} (before : OrdersRun crypto this ordersAddress start w)
      (x : Externals (OrdersHost ρ)) (msg : Msg) (entry : Entry)
      (environment : OrdersEnvironment crypto this ordersAddress x msg) :
      OrdersRun crypto this ordersAddress start (perform x msg entry w)
  | elsewhere {w : World (OrdersHost ρ)} (before : OrdersRun crypto this ordersAddress start w) (rest : ρ) :
      OrdersRun crypto this ordersAddress start { w with ext := { w.ext with rest := rest } }

section
variable {crypto : Crypto} {this ordersAddress : Address}

theorem CallsOrders.refl (crypto : Crypto) (e : OrdersHost ρ) : CallsOrders crypto e e :=
  ⟨[],.none,(List.append_nil _).symm⟩

theorem CallsOrders.trans {a b c : OrdersHost ρ} (first : CallsOrders crypto a b)
    (last : CallsOrders crypto b c) : CallsOrders crypto a c := by
  obtain ⟨early,steps,journal⟩ := first
  obtain ⟨late,steps',journal'⟩ := last
  exact ⟨early ++ late,steps.trans steps',by rw [journal', journal, List.append_assoc]⟩

theorem committed {e : OrdersHost ρ} {contract : OrdersContract} {call : OrderCall}
    (step : Step P1Orders.code crypto e.contract call contract) :
    CallsOrders crypto e (e.commit contract call) :=
  ⟨[call],.more .none step,rfl⟩

theorem OrdersEnvironment.moves {x : Externals (OrdersHost ρ)} {msg : Msg}
    (h : OrdersEnvironment crypto this ordersAddress x msg) : Moves (CallsOrders crypto) x where
  refl := .refl crypto
  trans := .trans
  trades := by
    intro trader call w r w' ok
    by_cases orders : trader = ordersAddress
    · rw [orders, h.orders] at ok
      simp only [ordersTrade, Checked.bindOk, Prod.exists, Checked.pureOk, Prod.mk.injEq] at ok
      obtain ⟨result,contract,traded,tradeData,decoded,_,rfl⟩ := ok
      exact committed (.fill _ _ call tradeData result decoded traded)
    · exact h.others trader call w r w' orders ok
  pulls := h.pulls
  pushes := h.pushes

theorem runHistory {w w' : World (OrdersHost ρ)} (run : OrdersRun crypto this ordersAddress w w') :
    CallsOrders crypto w.ext w'.ext := by
  induction run with
  | none => exact .refl crypto _
  | approve before msg order ih =>
    refine ih.trans ?_
    unfold performApproveOrder
    split
    · rename_i contract ok
      exact committed (.approve msg order ok)
    · exact .refl crypto _
  | cancel before msg order ih =>
    refine ih.trans ?_
    unfold performCancelOrder
    split
    · rename_i contract ok
      exact committed (.cancel msg order ok)
    · exact .refl crypto _
  | call before x msg entry environment ih =>
    refine ih.trans ?_
    unfold perform
    split
    · rename_i w' ok
      exact execMoves environment.moves ok
    · exact .refl crypto _
  | elsewhere before rest ih => exact ih.trans (.refl crypto _)

end

structure FillsExact (hash : Order → Bytes32) (inPlay : Set Order) (earlier later : OrdersHost ρ)
    (since : List OrderCall) : Prop where
  history : later.journal = earlier.journal ++ since
  exact : ∀ h, (later.contract.filledAmount h).toNat = filledBy hash h later.journal
  bounded : ∀ o ∈ inPlay, (later.contract.filledAmount (hash o)).toNat ≤ o.amount.toNat
  makerOnly : ∀ o ∈ inPlay, later.contract.status (hash o) ≠ earlier.contract.status (hash o) →
    .approve o.maker o ∈ since ∨ .cancel o.maker o ∈ since
  cancelFinal : ∀ h, earlier.contract.status h = .Canceled → later.contract.status h = .Canceled ∧
    ∀ o f, .fill o f ∈ since → hash o ≠ h

/-- Fills are exact and cancellation is final in every run from the deployment on, for any set
of orders that holds the orders of the run and has no collisions among its hashes. -/
theorem fillsExactAndCancelFinal {crypto : Crypto} {this ordersAddress : Address} {chainId : Uint256}
    {w₀ w₁ w₂ : World (OrdersHost ρ)}
    (deployed : w₀.ext.contract = constructor crypto P1Orders.EIP712_DOMAIN_NAME this chainId ordersAddress)
    (unused : w₀.ext.journal = []) (first : OrdersRun crypto this ordersAddress w₀ w₁)
    (last : OrdersRun crypto this ordersAddress w₁ w₂) {inPlay : Set Order}
    (listed : ∀ c ∈ w₂.ext.journal, c.order ∈ inPlay)
    (injective : Set.InjOn (getOrderHash crypto w₀.ext.contract.eip712DomainHash) inPlay) :
    ∃ since, FillsExact (getOrderHash crypto w₀.ext.contract.eip712DomainHash) inPlay w₁.ext w₂.ext since := by
  obtain ⟨early,before,journal₁⟩ := runHistory first
  obtain ⟨since,after,journal₂⟩ := runHistory last
  rw [unused, List.nil_append] at journal₁
  have whole := before.trans after
  rw [journal₁] at journal₂
  have fresh : ∀ h, w₀.ext.contract.filledAmount h = 0 := by rw [deployed]; exact fun _ => rfl
  have domain := stepsDomain before
  refine ⟨since,⟨by rw [journal₂, journal₁],fun h => ?_,?_,fun o mem changed => ?_,fun h canceled => ?_⟩⟩
  · rw [stepsFilled whole h, fresh, journal₂]
    exact Nat.zero_add _
  · exact stepsBounded whole injective (journal₂ ▸ listed) fresh
  · obtain ⟨o',same,how⟩ := stepsStatus after changed
    rw [domain] at same
    have inside : o' ∈ inPlay := by
      rcases how with mem' | mem' <;>
        exact listed _ (journal₂ ▸ List.mem_append_right _ mem')
    obtain rfl := injective inside mem same
    exact how
  · have final := stepsCanceled after canceled
    rwa [domain] at final

def ordersSample (timestamp : Uint256) : Externals (OrdersHost Unit) where
  getPrice := fun _ _ => .ok BaseMath.BASE
  getFunding := fun _ _ _ => .ok (true,0)
  balanceOf := fun _ _ => .ok 0
  transferFrom := fun _ _ _ w => .ok w
  transfer := fun _ _ _ w => .ok w
  trade := fun trader call w =>
    if trader = 9 then ordersTrade Crypto.sample ⟨7,timestamp⟩ call w else .error "no trader"

theorem sampleEnvironment (msg : Msg) :
    OrdersEnvironment Crypto.sample 7 9 (ordersSample msg.timestamp) msg where
  orders := fun _ _ => rfl
  others := by
    intro trader call w r w' other ok
    rw [show (ordersSample msg.timestamp).trade trader call w = .error "no trader" from if_neg other] at ok
    cases ok
  pulls := by
    intro token sender amount w w' ok
    cases Except.ok.inj ok
    exact .refl _ _
  pushes := by
    intro token recipient amount w w' ok
    cases Except.ok.inj ok
    exact .refl _ _

def encodeTradeData (tradeData : TradeData) : List UInt8 :=
  encodeOrder tradeData.order ++ Abi.word tradeData.fill.amount ++ Abi.word tradeData.fill.price ++
    Abi.word tradeData.fill.fee ++ Abi.word (if tradeData.fill.isNegativeFee then 1 else 0) ++
    Abi.word tradeData.signature.r ++ Abi.word tradeData.signature.s ++
    Abi.word (tradeData.signature.vType.setWidth 256 <<< 240)

def sampleOrder : Order := ⟨1,10,5 * BaseMath.BASE,0,0,1,0,0⟩

def sampleFill : Entry :=
  .trade [1,2] [⟨1,0,9,encodeTradeData ⟨sampleOrder,⟨4,5 * BaseMath.BASE,0,false⟩,⟨0,0,0⟩⟩⟩]

def sampleDeployment : World (OrdersHost Unit) where
  perpetual := { Storage.deployed 3 with
    initialized := true
    balances := fun _ => ⟨true,false,1000,0⟩
    globalOperators := fun _ => true
    minCollateral := BaseMath.BASE }
  logs := []
  ext := ⟨constructor Crypto.sample P1Orders.EIP712_DOMAIN_NAME 7 1 9,[],()⟩

def sampleFilled : World (OrdersHost Unit) :=
  perform (ordersSample 100) ⟨2,100⟩ sampleFill (performApproveOrder Crypto.sample ⟨1,90⟩ sampleOrder sampleDeployment)

def sampleCanceled : World (OrdersHost Unit) :=
  perform (ordersSample 120) ⟨2,120⟩ sampleFill (performCancelOrder Crypto.sample ⟨1,110⟩ sampleOrder sampleFilled)

theorem sampleFillsExact :
    sampleFilled.ext.contract.status (getOrderHash Crypto.sample
      sampleDeployment.ext.contract.eip712DomainHash sampleOrder) = .Approved ∧
    sampleCanceled.ext.journal.length = 3 ∧
    ∃ since, FillsExact (getOrderHash Crypto.sample sampleDeployment.ext.contract.eip712DomainHash)
      {sampleOrder} sampleFilled.ext sampleCanceled.ext since := by
  have first : OrdersRun Crypto.sample 7 9 sampleDeployment sampleFilled :=
    .call (.approve .none ⟨1,90⟩ sampleOrder) (ordersSample 100) ⟨2,100⟩ sampleFill
      (sampleEnvironment ⟨2,100⟩)
  have last : OrdersRun Crypto.sample 7 9 sampleFilled sampleCanceled :=
    .call (.cancel .none ⟨1,110⟩ sampleOrder) (ordersSample 120) ⟨2,120⟩ sampleFill
      (sampleEnvironment ⟨2,120⟩)
  have listed : ∀ c ∈ sampleCanceled.ext.journal, c.order = sampleOrder := by decide +kernel
  have deployed : sampleDeployment.ext.contract =
      constructor Crypto.sample P1Orders.EIP712_DOMAIN_NAME 7 1 9 := rfl
  refine ⟨by decide +kernel,by decide +kernel,fillsExactAndCancelFinal deployed rfl first last ?_ ?_⟩
  · exact fun c mem => Set.mem_singleton_iff.mpr (listed c mem)
  · exact Set.injOn_singleton _ _

end Perpetual
