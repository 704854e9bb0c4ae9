import Perpetual.Orders

/-! The history of an orders contract: every call that was committed, in order. What
was filled, cancelled and approved is read off this history. -/
namespace Perpetual

inductive OrderCall where
  | approve (sender : Address) (order : Order)
  | cancel (sender : Address) (order : Order)
  | fill (order : Order) (fill : Fill)
  deriving DecidableEq, Repr

namespace OrderCall

def order : OrderCall → Order
  | approve _ order => order
  | cancel _ order => order
  | fill order _ => order

def amountOf (hash : Order → Bytes32) (h : Bytes32) : OrderCall → Nat
  | .fill order f => if hash order = h then f.amount.toNat else 0
  | _ => 0

end OrderCall

namespace Orders

def filledBy (hash : Order → Bytes32) (h : Bytes32) (calls : List OrderCall) : Nat :=
  (calls.map (OrderCall.amountOf hash h)).sum

structure Code where
  verifyRequest : TradeData → Address → Address → Storage → Uint256 → Uint256 → Checked Unit
  tradeResult : TradeData → Checked TradeResult

def Code.trade (code : Code) : Crypto → Msg → Storage → TraderCall → OrdersContract →
    Checked (TradeResult × OrdersContract) := Orders.trade code.verifyRequest code.tradeResult

inductive Step (code : Code) (crypto : Crypto) : OrdersContract → OrderCall → OrdersContract → Prop where
  | approve {s s' : OrdersContract} (msg : Msg) (order : Order)
      (ok : approveOrder crypto msg order s = .ok s') : Step code crypto s (.approve msg.sender order) s'
  | cancel {s s' : OrdersContract} (msg : Msg) (order : Order)
      (ok : cancelOrder crypto msg order s = .ok s') : Step code crypto s (.cancel msg.sender order) s'
  | fill {s s' : OrdersContract} (msg : Msg) (perpetual : Storage) (call : TraderCall)
      (tradeData : TradeData) (result : TradeResult)
      (decoded : decodeTradeData call.data = .ok tradeData)
      (ok : code.trade crypto msg perpetual call s = .ok (result,s')) :
      Step code crypto s (.fill tradeData.order tradeData.fill) s'

inductive Steps (code : Code) (crypto : Crypto) (start : OrdersContract) :
    List OrderCall → OrdersContract → Prop where
  | none : Steps code crypto start [] start
  | more {calls : List OrderCall} {call : OrderCall} {s s' : OrdersContract}
      (before : Steps code crypto start calls s) (next : Step code crypto s call s') :
      Steps code crypto start (calls ++ [call]) s'

/-- A fill needs the maker's approval on chain, or an open order and a signer who is the maker. -/
def Permitted (crypto : Crypto) (s : OrdersContract) (tradeData : TradeData) (orderHash : Bytes32) : Prop :=
  s.status orderHash = .Approved ∨ s.status orderHash = .Open ∧
    TypedSignature.recover crypto orderHash tradeData.signature = .ok tradeData.order.maker

theorem permitted {crypto : Crypto} {s : OrdersContract} {tradeData : TradeData} {orderHash : Bytes32}
    {u : Unit} (ok : verifyOrderStateAndSignature crypto s tradeData orderHash = .ok u) :
    Permitted crypto s tradeData orderHash := by
  unfold verifyOrderStateAndSignature at ok
  cases status : s.status orderHash with
  | Open =>
    simp only [status, Checked.bindOk, Checked.requireOk] at ok
    obtain ⟨signer,recovered,rfl⟩ := ok
    exact .inr ⟨status,recovered⟩
  | Approved => exact .inl status
  | Canceled => simp [status] at ok

structure Filled (crypto : Crypto) (s : OrdersContract) (tradeData : TradeData) (s' : OrdersContract)
    (orderHash : Bytes32) : Prop where
  permitted : Permitted crypto s tradeData orderHash
  bounded : (s'.filledAmount orderHash).toNat ≤ tradeData.order.amount.toNat
  filled : (s'.filledAmount orderHash).toNat =
    (s.filledAmount orderHash).toNat + tradeData.fill.amount.toNat
  elsewhere : ∀ h ≠ orderHash, s'.filledAmount h = s.filledAmount h
  status : s'.status = s.status
  domain : s'.eip712DomainHash = s.eip712DomainHash

theorem tradeOk {verifyRequest : TradeData → Address → Address → Storage → Uint256 → Uint256 → Checked Unit}
    {result : TradeData → Checked TradeResult} {crypto : Crypto} {msg : Msg} {perpetual : Storage}
    {call : TraderCall} {s s' : OrdersContract} {tradeData : TradeData} {out : TradeResult}
    (decoded : decodeTradeData call.data = .ok tradeData)
    (ok : trade verifyRequest result crypto msg perpetual call s = .ok (out,s')) :
    verifyRequest tradeData call.maker call.taker perpetual msg.timestamp call.price = .ok () ∧
      result tradeData = .ok out := by
  simp only [trade, Checked.bindOk, Checked.requireOk, exists_const, Checked.pureOk, Prod.mk.injEq] at ok
  obtain ⟨_,_,tradeData',same,_,_,_,valid,_,_,_,out',computed,rfl,_⟩ := ok
  obtain rfl := Except.ok.inj (decoded.symm.trans same)
  exact ⟨valid,computed⟩

theorem filled {code : Code} {crypto : Crypto} {msg : Msg} {perpetual : Storage} {call : TraderCall}
    {s s' : OrdersContract} {tradeData : TradeData} {result : TradeResult}
    (decoded : decodeTradeData call.data = .ok tradeData)
    (ok : code.trade crypto msg perpetual call s = .ok (result,s')) :
    Filled crypto s tradeData s' (getOrderHash crypto s.eip712DomainHash tradeData.order) := by
  simp only [Code.trade, trade, Checked.bindOk, Checked.requireOk, exists_const, Checked.pureOk,
    Prod.mk.injEq, SafeMath.addOk] at ok
  obtain ⟨_,_,tradeData',same,u,state,_,_,filled,sum,bounded,_,_,_,rfl⟩ := ok
  rw [decoded] at same
  obtain rfl := Except.ok.inj same
  refine ⟨permitted state,?_,?_,fun h away => Function.update_of_ne away _ _,rfl,rfl⟩
  · simpa only [Function.update_self] using bounded
  · simpa only [Function.update_self] using sum

structure Moved (crypto : Crypto) (s : OrdersContract) (sender : Address) (order : Order)
    (status : OrderStatus) (s' : OrdersContract) : Prop where
  maker : sender = order.maker
  status : s'.status = Function.update s.status (getOrderHash crypto s.eip712DomainHash order) status
  filledAmount : s'.filledAmount = s.filledAmount
  domain : s'.eip712DomainHash = s.eip712DomainHash

theorem approved {crypto : Crypto} {msg : Msg} {order : Order} {s s' : OrdersContract}
    (ok : approveOrder crypto msg order s = .ok s') : Moved crypto s msg.sender order .Approved s' ∧
      s.status (getOrderHash crypto s.eip712DomainHash order) ≠ .Canceled := by
  simp only [approveOrder, Checked.bindOk, Checked.requireOk, exists_const, Checked.pureOk] at ok
  obtain ⟨maker,open',rfl⟩ := ok
  exact ⟨⟨maker,rfl,rfl,rfl⟩,open'⟩

theorem canceled {crypto : Crypto} {msg : Msg} {order : Order} {s s' : OrdersContract}
    (ok : cancelOrder crypto msg order s = .ok s') : Moved crypto s msg.sender order .Canceled s' := by
  simp only [cancelOrder, Checked.bindOk, Checked.requireOk, exists_const, Checked.pureOk] at ok
  obtain ⟨maker,rfl⟩ := ok
  exact ⟨maker,rfl,rfl,rfl⟩

section
variable {code : Code} {crypto : Crypto}

theorem stepDomain {s s' : OrdersContract} {call : OrderCall} (step : Step code crypto s call s') :
    s'.eip712DomainHash = s.eip712DomainHash := by
  cases step with
  | approve msg order ok => exact (approved ok).1.domain
  | cancel msg order ok => exact (canceled ok).domain
  | fill msg perpetual call tradeData result decoded ok => exact (filled decoded ok).domain

theorem stepsDomain {s s' : OrdersContract} {calls : List OrderCall}
    (steps : Steps code crypto s calls s') : s'.eip712DomainHash = s.eip712DomainHash := by
  induction steps with
  | none => rfl
  | more before next ih => exact (stepDomain next).trans ih

theorem Steps.trans {s t u : OrdersContract} {first last : List OrderCall}
    (before : Steps code crypto s first t) (after : Steps code crypto t last u) :
    Steps code crypto s (first ++ last) u := by
  induction after with
  | none => rwa [List.append_nil]
  | more _ next ih =>
    rw [← List.append_assoc]
    exact .more ih next

theorem stepFilled {s s' : OrdersContract} {call : OrderCall} (step : Step code crypto s call s')
    (h : Bytes32) : (s'.filledAmount h).toNat =
      (s.filledAmount h).toNat + call.amountOf (getOrderHash crypto s.eip712DomainHash) h := by
  cases step with
  | approve msg order ok => rw [(approved ok).1.filledAmount]; rfl
  | cancel msg order ok => rw [(canceled ok).filledAmount]; rfl
  | fill msg perpetual call tradeData result decoded ok =>
    have done := filled decoded ok
    simp only [OrderCall.amountOf]
    split
    · rename_i here
      rw [← here, done.filled]
    · rename_i away
      rw [done.elsewhere h (Ne.symm away), Nat.add_zero]

theorem stepsFilled {s s' : OrdersContract} {calls : List OrderCall}
    (steps : Steps code crypto s calls s') (h : Bytes32) : (s'.filledAmount h).toNat =
      (s.filledAmount h).toNat + filledBy (getOrderHash crypto s.eip712DomainHash) h calls := by
  induction steps with
  | none => rfl
  | more before next ih =>
    rw [stepFilled next h, ih, stepsDomain before]
    simp only [filledBy, List.map_append, List.sum_append, List.map_cons, List.map_nil,
      List.sum_cons, List.sum_nil]
    omega

theorem stepsBounded {inPlay : Set Order} {s s' : OrdersContract} {calls : List OrderCall}
    (steps : Steps code crypto s calls s')
    (injective : Set.InjOn (getOrderHash crypto s.eip712DomainHash) inPlay)
    (inside : ∀ c ∈ calls, c.order ∈ inPlay) (start : ∀ h, s.filledAmount h = 0) :
    ∀ o ∈ inPlay, (s'.filledAmount (getOrderHash crypto s.eip712DomainHash o)).toNat ≤ o.amount.toNat := by
  induction steps with
  | none =>
    intro o _
    rw [start]
    exact Nat.zero_le _
  | @more calls call t t' before next ih =>
    intro o mem
    have earlier := ih (fun c m => inside c (List.mem_append_left _ m)) o mem
    cases next with
    | approve msg order ok => rw [(approved ok).1.filledAmount]; exact earlier
    | cancel msg order ok => rw [(canceled ok).filledAmount]; exact earlier
    | fill msg perpetual call tradeData result decoded ok =>
      have done := filled decoded ok
      rw [stepsDomain before] at done
      have listed : tradeData.order ∈ inPlay :=
        inside _ (List.mem_append_right _ (List.mem_singleton.mpr rfl))
      by_cases here : getOrderHash crypto s.eip712DomainHash o =
          getOrderHash crypto s.eip712DomainHash tradeData.order
      · rw [injective mem listed here]
        exact done.bounded
      · rw [done.elsewhere _ here]
        exact earlier

theorem stepStatus {s s' : OrdersContract} {call : OrderCall} (step : Step code crypto s call s')
    {h : Bytes32} (changed : s'.status h ≠ s.status h) : ∃ o,
    getOrderHash crypto s.eip712DomainHash o = h ∧
      (call = .approve o.maker o ∨ call = .cancel o.maker o) := by
  cases step with
  | approve msg order ok =>
    have done := (approved ok).1
    refine ⟨order,?_,.inl (by rw [done.maker])⟩
    by_contra away
    exact changed (by rw [done.status, Function.update_of_ne (Ne.symm away)])
  | cancel msg order ok =>
    have done := canceled ok
    refine ⟨order,?_,.inr (by rw [done.maker])⟩
    by_contra away
    exact changed (by rw [done.status, Function.update_of_ne (Ne.symm away)])
  | fill msg perpetual call tradeData result decoded ok =>
    exact absurd (congrFun (filled decoded ok).status h) changed

theorem stepsStatus {s s' : OrdersContract} {calls : List OrderCall}
    (steps : Steps code crypto s calls s') {h : Bytes32} (changed : s'.status h ≠ s.status h) : ∃ o,
    getOrderHash crypto s.eip712DomainHash o = h ∧
      (.approve o.maker o ∈ calls ∨ .cancel o.maker o ∈ calls) := by
  induction steps with
  | none => exact absurd rfl changed
  | @more calls call t t' before next ih =>
    by_cases same : t.status h = s.status h
    · rw [← same] at changed
      obtain ⟨o,hash,how⟩ := stepStatus next changed
      rw [stepsDomain before] at hash
      refine ⟨o,hash,how.imp ?_ ?_⟩ <;> rintro rfl <;>
        exact List.mem_append_right _ (List.mem_singleton.mpr rfl)
    · obtain ⟨o,hash,how⟩ := ih same
      exact ⟨o,hash,how.imp (List.mem_append_left _) (List.mem_append_left _)⟩

theorem stepCancels {s s' : OrdersContract} {call : OrderCall} (step : Step code crypto s call s')
    {sender : Address} {order : Order} (same : call = .cancel sender order) :
    s'.status (getOrderHash crypto s.eip712DomainHash order) = .Canceled := by
  cases step with
  | approve | fill => cases same
  | cancel msg order ok =>
    cases same
    rw [(canceled ok).status, Function.update_self]

theorem stepCanceled {s s' : OrdersContract} {call : OrderCall} (step : Step code crypto s call s')
    {h : Bytes32} (canceled' : s.status h = .Canceled) : s'.status h = .Canceled ∧
      ∀ o f, call = .fill o f → getOrderHash crypto s.eip712DomainHash o ≠ h := by
  cases step with
  | approve msg order ok =>
    obtain ⟨done,live⟩ := approved ok
    have away : h ≠ getOrderHash crypto s.eip712DomainHash order := fun same => live (same ▸ canceled')
    exact ⟨by rw [done.status, Function.update_of_ne away, canceled'],nofun⟩
  | cancel msg order ok =>
    have done := canceled ok
    refine ⟨?_,nofun⟩
    rw [done.status]
    by_cases here : h = getOrderHash crypto s.eip712DomainHash order
    · rw [here, Function.update_self]
    · rw [Function.update_of_ne here, canceled']
  | fill msg perpetual call tradeData result decoded ok =>
    have done := filled decoded ok
    refine ⟨by rw [done.status, canceled'],?_⟩
    intro o f same hash
    cases same
    rw [hash] at done
    rcases done.permitted with yes | ⟨yes,_⟩ <;> rw [canceled'] at yes <;> cases yes

theorem stepsCanceled {s s' : OrdersContract} {calls : List OrderCall}
    (steps : Steps code crypto s calls s') {h : Bytes32} (canceled' : s.status h = .Canceled) :
    s'.status h = .Canceled ∧
      ∀ o f, .fill o f ∈ calls → getOrderHash crypto s.eip712DomainHash o ≠ h := by
  induction steps with
  | none => exact ⟨canceled',nofun⟩
  | more before next ih =>
    obtain ⟨still,none⟩ := ih
    obtain ⟨last,fresh⟩ := stepCanceled next still
    rw [stepsDomain before] at fresh
    refine ⟨last,fun o f mem => ?_⟩
    rcases List.mem_append.mp mem with earlier | now
    · exact none o f earlier
    · exact fresh o f (List.mem_singleton.mp now).symm

theorem stepsApproved {s s' : OrdersContract} {calls : List OrderCall}
    (steps : Steps code crypto s calls s') {sender : Address} {order : Order}
    (mem : .approve sender order ∈ calls) :
    s'.status (getOrderHash crypto s.eip712DomainHash order) ≠ .Open := by
  induction steps with
  | none => cases mem
  | @more calls call t t' before next ih =>
    have closed : t.status (getOrderHash crypto s.eip712DomainHash order) ≠ .Open →
        t'.status (getOrderHash crypto s.eip712DomainHash order) ≠ .Open := by
      intro earlier
      cases next with
      | approve msg other ok =>
        rw [(approved ok).1.status, Function.update_apply]
        split
        · nofun
        · exact earlier
      | cancel msg other ok =>
        rw [(canceled ok).status, Function.update_apply]
        split
        · nofun
        · exact earlier
      | fill msg perpetual call tradeData result decoded ok =>
        rw [(filled decoded ok).status]
        exact earlier
    rcases List.mem_append.mp mem with earlier | now
    · exact closed (ih earlier)
    · obtain rfl := (List.mem_singleton.mp now)
      cases next with
      | approve msg other ok =>
        rw [(approved ok).1.status, stepsDomain before, Function.update_self]
        nofun

theorem stepsApproval {s s' : OrdersContract} {calls : List OrderCall}
    (steps : Steps code crypto s calls s') (start : ∀ h, s.status h = .Open) {h : Bytes32}
    (now : s'.status h = .Approved) : ∃ o, getOrderHash crypto s.eip712DomainHash o = h ∧
      .approve o.maker o ∈ calls := by
  induction steps with
  | none => rw [start] at now; cases now
  | @more calls call t t' before next ih =>
    by_cases same : t'.status h = t.status h
    · obtain ⟨o,hash,mem⟩ := ih (same ▸ now)
      exact ⟨o,hash,List.mem_append_left _ mem⟩
    · obtain ⟨o,hash,how⟩ := stepStatus next same
      rcases how with approval | cancellation
      · rw [stepsDomain before] at hash
        exact ⟨o,hash,List.mem_append_right _ (List.mem_singleton.mpr approval.symm)⟩
      · have closed := stepCancels next cancellation
        rw [hash, now] at closed
        cases closed

end
end Orders

def P1Orders.code : Orders.Code := ⟨P1Orders.verifyOrderRequest,P1Orders.tradeResult⟩

def P1InverseOrders.code : Orders.Code :=
  ⟨P1InverseOrders.verifyOrderRequest,P1InverseOrders.tradeResult⟩

end Perpetual
