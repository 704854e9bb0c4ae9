import Mathlib.Data.List.Sort
import Perpetual.OrderBook
import Perpetual.PriceProtection
import Perpetual.TradeDataBytes

/-! `TradeOperation`: the fills of an operation as one call of `trade`, and what this call leaves
of the account that takes all of them. -/
namespace Perpetual
namespace TradeOperation
variable {σ : Type}

def accounts (trades : List OrderBook.TradeArg) : List Address :=
  ((trades.flatMap fun t => [t.maker,t.taker]).eraseDups).insertionSort fun a b => a.toNat ≤ b.toNat

def tradeArg (accounts : List Address) (t : OrderBook.TradeArg) : TradeArg where
  makerIndex := BitVec.ofNat 256 (accounts.idxOf t.maker)
  takerIndex := BitVec.ofNat 256 (accounts.idxOf t.taker)
  trader := t.trader
  data := encodeTradeData t.data

def commit (x : Externals σ) (msg : Msg) (trades : List OrderBook.TradeArg) (w : World σ) :
    Checked (World σ) := do
  Checked.require (trades ≠ []) "No tradeArgs have been added to trade"
  Trade.trade x msg (accounts trades) (trades.map (tradeArg (accounts trades))) w

theorem listed {trades : List OrderBook.TradeArg} {t : OrderBook.TradeArg} (mem : t ∈ trades) :
    t.maker ∈ accounts trades ∧ t.taker ∈ accounts trades := by
  simp only [accounts, List.mem_insertionSort, List.mem_eraseDups, List.mem_flatMap]
  exact ⟨⟨t,mem,List.mem_cons_self⟩,⟨t,mem,List.mem_cons_of_mem _ List.mem_cons_self⟩⟩

theorem addressesBounded {accounts : List Address} (unique : accounts.Nodup) :
    accounts.length ≤ 2 ^ 160 := by
  have numbers : (accounts.map BitVec.toNat).Nodup := unique.map fun _ _ => BitVec.eq_of_toNat_eq
  have below : accounts.map BitVec.toNat ⊆ List.range (2 ^ 160) := by
    intro n mem
    obtain ⟨a,_,rfl⟩ := List.mem_map.mp mem
    exact List.mem_range.mpr a.isLt
  have count := (numbers.subperm below).length_le
  rwa [List.length_map, List.length_range] at count

theorem indexed {accounts : List Address} (unique : accounts.Nodup) {a : Address} (mem : a ∈ accounts)
    {index : Uint256} (index' : index = BitVec.ofNat 256 (accounts.idxOf a)) :
    accounts[index.toNat]? = some a := by
  have inside := List.idxOf_lt_length_iff.mpr mem
  have small : accounts.idxOf a < 2 ^ 256 :=
    inside.trans_le ((addressesBounded unique).trans (Nat.pow_le_pow_right (by decide) (by decide)))
  rw [index', BitVec.toNat_ofNat, Nat.mod_eq_of_lt small, List.getElem?_eq_getElem inside,
    List.getElem_idxOf]

section
open Trade
variable {ρ : Type} {crypto : Crypto} {this ordersAddress operator : Address}
  {x : Externals (OrdersHost ρ)} {msg : Msg} {context : Context} {accounts : List Address}

def positionChange (operator : Address) (t : OrderBook.TradeArg) : Int :=
  if t.maker = operator then 0 else signed (!Orders.isBuy t.data.order) t.data.fill.amount.toNat

def fillMarginAmount (t : OrderBook.TradeArg) : Int :=
  t.data.fill.amount.toNat * P1Orders.fillMargin (Orders.isBuy t.data.order) t.data.fill / 10 ^ 18

def marginChange (operator : Address) (t : OrderBook.TradeArg) : Int :=
  if t.maker = operator then 0
  else if Orders.isBuy t.data.order then fillMarginAmount t else -fillMarginAmount t

theorem traderCharges
    (orders : ∀ call w, x.trade ordersAddress call w = ordersTrade crypto ⟨this,msg.timestamp⟩ call w)
    {call : TraderCall} {w w' : World (OrdersHost ρ)} {result : TradeResult}
    (ok : x.trade ordersAddress call w = .ok (result,w')) {t : OrderBook.TradeArg}
    (encoded : call.data = encodeTradeData t.data) :
    w'.perpetual = w.perpetual ∧ P1Orders.Costs (Orders.isBuy t.data.order) t.data.fill result := by
  rw [orders] at ok
  simp only [ordersTrade, Checked.bindOk, Prod.exists, Checked.pureOk, Prod.mk.injEq] at ok
  obtain ⟨result',contract,traded,tradeData,decoded,rfl,rfl⟩ := ok
  rw [encoded, TradeData.decodeEncode] at decoded
  obtain rfl := Except.ok.inj decoded
  refine ⟨rfl,(P1Orders.executed ?_ traded).2⟩
  rw [encoded, TradeData.decodeEncode]

structure Takes (operator : Address) (positions margins : Int) (accounts : List Address)
    (s s' : Batch (OrdersHost ρ)) : Prop where
  memory : s'.currentBalances = accounts.map s'.world.perpetual.balances
  position : (s'.world.perpetual.balances operator).positionInt =
    (s.world.perpetual.balances operator).positionInt + positions
  margin : (s'.world.perpetual.balances operator).marginInt =
    (s.world.perpetual.balances operator).marginInt + margins

theorem takesOne
    (orders : ∀ call w, x.trade ordersAddress call w = ordersTrade crypto ⟨this,msg.timestamp⟩ call w)
    (unique : accounts.Nodup) {t : OrderBook.TradeArg} (maker : t.maker ∈ accounts)
    (taker : t.taker ∈ accounts) (takes : t.taker = operator) (trader : t.trader = ordersAddress)
    {s s' : Batch (OrdersHost ρ)} (memory : s.currentBalances = accounts.map s.world.perpetual.balances)
    (ok : tradeOne x msg context accounts s (tradeArg accounts t) = .ok s') :
    Takes operator (positionChange operator t) (marginChange operator t) accounts s s' := by
  obtain ⟨m,k,result,w,isMaker,isTaker,called,moved,_⟩ := (traded ok).called
  have trader' : (tradeArg accounts t).trader = ordersAddress := trader
  rw [trader'] at called
  obtain ⟨kept,costs⟩ := traderCharges (t := t) orders called rfl
  have makerIndex : accounts[(tradeArg accounts t).makerIndex.toNat]? = some t.maker :=
    indexed unique maker rfl
  have takerIndex : accounts[(tradeArg accounts t).takerIndex.toNat]? = some t.taker :=
    indexed unique taker rfl
  obtain ⟨after,balances,flags⟩ := s'
  cases moved with
  | self atMaker atTaker =>
    have same : t.maker = operator := by
      rw [← takes]
      exact (Option.some.inj (makerIndex.symm.trans atMaker)).trans
        (Option.some.inj (atTaker.symm.trans takerIndex))
    refine ⟨by rw [kept]; exact memory,?_,?_⟩
    · rw [kept, positionChange, if_pos same, Int.add_zero]
    · rw [kept, marginChange, if_pos same, Int.add_zero]
  | @between _ _ mb tb mb' tb' _ atMaker atTaker different makerBalance takerBalance applied storage =>
    obtain rfl := Option.some.inj (makerIndex.symm.trans atMaker)
    obtain rfl := Option.some.inj (takerIndex.symm.trans atTaker)
    have other : t.maker ≠ operator := by rwa [← takes]
    rw [memory, List.getElem?_map, takerIndex] at takerBalance
    have before : tb = s.world.perpetual.balances operator := by
      rw [← takes]
      exact (Option.some.inj takerBalance).symm
    have after' : after.perpetual.balances operator = tb' := by
      rw [storage, ← takes]
      exact Function.update_self _ _ _
    have buys : result.isBuy = !Orders.isBuy t.data.order := costs.isBuy
    refine ⟨?_,?_,?_⟩
    · rw [storage, memory, kept]
      exact mapSetTwo unique s.world.perpetual.balances atMaker atTaker _ _
    · rw [after', applied.takerPosition, before, buys, costs.position, positionChange, if_neg other]
    · have amount : (result.marginAmount.toNat : Int) = fillMarginAmount t := costs.margin
      rw [after', applied.takerMargin, before, buys, marginChange, if_neg other, ← amount]
      cases Orders.isBuy t.data.order with
      | true => rw [Bool.not_true, Signed.negative, if_pos rfl, sub_neg_eq_add]
      | false => rw [Bool.not_false, Signed.positive, if_neg (by decide), sub_eq_add_neg]

theorem takesAll
    (orders : ∀ call w, x.trade ordersAddress call w = ordersTrade crypto ⟨this,msg.timestamp⟩ call w)
    (unique : accounts.Nodup) {trades : List OrderBook.TradeArg}
    (all : ∀ t ∈ trades, (t.maker ∈ accounts ∧ t.taker ∈ accounts) ∧
      t.taker = operator ∧ t.trader = ordersAddress)
    {s s' : Batch (OrdersHost ρ)} (memory : s.currentBalances = accounts.map s.world.perpetual.balances)
    (ok : (trades.map (tradeArg accounts)).foldlM (tradeOne x msg context accounts) s = .ok s') :
    Takes operator (trades.map (positionChange operator)).sum (trades.map (marginChange operator)).sum
      accounts s s' := by
  induction trades generalizing s with
  | nil =>
    obtain rfl : s = s' := by simpa using ok
    exact ⟨memory,(Int.add_zero _).symm,(Int.add_zero _).symm⟩
  | cons t rest ih =>
    rw [List.forall_mem_cons] at all
    obtain ⟨⟨⟨maker,taker⟩,takes,trader⟩,others⟩ := all
    simp only [List.map_cons, List.foldlM_cons, Checked.bindOk] at ok
    obtain ⟨mid,first,last⟩ := ok
    have now := takesOne orders unique maker taker takes trader memory first
    have later := ih others now.memory last
    refine ⟨later.memory,?_,?_⟩
    · rw [later.position, now.position, List.map_cons, List.sum_cons, Int.add_assoc]
    · rw [later.margin, now.margin, List.map_cons, List.sum_cons, Int.add_assoc]

end

theorem settledPositions {context : Context} {accounts : List Address} {w w' : World σ}
    {balances : List Balance} (h : Settlement.SettledAll context accounts w balances w') (a : Address) :
    (w'.perpetual.balances a).positionInt = (w.perpetual.balances a).positionInt := by
  induction h with
  | nil => rfl
  | @cons account _ _ _ _ _ _ head tail ih =>
    refine ih.trans ?_
    by_cases here : a = account
    · rw [here, head.here.1, Balance.positionInt, Balance.positionInt, head.position,
        head.positionIsPositive]
    · rw [(head.elsewhere here).1]

section
variable {ρ : Type} {crypto : Crypto} {this ordersAddress operator : Address}
  {x : Externals (OrdersHost ρ)} {msg : Msg}

theorem committed
    (orders : ∀ call w, x.trade ordersAddress call w = ordersTrade crypto ⟨this,msg.timestamp⟩ call w)
    {trades : List OrderBook.TradeArg}
    (all : ∀ t ∈ trades, t.taker = operator ∧ t.trader = ordersAddress) {w w' : World (OrdersHost ρ)}
    (ok : commit x msg trades w = .ok w') :
    ∃ context w₁ initialBalances w₂,
      Settlement.loadContext x msg (w.setStatus ENTERED) = .ok (context,w₁) ∧
      Settlement.settleAccounts context (accounts trades) w₁ = .ok (initialBalances,w₂) ∧
      (w'.perpetual.balances operator).positionInt = (w.perpetual.balances operator).positionInt +
        (trades.map (positionChange operator)).sum ∧
      (w'.perpetual.balances operator).marginInt = (w₂.perpetual.balances operator).marginInt +
        (trades.map (marginChange operator)).sum := by
  simp only [commit, Checked.bindOk, Checked.requireOk, exists_const] at ok
  cases batchTraded ok.2 with
  | @done context initialBalances w₁ w₂ batch live unique load settle start ran verified =>
    have takes := takesAll orders unique (fun t mem => ⟨listed mem,all t mem⟩) start.memory ran
    have position : (w₂.perpetual.balances operator).positionInt =
        (w.perpetual.balances operator).positionInt := by
      rw [settledPositions (Settlement.settledAll settle), (Settlement.loaded load).storage]
      rfl
    refine ⟨context,w₁,initialBalances,w₂,load,settle,?_,takes.margin⟩
    rw [← position]
    exact takes.position

end
end TradeOperation
end Perpetual
