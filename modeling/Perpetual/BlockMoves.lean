import Perpetual.Passes

/-! What calls in one block do to the balances. The first of them moves the index to the time of
the block, and an account that was settled to it pays no funding again. -/
namespace Perpetual
open Settlement
variable {σ : Type}

def Current (msg : Msg) (s : Storage) : Prop := s.globalIndex.timestamp.toNat = msg.timestamp.toNat

structure FundedTo (s : Storage) (index : Index) (account : Address) (b : Balance) : Prop where
  position : b.positionInt = (s.balances account).positionInt
  same : (s.localIndexes account).timestamp = index.timestamp → b = s.balances account
  funding : (s.localIndexes account).timestamp ≠ index.timestamp →
    let exact := 10 ^ 18 * (s.balances account).marginInt -
      (index.toInt - (s.localIndexes account).toInt) * (s.balances account).positionInt
    10 ^ 18 * b.marginInt ≤ exact ∧ exact < 10 ^ 18 * b.marginInt + 10 ^ 18

theorem FundedTo.ofEq {s t : Storage} {index : Index} {account : Address} {b : Balance}
    (h : FundedTo t index account b) (balances : t.balances account = s.balances account)
    (indexes : t.localIndexes account = s.localIndexes account) : FundedTo s index account b := by
  obtain ⟨position,same,funding⟩ := h
  rw [balances] at position same funding
  rw [indexes] at same funding
  exact ⟨position,same,funding⟩

theorem Settlement.Settled.funded {context : Context} {account : Address} {w w' : World σ} {b : Balance}
    (h : Settled context account w b w') : FundedTo w.perpetual context.index account b := by
  refine ⟨?_,fun timed => ?_,h.funding⟩
  · rw [Balance.positionInt, Balance.positionInt, h.position, h.positionIsPositive]
  · obtain ⟨index,_,_,⟨_,_,same⟩ | ⟨untimed,_⟩⟩ := h.storage
    · exact same
    · exact absurd timed untimed

theorem Settlement.SettledAll.funded {context : Context} {accounts : List Address} {w w' : World σ}
    {balances : List Balance} (h : SettledAll context accounts w balances w') (unique : accounts.Nodup) :
    ∀ a ∈ accounts, FundedTo w.perpetual context.index a (w'.perpetual.balances a) := by
  intro a mem
  obtain ⟨u,v,b,settled,before,balances,_⟩ := h.each unique mem
  rw [balances, settled.here.1]
  exact settled.funded.ofEq before.1 before.2

theorem Settlement.SettledAll.oracle {context : Context} {accounts : List Address} {w w' : World σ}
    {balances : List Balance} (h : SettledAll context accounts w balances w') :
    w'.perpetual.oracle = w.perpetual.oracle := by
  refine h.same (fun w => w.perpetual.oracle) fun head => ?_
  obtain ⟨index,same,_⟩ := head.storage
  rw [same]
  rfl

/-- What happened to one account: nothing, or its funding and then the given changes. -/
inductive AccountMoved (s t : Storage) (account : Address) : (margin position : Int) → Prop where
  | untouched (balances : t.balances account = s.balances account)
      (indexes : t.localIndexes account = s.localIndexes account) : AccountMoved s t account 0 0
  | settled {margin position : Int} {b : Balance} (funded : FundedTo s t.globalIndex account b)
      (timed : (t.localIndexes account).timestamp = t.globalIndex.timestamp)
      (marginMoved : (t.balances account).marginInt = b.marginInt + margin)
      (positionMoved : (t.balances account).positionInt = b.positionInt + position) :
      AccountMoved s t account margin position

theorem AccountMoved.trans {s t u : Storage} {account : Address} {margin margin' position position' : Int}
    (first : AccountMoved s t account margin position) (last : AccountMoved t u account margin' position')
    (index : u.globalIndex = t.globalIndex) :
    AccountMoved s u account (margin + margin') (position + position') := by
  cases first with
  | untouched balances indexes =>
    rw [Int.zero_add, Int.zero_add]
    cases last with
    | untouched balances' indexes' =>
      exact .untouched (balances'.trans balances) (indexes'.trans indexes)
    | settled funded timed marginMoved positionMoved =>
      exact .settled (funded.ofEq balances indexes) timed marginMoved positionMoved
  | @settled _ _ b funded timed marginMoved positionMoved =>
    rw [← index] at funded timed
    cases last with
    | untouched balances' indexes' =>
      rw [Int.add_zero, Int.add_zero]
      rw [← balances'] at marginMoved positionMoved
      rw [← indexes'] at timed
      exact .settled funded timed marginMoved positionMoved
    | @settled _ _ b' funded' timed' marginMoved' positionMoved' =>
      obtain rfl := funded'.same timed
      exact .settled funded timed' (by omega) (by omega)

structure BlockMoves (msg : Msg) (s t : Storage) (margin position : Address → Int) : Prop where
  current : Current msg t
  index : Current msg s → t.globalIndex = s.globalIndex
  oracle : t.oracle = s.oracle
  moved : ∀ a, AccountMoved s t a (margin a) (position a)

theorem BlockMoves.trans {msg : Msg} {s t u : Storage} {margin margin' position position' : Address → Int}
    (first : BlockMoves msg s t margin position) (last : BlockMoves msg t u margin' position') :
    BlockMoves msg s u (fun a => margin a + margin' a) (fun a => position a + position' a) where
  current := last.current
  index := fun now => (last.index first.current).trans (first.index now)
  oracle := last.oracle.trans first.oracle
  moved := fun a => (first.moved a).trans (last.moved a) (last.index first.current)

theorem BlockMoves.refl {msg : Msg} {s : Storage} (current : Current msg s) :
    BlockMoves msg s s (fun _ => 0) (fun _ => 0) where
  current := current
  index := fun _ => rfl
  oracle := rfl
  moved := fun _ => .untouched rfl rfl

theorem BlockMoves.congr {msg : Msg} {s t : Storage} {margin margin' position position' : Address → Int}
    (h : BlockMoves msg s t margin position) (sameMargin : ∀ a, margin a = margin' a)
    (samePosition : ∀ a, position a = position' a) : BlockMoves msg s t margin' position' := by
  rw [← funext sameMargin, ← funext samePosition]
  exact h

theorem AccountMoved.position {s t : Storage} {account : Address} {margin position : Int}
    (h : AccountMoved s t account margin position) :
    (t.balances account).positionInt = (s.balances account).positionInt + position := by
  cases h with
  | untouched balances indexes => rw [balances, Int.add_zero]
  | settled funded timed marginMoved positionMoved => rw [positionMoved, funded.position]

theorem AccountMoved.margin {s t : Storage} {account : Address} {margin position : Int}
    (h : AccountMoved s t account margin position)
    (timed : (s.localIndexes account).timestamp = t.globalIndex.timestamp) :
    (t.balances account).marginInt = (s.balances account).marginInt + margin := by
  cases h with
  | untouched balances indexes => rw [balances, Int.add_zero]
  | settled funded _ marginMoved positionMoved => rw [marginMoved, funded.same timed]

section
variable {allow : σ → σ → Prop} {x : Externals σ} {msg : Msg} {w w' : World σ}

theorem loadedCurrent {context : Context} (ok : loadContext x msg w = .ok (context,w')) :
    context.index.timestamp.toNat = msg.timestamp.toNat ∧
      (Current msg w.perpetual → context.index = w.perpetual.globalIndex) := by
  simp only [loadContext, currentIndex, Checked.bindOk, Checked.pureOk, Prod.mk.injEq, SafeMath.subOk,
    widenNat32] at ok
  obtain ⟨price,_,index,⟨timeDelta,delta,moved⟩,rfl,rfl⟩ := ok
  unfold Current
  split at moved
  · rename_i passed
    simp only [Checked.bindOk, Prod.exists, Checked.pureOk, SafeCast.toUint32, SafeCast.toUintOk] at moved
    obtain ⟨_,_,_,_,_,_,_,time,same,_,_,rfl⟩ := moved
    exact ⟨same,fun now => by omega⟩
  · obtain rfl := Checked.pureOk.mp moved
    exact ⟨by dsimp only; omega,fun _ => rfl⟩

theorem oneMoved {context : Context} {account : Address} {balance out : Balance} {amount : Int} {w₁ w₂ w₃ : World σ}
    (load : loadContext x msg (w.setStatus ENTERED) = .ok (context,w₁))
    (settle : Settled context account w₁ balance w₂) (kept : Untouched w₂.perpetual w₃.perpetual)
    (moved : Balance.MarginMoved balance out amount) :
    let t := { w₃.perpetual.setBalance account out with status := NOT_ENTERED }
    BlockMoves msg w.perpetual t (fun a => if a = account then amount else 0) (fun _ => 0) ∧
      (t.localIndexes account).timestamp = t.globalIndex.timestamp := by
  obtain ⟨now,still⟩ := loadedCurrent load
  have storage := (loaded load).storage
  have global : w₃.perpetual.globalIndex = context.index := by
    obtain ⟨index,same,_⟩ := settle.storage
    rw [kept.globalIndex, same]
    exact congrArg Storage.globalIndex storage
  have oracle : w₃.perpetual.oracle = w.perpetual.oracle := by
    obtain ⟨index,same,_⟩ := settle.storage
    rw [kept.oracle, same]
    change w₁.perpetual.oracle = _
    rw [storage]
    rfl
  have atStart (a : Address) : w₁.perpetual.balances a = w.perpetual.balances a ∧
      w₁.perpetual.localIndexes a = w.perpetual.localIndexes a := by
    rw [storage]
    exact ⟨rfl,rfl⟩
  have timed : (w₃.perpetual.localIndexes account).timestamp = w₃.perpetual.globalIndex.timestamp := by
    rw [kept.localIndexes, global]
    exact settle.here.2
  refine ⟨⟨?_,fun before => ?_,oracle,fun a => ?_⟩,timed⟩
  · exact (congrArg (fun index : Index => index.timestamp.toNat) global).trans now
  · exact global.trans (still before)
  · by_cases here : a = account
    · subst here
      rw [if_pos rfl]
      refine .settled (b := balance) ?_ timed ?_ ?_
      · exact (global ▸ settle.funded).ofEq (atStart a).1 (atStart a).2
      · change (Function.update w₃.perpetual.balances a out a).marginInt = _
        rw [Function.update_self, moved.margin]
      · change (Function.update w₃.perpetual.balances a out a).positionInt = _
        rw [Function.update_self, moved.positionInt, Int.add_zero]
    · rw [if_neg here]
      have away := settle.elsewhere here
      refine .untouched ?_ ?_
      · change Function.update w₃.perpetual.balances account out a = _
        rw [Function.update_of_ne here, kept.balances, away.1, (atStart a).1]
      · change w₃.perpetual.localIndexes a = _
        rw [kept.localIndexes, away.2, (atStart a).2]

theorem depositMoves (honest : Honest allow x) {account : Address} {amount : Uint256}
    (ok : exec x msg (.deposit account amount) w = .ok w') :
    BlockMoves msg w.perpetual w'.perpetual (fun a => if a = account then amount.toNat else 0) (fun _ => 0) ∧
      (w'.perpetual.localIndexes account).timestamp = w'.perpetual.globalIndex.timestamp := by
  obtain ⟨_,guarded⟩ := noFinalSettlementOk.mp ok
  obtain ⟨_,mid,body,rfl⟩ := nonReentrantOk.mp guarded
  simp only [Checked.bindOk, Prod.exists, Checked.pureOk] at body
  obtain ⟨context,w₁,load,balance,w₂,settle,w₃,pull,out,add,rfl⟩ := body
  have entered : w₂.perpetual.status = ENTERED := (settled settle).status.trans (loaded load).status
  have kept := (honest.pulls _ _ _ _ _ pull).untouched entered
  exact oneMoved load (settled settle) kept (Balance.addToMarginMoved add)

theorem withdrawMoves (honest : Honest allow x) {account destination : Address} {amount : Uint256}
    (ok : exec x msg (.withdraw account destination amount) w = .ok w') :
    BlockMoves msg w.perpetual w'.perpetual (fun a => if a = account then -amount.toNat else 0)
      (fun _ => 0) := by
  cases withdrawn ok with
  | @done context balance out w₁ w₂ w₃ live permission load settle push moved collateralized =>
    have entered : w₂.perpetual.status = ENTERED := settle.status.trans (loaded load).status
    exact (oneMoved load settle ((honest.pushes _ _ _ _ _ push).untouched entered) moved).1

theorem tradeMoves (honest : Honest allow x) {accounts : List Address} {tradeArg : TradeArg}
    {maker taker : Address} (atMaker : accounts[tradeArg.makerIndex.toNat]? = some maker)
    (atTaker : accounts[tradeArg.takerIndex.toNat]? = some taker) (different : maker ≠ taker)
    (pair : ∀ a ∈ accounts, a = maker ∨ a = taker)
    (ok : exec x msg (.trade accounts [tradeArg]) w = .ok w') :
    ∃ (context : Context) (s mid : World σ) (result : TradeResult),
    x.trade tradeArg.trader ⟨msg.sender,maker,taker,context.price,tradeArg.data,0⟩ s = .ok (result,mid) ∧
    Trade.Applied result (s.perpetual.balances maker) (s.perpetual.balances taker)
      (w'.perpetual.balances maker) (w'.perpetual.balances taker) ∧
    BlockMoves msg w.perpetual w'.perpetual
      (fun a => if a = maker then signed result.isBuy result.marginAmount.toNat
        else if a = taker then -signed result.isBuy result.marginAmount.toNat else 0)
      (fun a => if a = maker then -signed result.isBuy result.positionAmount.toNat
        else if a = taker then signed result.isBuy result.positionAmount.toNat else 0) := by
  cases batchTraded ok with
  | @done context initialBalances w₁ w₂ batch live unique load settle start ran verified =>
    have pass : Trade.tradeOne x msg context accounts ⟨w₂,initialBalances,0⟩ tradeArg = .ok batch := by
      simpa only [Trade.runTrades, List.foldlM_cons, List.foldlM_nil, bind_pure] using ran
    have exchange := Trade.exchanged honest.traders start atMaker atTaker different pass
    obtain ⟨result,mid,called,applied⟩ := exchange.called
    obtain ⟨now,still⟩ := loadedCurrent load
    have storage := (loaded load).storage
    have settles := settledAll settle
    have global : batch.world.perpetual.globalIndex = context.index := exchange.globalIndex.trans start.index
    have atStart (a : Address) : w₁.perpetual.balances a = w.perpetual.balances a ∧
        w₁.perpetual.localIndexes a = w.perpetual.localIndexes a := by
      rw [storage]
      exact ⟨rfl,rfl⟩
    have listed (a : Address) (mem : a ∈ accounts) :
        FundedTo w.perpetual batch.world.perpetual.globalIndex a (w₂.perpetual.balances a) ∧
        (batch.world.perpetual.localIndexes a).timestamp = batch.world.perpetual.globalIndex.timestamp := by
      refine ⟨(global ▸ settles.funded unique a mem).ofEq (atStart a).1 (atStart a).2,?_⟩
      rw [exchange.localIndexes, global]
      exact start.timed a mem
    refine ⟨context,w₂,mid,result,called,applied,?_,fun before => ?_,?_,fun a => ?_⟩
    · exact (congrArg (fun index : Index => index.timestamp.toNat) global).trans now
    · exact global.trans (still before)
    · change batch.world.perpetual.oracle = _
      rw [exchange.oracle, settles.oracle, storage]
      rfl
    · by_cases isMaker : a = maker
      · subst isMaker
        obtain ⟨funded,timed⟩ := listed a (List.mem_of_getElem? atMaker)
        rw [if_pos rfl, if_pos rfl]
        exact .settled funded timed applied.makerMargin (applied.makerPosition.trans (Int.sub_eq_add_neg))
      · rw [if_neg isMaker, if_neg isMaker]
        by_cases isTaker : a = taker
        · subst isTaker
          obtain ⟨funded,timed⟩ := listed a (List.mem_of_getElem? atTaker)
          rw [if_pos rfl, if_pos rfl]
          exact .settled funded timed (applied.takerMargin.trans (Int.sub_eq_add_neg)) applied.takerPosition
        · rw [if_neg isTaker, if_neg isTaker]
          have away := settles.elsewhere fun mem => (pair a mem).elim isMaker isTaker
          refine .untouched ?_ ?_
          · exact (exchange.elsewhere a isMaker isTaker).trans (away.1.trans (atStart a).1)
          · exact (congrFun exchange.localIndexes a).trans (away.2.trans (atStart a).2)

end
end Perpetual
