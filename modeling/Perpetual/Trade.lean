import Perpetual.Margin
import Mathlib.Data.List.Pairwise

/-! `P1Trade`: a batch of trades between settled accounts. The batch keeps its own
array of balances by index and writes the storage by address after each trade. -/
namespace Perpetual

namespace Require

def char (input : Nat) : Char :=
  let b := input % 16
  Char.ofNat (b + if b < 10 then 0x30 else 0x57)

def hex8 (z : Nat) : String :=
  String.ofList ([28,24,20,16,12,8,4,0].map fun shift => char (z >>> shift))

def stringify (input : Address) : String :=
  ": 0x" ++ hex8 (input.toNat >>> 128) ++ "..." ++ hex8 input.toNat

def that (must : Prop) [Decidable must] (reason : String) (addr : Address) : Checked Unit :=
  Checked.require must (reason ++ stringify addr)

end Require

structure TradeArg where
  takerIndex : Uint256
  makerIndex : Uint256
  trader : Address
  data : List UInt8
  deriving DecidableEq, Repr

namespace Trade
open Settlement
variable {σ : Type}

def sortedAfter (prevAccount : Address) : List Address → Checked Unit
  | [] => .ok ()
  | account::rest => do
      Checked.require (prevAccount.toNat < account.toNat) "Accounts must be sorted and unique"
      sortedAfter account rest

def verifyAccounts : List Address → Checked Unit
  | [] => .error "Accounts must have non-zero length"
  | first::rest => sortedAfter first rest

structure Batch (σ : Type) where
  world : World σ
  currentBalances : List Balance
  traderFlags : Bytes32

/-- The new balances of maker and taker. `isBuy` is from the taker's perspective. -/
def applyResult (result : TradeResult) (makerBalance takerBalance : Balance) :
    Checked (Balance × Balance) := do
  if result.isBuy then
    let makerBalance ← makerBalance.addToMargin result.marginAmount
    let makerBalance ← makerBalance.subFromPosition result.positionAmount
    let takerBalance ← takerBalance.subFromMargin result.marginAmount
    let takerBalance ← takerBalance.addToPosition result.positionAmount
    return (makerBalance,takerBalance)
  else
    let makerBalance ← makerBalance.subFromMargin result.marginAmount
    let makerBalance ← makerBalance.addToPosition result.positionAmount
    let takerBalance ← takerBalance.addToMargin result.marginAmount
    let takerBalance ← takerBalance.subFromPosition result.positionAmount
    return (makerBalance,takerBalance)

def tradeOne (x : Externals σ) (msg : Msg) (context : Context) (accounts : List Address)
    (s : Batch σ) (tradeArg : TradeArg) : Checked (Batch σ) := do
  Checked.require (s.world.perpetual.globalOperators tradeArg.trader = true)
    "trader is not global operator"
  let maker ← Checked.at? accounts tradeArg.makerIndex.toNat
  let taker ← Checked.at? accounts tradeArg.takerIndex.toNat
  let (tradeResult,w) ← x.trade tradeArg.trader
    ⟨msg.sender,maker,taker,context.price,tradeArg.data,s.traderFlags⟩ s.world
  let traderFlags := s.traderFlags ||| tradeResult.traderFlags
  -- a self-trade calls the trader but moves no balance
  if maker = taker then
    return ⟨w,s.currentBalances,traderFlags⟩
  else
    let makerBalance ← Checked.at? s.currentBalances tradeArg.makerIndex.toNat
    let takerBalance ← Checked.at? s.currentBalances tradeArg.takerIndex.toNat
    let (makerBalance,takerBalance) ← applyResult tradeResult makerBalance takerBalance
    let w := w.write fun p => (p.setBalance maker makerBalance).setBalance taker takerBalance
    let w := w.emit (.trade maker taker tradeArg.trader tradeResult.marginAmount
      tradeResult.positionAmount tradeResult.isBuy makerBalance.toBytes32 takerBalance.toBytes32)
    return ⟨w,(s.currentBalances.set tradeArg.makerIndex.toNat makerBalance).set
      tradeArg.takerIndex.toNat takerBalance,traderFlags⟩

/-- The account is collateralized, or it was not before and is no worse off. -/
def verifyFinalBalance (context : Context) (account : Address)
    (initialBalance currentBalance : Balance) : Checked Unit := do
  let (currentPos,currentNeg) ← currentBalance.getPositiveAndNegativeValue context.price
  let left ← SafeMath.mul currentPos BaseMath.base
  let right ← SafeMath.mul currentNeg context.minCollateral
  if right.toNat ≤ left.toNat then
    return ()
  else
    let (initialPos,initialNeg) ← initialBalance.getPositiveAndNegativeValue context.price
    Require.that (currentPos ≠ 0) "account is undercollateralized and has no positive value" account
    Require.that (currentBalance.position.toNat ≤ initialBalance.position.toNat)
      "account is undercollateralized and absolute position size increased" account
    Require.that (currentBalance.positionIsPositive = initialBalance.positionIsPositive)
      "account is undercollateralized and position changed signs" account
    Require.that (initialNeg ≠ 0) "account is undercollateralized and was not previously" account
    if currentBalance.positionIsPositive then
      let before ← BaseMath.baseDivMul initialNeg currentPos
      let after ← BaseMath.baseDivMul currentNeg initialPos
      Require.that (after.toNat ≤ before.toNat)
        "account is undercollateralized and collateralization decreased" account
    else
      let before ← BaseMath.baseDivMul initialPos currentNeg
      let after ← BaseMath.baseDivMul currentPos initialNeg
      Require.that (before.toNat ≤ after.toNat)
        "account is undercollateralized and collateralization decreased" account

def verifyAccountsFinalBalances (context : Context) :
    List Address → (initialBalances currentBalances : List Balance) → Checked Unit
  | [],_,_ => .ok ()
  | account::accounts,initialBalance::initials,currentBalance::currents => do
      verifyFinalBalance context account initialBalance currentBalance
      verifyAccountsFinalBalances context accounts initials currents
  | _::_,_,_ => .error "invalid opcode"

def runTrades (x : Externals σ) (msg : Msg) (context : Context) (accounts : List Address)
    (trades : List TradeArg) (initialBalances : List Balance) (w : World σ) : Checked (Batch σ) :=
  trades.foldlM (tradeOne x msg context accounts) ⟨w,initialBalances,0⟩

def trade (x : Externals σ) (msg : Msg) (accounts : List Address) (trades : List TradeArg) :
    World σ → Checked (World σ) :=
  noFinalSettlement <| nonReentrant fun w => do
    verifyAccounts accounts
    let (context,w) ← loadContext x msg w
    let (initialBalances,w) ← settleAccounts context accounts w
    let batch ← runTrades x msg context accounts trades initialBalances w
    verifyAccountsFinalBalances context accounts initialBalances batch.currentBalances
    return batch.world

/-! What the checks and one pass of the loop establish. -/

theorem sortedAfterChain {prev : Address} {rest : List Address} {u : Unit}
    (ok : sortedAfter prev rest = .ok u) :
    (prev::rest).Pairwise (fun a b => a.toNat < b.toNat) := by
  induction rest generalizing prev with
  | nil => exact List.pairwise_singleton _ _
  | cons next rest ih =>
    simp only [sortedAfter, Checked.bindOk, Checked.requireOk, exists_const] at ok
    have later := ih ok.2
    refine List.Pairwise.cons ?_ later
    intro a mem
    rcases List.mem_cons.mp mem with rfl | inside
    · exact ok.1
    · exact Nat.lt_trans ok.1 (List.rel_of_pairwise_cons later inside)

theorem sortedAccepted {prev : Address} {rest : List Address}
    (sorted : (prev::rest).Pairwise fun a b => a.toNat < b.toNat) : sortedAfter prev rest = .ok () := by
  induction rest generalizing prev with
  | nil => rfl
  | cons next rest ih =>
    rw [List.pairwise_cons] at sorted
    rw [sortedAfter, Checked.requireThen (sorted.1 next List.mem_cons_self), ih sorted.2]

theorem verifiedNodup {accounts : List Address} {u : Unit} (ok : verifyAccounts accounts = .ok u) :
    accounts.Nodup := by
  cases accounts with
  | nil => exact List.nodup_nil
  | cons first rest =>
    exact (sortedAfterChain ok).imp fun less same => by rw [same] at less; exact Nat.lt_irrefl _ less

structure Applied (result : TradeResult) (maker taker maker' taker' : Balance) : Prop where
  makerMargin : maker'.marginInt = maker.marginInt + signed result.isBuy result.marginAmount.toNat
  makerPosition : maker'.positionInt =
    maker.positionInt - signed result.isBuy result.positionAmount.toNat
  takerMargin : taker'.marginInt = taker.marginInt - signed result.isBuy result.marginAmount.toNat
  takerPosition : taker'.positionInt =
    taker.positionInt + signed result.isBuy result.positionAmount.toNat

theorem applied {result : TradeResult} {maker taker maker' taker' : Balance}
    (ok : applyResult result maker taker = .ok (maker',taker')) :
    Applied result maker taker maker' taker' := by
  unfold applyResult at ok
  split at ok
  · rename_i buy
    simp only [Checked.bindOk, Checked.pureOk, Prod.mk.injEq] at ok
    obtain ⟨m₁,h₁,m₂,h₂,t₁,h₃,t₂,h₄,rfl,rfl⟩ := ok
    have mm := Balance.addToMarginMoved h₁
    have mp := Balance.subFromPositionMoved h₂
    have tm := Balance.subFromMarginMoved h₃
    have tp := Balance.addToPositionMoved h₄
    exact ⟨by rw [mp.marginInt, mm.margin, buy, Signed.positive],
      by rw [mp.position, mm.positionInt, buy, Signed.positive, sub_eq_add_neg],
      by rw [tp.marginInt, tm.margin, buy, Signed.positive, sub_eq_add_neg],
      by rw [tp.position, tm.positionInt, buy, Signed.positive]⟩
  · rename_i sell
    have sell : result.isBuy = false := by simpa using sell
    simp only [Checked.bindOk, Checked.pureOk, Prod.mk.injEq] at ok
    obtain ⟨m₁,h₁,m₂,h₂,t₁,h₃,t₂,h₄,rfl,rfl⟩ := ok
    have mm := Balance.subFromMarginMoved h₁
    have mp := Balance.addToPositionMoved h₂
    have tm := Balance.addToMarginMoved h₃
    have tp := Balance.subFromPositionMoved h₄
    exact ⟨by rw [mp.marginInt, mm.margin, sell, Signed.negative],
      by rw [mp.position, mm.positionInt, sell, Signed.negative, sub_neg_eq_add],
      by rw [tp.marginInt, tm.margin, sell, Signed.negative, sub_neg_eq_add],
      by rw [tp.position, tm.positionInt, sell, Signed.negative]⟩

inductive Moved (accounts : List Address) (tradeArg : TradeArg) (result : TradeResult)
    (before : List Balance) (w : World σ) : List Balance → World σ → Prop where
  | self {maker : Address} (atMaker : accounts[tradeArg.makerIndex.toNat]? = some maker)
      (atTaker : accounts[tradeArg.takerIndex.toNat]? = some maker) :
      Moved accounts tradeArg result before w before w
  | between {maker taker : Address} {m t m' t' : Balance} {w' : World σ}
      (atMaker : accounts[tradeArg.makerIndex.toNat]? = some maker)
      (atTaker : accounts[tradeArg.takerIndex.toNat]? = some taker)
      (different : maker ≠ taker)
      (makerBalance : before[tradeArg.makerIndex.toNat]? = some m)
      (takerBalance : before[tradeArg.takerIndex.toNat]? = some t)
      (moved : Applied result m t m' t')
      (storage : w'.perpetual = (w.perpetual.setBalance maker m').setBalance taker t')
      (logs : w.logs <+: w'.logs)
      (ext : w'.ext = w.ext) :
      Moved accounts tradeArg result before w
        ((before.set tradeArg.makerIndex.toNat m').set tradeArg.takerIndex.toNat t') w'

structure Traded (x : Externals σ) (msg : Msg) (context : Context) (accounts : List Address)
    (s : Batch σ) (tradeArg : TradeArg) (s' : Batch σ) : Prop where
  operator : s.world.perpetual.globalOperators tradeArg.trader = true
  called : ∃ maker taker result w,
    accounts[tradeArg.makerIndex.toNat]? = some maker ∧
    accounts[tradeArg.takerIndex.toNat]? = some taker ∧
    x.trade tradeArg.trader ⟨msg.sender,maker,taker,context.price,tradeArg.data,s.traderFlags⟩ s.world =
      .ok (result,w) ∧
    Moved accounts tradeArg result s.currentBalances w s'.currentBalances s'.world ∧
    s'.traderFlags = s.traderFlags ||| result.traderFlags

theorem traded {x : Externals σ} {msg : Msg} {context : Context} {accounts : List Address}
    {s s' : Batch σ} {tradeArg : TradeArg}
    (ok : tradeOne x msg context accounts s tradeArg = .ok s') :
    Traded x msg context accounts s tradeArg s' := by
  simp only [tradeOne, Checked.bindOk, Checked.requireOk, Checked.atOk, Prod.exists, exists_const] at ok
  obtain ⟨operator,maker,hm,taker,ht,result,w,called,ok⟩ := ok
  refine ⟨operator,maker,taker,result,w,hm,ht,called,?_⟩
  split at ok
  · rename_i self
    subst self
    obtain rfl := Checked.pureOk.mp ok
    exact ⟨.self hm ht,rfl⟩
  · rename_i different
    simp only [Checked.bindOk, Checked.atOk, Prod.exists, Checked.pureOk] at ok
    obtain ⟨m,bm,t,bt,m',t',moves,rfl⟩ := ok
    exact ⟨.between hm ht different bm bt (applied moves) rfl (List.prefix_append _ _) rfl,rfl⟩

end Trade
end Perpetual
