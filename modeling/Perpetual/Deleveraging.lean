import Perpetual.PerpetualV1
import Perpetual.TypedSignature

/-! `P1Deleveraging`: an account under water is taken over by one with an opposite
position, by the operator at any time and by anyone else after a waiting period. -/
namespace Perpetual

inductive DeleveragingLog where
  | deleveraged (maker taker : Address) (amount : Uint256) (isBuy : Bool) (oraclePrice : Uint256)
  | markedForDeleveraging (account : Address)
  | unmarkedForDeleveraging (account : Address)
  | deleveragingOperatorSet (deleveragingOperator : Address)
  deriving DecidableEq, Repr

structure DeleveragingContract where
  owner : Address
  perpetualV1 : Address
  markedTimestamp : Address → Uint256
  deleveragingOperator : Address
  logs : List DeleveragingLog

namespace P1Deleveraging

structure TradeData where
  amount : Uint256
  isBuy : Bool
  allOrNothing : Bool
  deriving DecidableEq, Repr

def TRADER_FLAG_DELEVERAGING : Bytes32 := 4

def DELEVERAGING_TIMELOCK_S : Uint256 := 1800

@[simp] theorem timelockNat : DELEVERAGING_TIMELOCK_S.toNat = 1800 := rfl

def constructor (msg : Msg) (perpetualV1 deleveragingOperator : Address) : DeleveragingContract where
  owner := msg.sender
  perpetualV1 := perpetualV1
  markedTimestamp := fun _ => 0
  deleveragingOperator := deleveragingOperator
  logs := [.deleveragingOperatorSet deleveragingOperator]

def decodeTradeData (data : List UInt8) : Checked TradeData := do
  Checked.require (32 * 3 ≤ data.length) ""
  let isBuy ← Abi.boolAt data 1
  let allOrNothing ← Abi.boolAt data 2
  return ⟨Abi.wordAt data 0,isBuy,allOrNothing⟩

def isMarked (s : DeleveragingContract) (account : Address) : Bool := s.markedTimestamp account != 0

def markAccount (timestamp : Uint256) (account : Address) (s : DeleveragingContract) :
    DeleveragingContract :=
  { s with
    markedTimestamp := Function.update s.markedTimestamp account timestamp
    logs := s.logs ++ [.markedForDeleveraging account] }

def unmarkAccount (account : Address) (s : DeleveragingContract) : DeleveragingContract :=
  { s with
    markedTimestamp := Function.update s.markedTimestamp account 0
    logs := s.logs ++ [.unmarkedForDeleveraging account] }

def verifyPermissions (timestamp : Uint256) (s : DeleveragingContract) (sender maker : Address) :
    Checked Unit := do
  if sender ≠ s.deleveragingOperator then
    let markedTimestamp := s.markedTimestamp maker
    Checked.require (markedTimestamp ≠ 0) "Cannot deleverage since account is not marked"
    let timeDelta ← SafeMath.sub timestamp markedTimestamp
    Checked.require (DELEVERAGING_TIMELOCK_S.toNat ≤ timeDelta.toNat)
      "Cannot deleverage since account has not been marked for the timelock period"
  else
    return ()

def isUnderwater (balance : Balance) (price : Uint256) : Checked Bool := do
  let (positive,negative) ← balance.getPositiveAndNegativeValue price
  return decide (positive.toNat < negative.toNat)

/-- `getPrice` is what the oracle at an address answers P1Deleveraging. -/
def isAccountUnderwater (getPrice : Address → Checked Uint256) (perpetual : Storage) (account : Address) :
    Checked Bool := do
  let balance := perpetual.balances account
  let price ← getPrice perpetual.oracle
  isUnderwater balance price

def verifyTrade (tradeData : TradeData) (makerBalance takerBalance : Balance) (price : Uint256) :
    Checked Unit := do
  Checked.require ((← isUnderwater makerBalance price) = true)
    "Cannot deleverage since maker is not underwater"
  Checked.require (tradeData.allOrNothing = false ∨ tradeData.amount.toNat ≤ makerBalance.position.toNat)
    "allOrNothing is set and maker position is less than amount"
  Checked.require (takerBalance.positionIsPositive ≠ makerBalance.positionIsPositive)
    "Taker position has wrong sign to deleverage this maker"
  Checked.require (tradeData.allOrNothing = false ∨ tradeData.amount.toNat ≤ takerBalance.position.toNat)
    "allOrNothing is set and taker position is less than amount"
  Checked.require (tradeData.isBuy = makerBalance.positionIsPositive)
    "deleveraging must not increase maker's position size"
  Checked.require (makerBalance.marginIsPositive = true ∨ makerBalance.margin = 0 ∨
    makerBalance.positionIsPositive = true ∨ makerBalance.position = 0)
    "Cannot liquidate when maker position and margin are both negative"

def trade (msg : Msg) (perpetual : Storage) (call : TraderCall) (s : DeleveragingContract) :
    Checked (TradeResult × DeleveragingContract) := do
  Checked.require (msg.sender = s.perpetualV1) "msg.sender must be PerpetualV1"
  Checked.require (call.traderFlags = 0) "cannot deleverage after other trade operations, in the same tx"
  verifyPermissions msg.timestamp s call.sender call.maker
  let tradeData ← decodeTradeData call.data
  let makerBalance := perpetual.balances call.maker
  let takerBalance := perpetual.balances call.taker
  verifyTrade tradeData makerBalance takerBalance call.price
  let amount := Math.min tradeData.amount
    (Math.min (widen makerBalance.position) (widen takerBalance.position))
  let getFraction := if tradeData.isBuy then Math.getFractionRoundUp else Math.getFraction
  let marginAmount ← getFraction (widen makerBalance.margin) amount (widen makerBalance.position)
  let s := if amount = widen makerBalance.position ∧ isMarked s call.maker = true
    then unmarkAccount call.maker s else s
  return (⟨marginAmount,amount,tradeData.isBuy,TRADER_FLAG_DELEVERAGING⟩,{ s with
    logs := s.logs ++ [.deleveraged call.maker call.taker amount tradeData.isBuy call.price] })

def mark (msg : Msg) (getPrice : Address → Checked Uint256) (perpetual : Storage) (account : Address)
    (s : DeleveragingContract) : Checked DeleveragingContract := do
  Checked.require ((← isAccountUnderwater getPrice perpetual account) = true)
    "Cannot mark since account is not underwater"
  return markAccount msg.timestamp account s

def unmark (getPrice : Address → Checked Uint256) (perpetual : Storage) (account : Address)
    (s : DeleveragingContract) : Checked DeleveragingContract := do
  Checked.require ((← isAccountUnderwater getPrice perpetual account) = false)
    "Cannot unmark since account is underwater"
  return unmarkAccount account s

def setDeleveragingOperator (msg : Msg) (newOperator : Address) (s : DeleveragingContract) :
    Checked DeleveragingContract := do
  Checked.require (msg.sender = s.owner) "Ownable: caller is not the owner"
  return { s with
    deleveragingOperator := newOperator
    logs := s.logs ++ [.deleveragingOperatorSet newOperator] }

/-! What each of these did. -/

def Underwater (balance : Balance) (price : Uint256) : Prop := balance.netValue price.toNat < 0

theorem underwater {balance : Balance} {price : Uint256} {answer : Bool}
    (ok : isUnderwater balance price = .ok answer) : answer = true ↔ Underwater balance price := by
  simp only [isUnderwater, Checked.bindOk, Prod.exists, Checked.pureOk] at ok
  obtain ⟨positive,negative,values,rfl⟩ := ok
  obtain ⟨exactPositive,exactNegative⟩ := Balance.valuesExact values
  have net := balance.netOfValues price.toNat
  rw [decide_eq_true_eq, Underwater]
  omega

def Waited (timestamp markedTimestamp : Uint256) : Prop :=
  markedTimestamp ≠ 0 ∧ markedTimestamp.toNat + DELEVERAGING_TIMELOCK_S.toNat ≤ timestamp.toNat

theorem permitted {timestamp : Uint256} {s : DeleveragingContract} {sender maker : Address} :
    verifyPermissions timestamp s sender maker = .ok () ↔
      (sender ≠ s.deleveragingOperator → Waited timestamp (s.markedTimestamp maker)) := by
  unfold verifyPermissions
  split
  · rename_i other
    simp only [Checked.bindOk, Checked.requireOk, SafeMath.subOk, exists_const, Waited]
    rw [timelockNat]
    constructor
    · rintro ⟨marked,timeDelta,elapsed,enough⟩ _
      exact ⟨marked,by omega⟩
    · intro waited
      obtain ⟨marked,enough⟩ := waited other
      obtain ⟨timeDelta,sub⟩ := SafeMath.subFits (a := timestamp) (b := s.markedTimestamp maker) (by omega)
      have elapsed := SafeMath.subOk.mp sub
      exact ⟨marked,timeDelta,elapsed,by omega⟩
  · rename_i operator
    exact ⟨fun _ other => absurd other operator,fun _ => rfl⟩

theorem markOk {msg : Msg} {getPrice : Address → Checked Uint256} {perpetual : Storage}
    {account : Address} {s s' : DeleveragingContract} : mark msg getPrice perpetual account s = .ok s' ↔
      isAccountUnderwater getPrice perpetual account = .ok true ∧ markAccount msg.timestamp account s = s' := by
  simp only [mark, Checked.bindOk, Checked.requireOk, exists_const, Checked.pureOk]
  constructor
  · rintro ⟨_,under,rfl,same⟩
    exact ⟨under,same⟩
  · rintro ⟨under,same⟩
    exact ⟨true,under,rfl,same⟩

theorem unmarkOk {getPrice : Address → Checked Uint256} {perpetual : Storage} {account : Address}
    {s s' : DeleveragingContract} : unmark getPrice perpetual account s = .ok s' ↔
      isAccountUnderwater getPrice perpetual account = .ok false ∧ unmarkAccount account s = s' := by
  simp only [unmark, Checked.bindOk, Checked.requireOk, exists_const, Checked.pureOk]
  constructor
  · rintro ⟨_,under,rfl,same⟩
    exact ⟨under,same⟩
  · rintro ⟨under,same⟩
    exact ⟨false,under,rfl,same⟩

theorem accountUnderwater {getPrice : Address → Checked Uint256} {perpetual : Storage} {account : Address}
    {answer : Bool} : isAccountUnderwater getPrice perpetual account = .ok answer ↔ ∃ price,
      getPrice perpetual.oracle = .ok price ∧ isUnderwater (perpetual.balances account) price = .ok answer := by
  simp only [isAccountUnderwater, Checked.bindOk]

structure Deleveraged (msg : Msg) (perpetual : Storage) (call : TraderCall) (s : DeleveragingContract)
    (result : TradeResult) (s' : DeleveragingContract) : Prop where
  permission : call.sender ≠ s.deleveragingOperator → Waited msg.timestamp (s.markedTimestamp call.maker)
  underwater : Underwater (perpetual.balances call.maker) call.price
  opposite : (perpetual.balances call.taker).positionIsPositive ≠
    (perpetual.balances call.maker).positionIsPositive
  timestamps : s'.markedTimestamp =
    if result.positionAmount = widen (perpetual.balances call.maker).position
    then Function.update s.markedTimestamp call.maker 0 else s.markedTimestamp
  operator : s'.deleveragingOperator = s.deleveragingOperator

theorem deleveraged {msg : Msg} {perpetual : Storage} {call : TraderCall} {s s' : DeleveragingContract}
    {result : TradeResult} (ok : trade msg perpetual call s = .ok (result,s')) :
    Deleveraged msg perpetual call s result s' := by
  simp only [trade, verifyTrade, Checked.bindOk, Checked.requireOk, exists_const, Checked.pureOk,
    Prod.mk.injEq] at ok
  obtain ⟨_,_,_,permission,tradeData,_,⟨_,under,rfl,_,opposite,_⟩,marginAmount,_,rfl,rfl⟩ := ok
  refine ⟨permitted.mp permission,(P1Deleveraging.underwater under).mp rfl,opposite,?_,?_⟩
  · dsimp only
    split
    · rename_i whole
      rw [if_pos whole.1]
      rfl
    · rename_i part
      split
      · rename_i closed
        have unmarked : s.markedTimestamp call.maker = 0 := by
          by_contra marked
          exact part ⟨closed,bne_iff_ne.mpr marked⟩
        exact (Function.update_eq_self_iff.mpr unmarked.symm).symm
      · rfl
  · dsimp only
    split <;> rfl

end P1Deleveraging
end Perpetual
