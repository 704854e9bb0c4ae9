import Perpetual.Deleveraging

/-! `P1Liquidation`: an account below the required collateral is taken over, in part or as
a whole, on behalf of a global operator. -/
namespace Perpetual

inductive LiquidationLog where
  | liquidated (maker taker : Address) (amount : Uint256) (isBuy : Bool) (oraclePrice : Uint256)
  deriving DecidableEq, Repr

structure LiquidationContract where
  perpetualV1 : Address
  logs : List LiquidationLog
  deriving DecidableEq, Repr

namespace P1Liquidation

abbrev TradeData := P1Deleveraging.TradeData

def decodeTradeData : List UInt8 → Checked TradeData := P1Deleveraging.decodeTradeData

def TRADER_FLAG_LIQUIDATION : Bytes32 := 2

def constructor (perpetualV1 : Address) : LiquidationContract := ⟨perpetualV1,[]⟩

def isUndercollateralized (balance : Balance) (perpetual : Storage) (price : Uint256) : Checked Bool := do
  let minCollateral := perpetual.minCollateral
  let (positive,negative) ← balance.getPositiveAndNegativeValue price
  let left ← SafeMath.mul positive BaseMath.base
  let right ← SafeMath.mul negative minCollateral
  return decide (left.toNat < right.toNat)

def verifyTrade (tradeData : TradeData) (makerBalance : Balance) (perpetual : Storage) (price : Uint256) :
    Checked Unit := do
  Checked.require ((← isUndercollateralized makerBalance perpetual price) = true)
    "Cannot liquidate since maker is not undercollateralized"
  Checked.require (tradeData.allOrNothing = false ∨ tradeData.amount.toNat ≤ makerBalance.position.toNat)
    "allOrNothing is set and maker position is less than amount"
  Checked.require (tradeData.isBuy = makerBalance.positionIsPositive)
    "liquidation must not increase maker's position size"
  Checked.require (makerBalance.marginIsPositive = true ∨ makerBalance.margin = 0 ∨
    makerBalance.positionIsPositive = true ∨ makerBalance.position = 0)
    "Cannot liquidate when maker position and margin are both negative"

/-- `perpetual` is the storage of the contract at `_PERPETUAL_V1_`. -/
def trade (msg : Msg) (perpetual : Storage) (call : TraderCall) (s : LiquidationContract) :
    Checked (TradeResult × LiquidationContract) := do
  Checked.require (msg.sender = s.perpetualV1) "msg.sender must be PerpetualV1"
  Checked.require (perpetual.globalOperators call.sender = true) "Sender is not a global operator"
  let tradeData ← decodeTradeData call.data
  let makerBalance := perpetual.balances call.maker
  verifyTrade tradeData makerBalance perpetual call.price
  let amount := Math.min tradeData.amount (widen makerBalance.position)
  let getFraction := if tradeData.isBuy then Math.getFractionRoundUp else Math.getFraction
  let marginAmount ← getFraction (widen makerBalance.margin) amount (widen makerBalance.position)
  return (⟨marginAmount,amount,tradeData.isBuy,TRADER_FLAG_LIQUIDATION⟩,{ s with
    logs := s.logs ++ [.liquidated call.maker call.taker amount tradeData.isBuy call.price] })

end P1Liquidation
end Perpetual
