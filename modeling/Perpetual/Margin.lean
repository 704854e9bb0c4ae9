import Perpetual.Settlement

/-! `P1Margin`, `P1FinalSettlement`, and the permission getter they rely on. -/
namespace Perpetual
variable {σ : Type}

def hasAccountPermissions (s : Storage) (account operator : Address) : Bool :=
  account == operator || s.globalOperators operator || s.localOperators account operator

namespace Margin
open Settlement

def deposit (x : Externals σ) (msg : Msg) (account : Address) (amount : Uint256) :
    World σ → Checked (World σ) :=
  noFinalSettlement <| nonReentrant fun w => do
    let (context,w) ← loadContext x msg w
    let (balance,w) ← settleAccount context account w
    let w ← x.transferFrom w.perpetual.token msg.sender amount w
    let balance ← balance.addToMargin amount
    let w := w.write fun s => s.setBalance account balance
    return w.emit (.deposit account amount balance.toBytes32)

def withdraw (x : Externals σ) (msg : Msg) (account destination : Address) (amount : Uint256) :
    World σ → Checked (World σ) :=
  noFinalSettlement <| nonReentrant fun w => do
    Checked.require (hasAccountPermissions w.perpetual account msg.sender = true)
      "sender does not have permission to withdraw"
    let (context,w) ← loadContext x msg w
    let (balance,w) ← settleAccount context account w
    let w ← x.transfer w.perpetual.token destination amount w
    let balance ← balance.subFromMargin amount
    let w := w.write fun s => s.setBalance account balance
    let collateralized ← isCollateralized context balance
    Checked.require (collateralized = true) "account not collateralized"
    return w.emit (.withdraw account destination amount balance.toBytes32)

end Margin

namespace FinalSettlement
open Settlement

def finalContext (s : Storage) : Context := ⟨s.finalSettlementPrice,s.minCollateral,s.globalIndex⟩

/-- An account whose debts exceed its value is settled and gets nothing: the early return. -/
def withdrawFinalSettlement (x : Externals σ) (msg : Msg) : World σ → Checked (World σ) :=
  onlyFinalSettlement <| nonReentrant fun w => do
    let context := finalContext w.perpetual
    let (balance,w) ← settleAccount context msg.sender w
    let (positive,negative) ← balance.getPositiveAndNegativeValue context.price
    if positive.toNat < negative.toNat then
      return w
    else
      let accountValue ← SafeMath.div (← SafeMath.sub positive negative) BaseMath.base
      let contractBalance ← x.balanceOf w.perpetual.token w
      let amountToWithdraw := Math.min contractBalance accountValue
      let remainingMargin ← SafeCast.toUint120 (← SafeMath.sub accountValue amountToWithdraw)
      let balance : Balance := ⟨decide (remainingMargin ≠ 0),false,remainingMargin,0⟩
      let w := w.write fun s => s.setBalance msg.sender balance
      let w ← x.transfer w.perpetual.token msg.sender amountToWithdraw w
      return w.emit (.withdrawFinalSettlement msg.sender amountToWithdraw balance.toBytes32)

end FinalSettlement
end Perpetual
