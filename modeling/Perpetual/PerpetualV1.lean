import Perpetual.Trade

/-! The entry points of PerpetualV1: `P1Admin`, `P1Operator`, the initializer, and
the dispatch over all of them. -/
namespace Perpetual
variable {σ : Type}

namespace Admin
open Settlement

def setGlobalOperator (msg : Msg) (operator : Address) (approved : Bool) :
    World σ → Checked (World σ) :=
  onlyAdmin msg <| nonReentrant fun w => do
    let w := w.write fun s =>
      { s with globalOperators := Function.update s.globalOperators operator approved }
    return w.emit (.setGlobalOperator operator approved)

def setOracle (x : Externals σ) (msg : Msg) (oracle : Address) : World σ → Checked (World σ) :=
  onlyAdmin msg <| nonReentrant fun w => do
    let price ← x.getPrice oracle w
    Checked.require (price ≠ 0) "New oracle cannot return a zero price"
    let w := w.write fun s => { s with oracle := oracle }
    return w.emit (.setOracle oracle)

def setFunder (x : Externals σ) (msg : Msg) (funder : Address) : World σ → Checked (World σ) :=
  onlyAdmin msg <| nonReentrant fun w => do
    -- only to ensure that no reverts occur
    let _ ← x.getFunding funder 0 w
    let w := w.write fun s => { s with funder := funder }
    return w.emit (.setFunder funder)

def setMinCollateral (msg : Msg) (minCollateral : Uint256) : World σ → Checked (World σ) :=
  onlyAdmin msg <| nonReentrant fun w => do
    Checked.require (BaseMath.base.toNat ≤ minCollateral.toNat)
      "The collateral requirement cannot be under 100%"
    let w := w.write fun s => { s with minCollateral := minCollateral }
    return w.emit (.setMinCollateral minCollateral)

def enableFinalSettlement (x : Externals σ) (msg : Msg) (priceLowerBound priceUpperBound : Uint256) :
    World σ → Checked (World σ) :=
  onlyAdmin msg <| noFinalSettlement <| nonReentrant fun w => do
    let (context,w) ← loadContext x msg w
    Checked.require (priceLowerBound.toNat ≤ context.price.toNat)
      "Oracle price is less than the provided lower bound"
    Checked.require (context.price.toNat ≤ priceUpperBound.toNat)
      "Oracle price is greater than the provided upper bound"
    let w := w.write fun s =>
      { s with finalSettlementPrice := context.price, finalSettlementEnabled := true }
    return w.emit (.finalSettlementEnabled context.price)

/-- The start index takes the low 32 bits of the timestamp, unchecked. -/
def initializeV1 (msg : Msg) (token oracle funder : Address) (minCollateral : Uint256) :
    World σ → Checked (World σ) :=
  onlyAdmin msg <| nonReentrant fun w => do
    Checked.require (w.perpetual.initialized = false) "PerpetualV1 already initialized"
    return w.write fun s =>
      { s with
        initialized := true
        token := token
        oracle := oracle
        funder := funder
        minCollateral := minCollateral
        globalIndex := ⟨msg.timestamp.setWidth 32,false,0⟩ }

end Admin

/-- `P1Operator.setLocalOperator`, the one entry point without the guard. -/
def setLocalOperator (msg : Msg) (operator : Address) (approved : Bool) (w : World σ) :
    Checked (World σ) :=
  let ofSender := Function.update (w.perpetual.localOperators msg.sender) operator approved
  let w := w.write fun s =>
    { s with localOperators := Function.update s.localOperators msg.sender ofSender }
  .ok (w.emit (.setLocalOperator msg.sender operator approved))

inductive Entry where
  | deposit (account : Address) (amount : Uint256)
  | withdraw (account destination : Address) (amount : Uint256)
  | trade (accounts : List Address) (trades : List TradeArg)
  | withdrawFinalSettlement
  | setGlobalOperator (operator : Address) (approved : Bool)
  | setOracle (oracle : Address)
  | setFunder (funder : Address)
  | setMinCollateral (minCollateral : Uint256)
  | enableFinalSettlement (priceLowerBound priceUpperBound : Uint256)
  | initializeV1 (token oracle funder : Address) (minCollateral : Uint256)
  | setLocalOperator (operator : Address) (approved : Bool)
  deriving DecidableEq, Repr

def Entry.isGuarded : Entry → Bool
  | .setLocalOperator _ _ => false
  | _ => true

def exec (x : Externals σ) (msg : Msg) : Entry → World σ → Checked (World σ)
  | .deposit account amount => Margin.deposit x msg account amount
  | .withdraw account destination amount => Margin.withdraw x msg account destination amount
  | .trade accounts trades => Trade.trade x msg accounts trades
  | .withdrawFinalSettlement => FinalSettlement.withdrawFinalSettlement x msg
  | .setGlobalOperator operator approved => Admin.setGlobalOperator msg operator approved
  | .setOracle oracle => Admin.setOracle x msg oracle
  | .setFunder funder => Admin.setFunder x msg funder
  | .setMinCollateral minCollateral => Admin.setMinCollateral msg minCollateral
  | .enableFinalSettlement lower upper => Admin.enableFinalSettlement x msg lower upper
  | .initializeV1 token oracle funder minCollateral =>
      Admin.initializeV1 msg token oracle funder minCollateral
  | .setLocalOperator operator approved => setLocalOperator msg operator approved

end Perpetual
