import Perpetual.LiquidatorProxy
import Perpetual.SoloBridge

/-! `P1WethProxy` and `P1CurrencyConverterProxy`, and all four proxies around one PerpetualV1.
The PerpetualV1 that a caller names may be another contract, which answers as it likes. -/
namespace Perpetual

inductive ConverterLog where
  | convertedDeposit (account source perpetual exchangeWrapper tokenFrom tokenTo : Address)
      (tokenFromAmount tokenToAmount : Uint256)
  | convertedWithdrawal (account destination perpetual exchangeWrapper tokenFrom tokenTo : Address)
      (tokenFromAmount tokenToAmount : Uint256)
  deriving DecidableEq, Repr

structure WethProxyContract where
  status : Uint256
  weth : Address
  deriving DecidableEq, Repr

structure ProxyHost (ρ : Type) where
  wethProxy : WethProxyContract
  converterLogs : List ConverterLog
  bridge : BridgeContract
  rest : ρ

abbrev ProxyWorld (ρ : Type) := World (LiquidatorHost (ProxyHost ρ))

inductive Outcall where
  | safeTransferFrom (token sender recipient : Address) (amount : Uint256)
  | approve (token spender : Address) (amount : Uint256)
  | exchange (exchangeWrapper tradeOriginator receiver makerToken takerToken : Address)
      (requestedFillAmount : Uint256) (orderData : List UInt8)
  | wrap (weth : Address) (value : Uint256)
  | unwrap (weth : Address) (amount : Uint256)
  | pay (recipient : Address) (value : Uint256)
  | operate (solo : Address) (accounts : List Solo.AccountInfo) (actions : List Solo.ActionArgs)
  | deposit (perpetual account : Address) (amount : Uint256)
  | withdraw (perpetual account destination : Address) (amount : Uint256)
  deriving DecidableEq, Repr

/-- All contracts but the proxies and PerpetualV1. An outcall may do anything; the rest are static calls. -/
structure Surroundings (σ : Type) where
  calls : Externals σ
  getTokenContract : (perpetual : Address) → World σ → Checked Address
  hasAccountPermissions : (perpetual account operator : Address) → World σ → Checked Bool
  balanceOf : (token account : Address) → World σ → Checked Uint256
  allowance : (token owner spender : Address) → World σ → Checked Uint256
  getMarketTokenAddress : (solo : Address) → (marketId : Uint256) → World σ → Checked Address
  getIsGlobalOperator : (solo operator : Address) → World σ → Checked Bool
  getIsLocalOperator : (solo owner operator : Address) → World σ → Checked Bool
  outcall : (sender : Address) → Outcall → World σ → Checked (Uint256 × World σ)

structure ProxySites where
  perpetual : Address
  wethProxy : Address
  currencyConverter : Address
  soloBridge : Address
  liquidator : Address
  deriving DecidableEq, Repr

namespace Surroundings
variable {σ : Type} (y : Surroundings σ) (sites : ProxySites) (self : Msg) (perpetual : Address)

def send (call : Outcall) (w : World σ) : Checked (World σ) := do
  let (_,w) ← y.outcall self.sender call w
  return w

/-! `I_PerpetualV1(perpetual)`, for an address of the caller's choice. -/

def tokenContract (w : World σ) : Checked Address :=
  if perpetual = sites.perpetual then .ok w.perpetual.token else y.getTokenContract perpetual w

def permits (account operator : Address) (w : World σ) : Checked Bool :=
  if perpetual = sites.perpetual then .ok (Perpetual.hasAccountPermissions w.perpetual account operator)
  else y.hasAccountPermissions perpetual account operator w

def deposit (account : Address) (amount : Uint256) (w : World σ) : Checked (World σ) :=
  if perpetual = sites.perpetual then exec y.calls self (.deposit account amount) w
  else y.send self (.deposit perpetual account amount) w

def withdraw (account destination : Address) (amount : Uint256) (w : World σ) : Checked (World σ) :=
  if perpetual = sites.perpetual then exec y.calls self (.withdraw account destination amount) w
  else y.send self (.withdraw perpetual account destination amount) w

def mayWithdraw (msg : Msg) (account : Address) (w : World σ) : Checked Bool :=
  if msg.sender = account then .ok true else y.permits sites perpetual account msg.sender w

def safeApprove (token spender : Address) (value : Uint256) (w : World σ) : Checked (World σ) := do
  if value ≠ 0 then
    let allowance ← y.allowance token self.sender spender w
    Checked.require (allowance = 0) "SafeERC20: approve from non-zero to non-zero allowance"
  y.send self (.approve token spender value) w

end Surroundings

variable {ρ : Type} (y : Surroundings (LiquidatorHost (ProxyHost ρ))) (sites : ProxySites) (msg : Msg)

def ProxyWorld.store (w : ProxyWorld ρ) (f : ProxyHost ρ → ProxyHost ρ) : ProxyWorld ρ :=
  { w with ext := { w.ext with rest := f w.ext.rest } }

/-- Of `P1Proxy`, and once more of the converter and, for its own PerpetualV1, of the liquidator's proxy. -/
def approveMaximumOnPerpetual (this perpetual : Address) (w : ProxyWorld ρ) : Checked (ProxyWorld ρ) := do
  let self : Msg := ⟨this,msg.timestamp⟩
  let tokenContract ← y.tokenContract sites perpetual w
  let w ← y.safeApprove self tokenContract perpetual 0 w
  y.safeApprove self tokenContract perpetual (-1) w

namespace P1WethProxy

def setStatus (status : Uint256) (w : ProxyWorld ρ) : ProxyWorld ρ :=
  w.store fun h => { h with wethProxy := { h.wethProxy with status := status } }

def depositEth (value : Uint256) (perpetual account : Address) (w : ProxyWorld ρ) : Checked (ProxyWorld ρ) := do
  let self : Msg := ⟨sites.wethProxy,msg.timestamp⟩
  let w ← y.send msg (.pay sites.wethProxy value) w
  Checked.require (w.ext.rest.wethProxy.status ≠ ENTERED) "ReentrancyGuard: reentrant call"
  let w := setStatus ENTERED w
  let weth := w.ext.rest.wethProxy.weth
  let marginToken ← y.tokenContract sites perpetual w
  Checked.require (marginToken = weth) "The perpetual does not use WETH for margin deposits"
  let w ← y.send self (.wrap weth value) w
  let amount ← y.balanceOf weth sites.wethProxy w
  let w ← y.deposit sites self perpetual account amount w
  return setStatus NOT_ENTERED w

def withdrawEth (perpetual account destination : Address) (amount : Uint256) (w : ProxyWorld ρ) :
    Checked (ProxyWorld ρ) := do
  let self : Msg := ⟨sites.wethProxy,msg.timestamp⟩
  Checked.require (w.ext.rest.wethProxy.status ≠ ENTERED) "ReentrancyGuard: reentrant call"
  let w := setStatus ENTERED w
  let weth := w.ext.rest.wethProxy.weth
  let marginToken ← y.tokenContract sites perpetual w
  Checked.require (marginToken = weth) "The perpetual does not use WETH for margin deposits"
  let permitted ← y.mayWithdraw sites perpetual msg account w
  Checked.require (permitted = true) "Sender does not have withdraw permissions for the account"
  let w ← y.withdraw sites self perpetual account sites.wethProxy amount w
  let balance ← y.balanceOf weth sites.wethProxy w
  let w ← y.send self (.unwrap weth balance) w
  let w ← y.send self (.pay destination balance) w
  return setStatus NOT_ENTERED w

end P1WethProxy

namespace P1CurrencyConverterProxy

def emit (log : ConverterLog) (w : ProxyWorld ρ) : ProxyWorld ρ :=
  w.store fun h => { h with converterLogs := h.converterLogs ++ [log] }

def deposit (account perpetual exchangeWrapper tokenFrom : Address) (tokenFromAmount : Uint256)
    (data : List UInt8) (w : ProxyWorld ρ) : Checked (Uint256 × ProxyWorld ρ) := do
  let self : Msg := ⟨sites.currencyConverter,msg.timestamp⟩
  let tokenTo ← y.tokenContract sites perpetual w
  let w ← y.send self (.safeTransferFrom tokenFrom msg.sender exchangeWrapper tokenFromAmount) w
  let (tokenToAmount,w) ← y.outcall self.sender
    (.exchange exchangeWrapper msg.sender self.sender tokenTo tokenFrom tokenFromAmount data) w
  let w ← y.send self (.safeTransferFrom tokenTo exchangeWrapper self.sender tokenToAmount) w
  let w ← y.deposit sites self perpetual account tokenToAmount w
  let w := emit (.convertedDeposit account msg.sender perpetual exchangeWrapper tokenFrom tokenTo tokenFromAmount
    tokenToAmount) w
  return (tokenToAmount,w)

def withdraw (account destination perpetual exchangeWrapper tokenTo : Address) (tokenFromAmount : Uint256)
    (data : List UInt8) (w : ProxyWorld ρ) : Checked (Uint256 × ProxyWorld ρ) := do
  let self : Msg := ⟨sites.currencyConverter,msg.timestamp⟩
  let tokenFrom ← y.tokenContract sites perpetual w
  let permitted ← y.mayWithdraw sites perpetual msg account w
  Checked.require (permitted = true) "msg.sender cannot operate the account"
  let w ← y.withdraw sites self perpetual account exchangeWrapper tokenFromAmount w
  let (tokenToAmount,w) ← y.outcall self.sender
    (.exchange exchangeWrapper msg.sender self.sender tokenTo tokenFrom tokenFromAmount data) w
  let w ← y.send self (.safeTransferFrom tokenTo exchangeWrapper destination tokenToAmount) w
  let w := emit (.convertedWithdrawal account destination perpetual exchangeWrapper tokenFrom tokenTo
    tokenFromAmount tokenToAmount) w
  return (tokenToAmount,w)

end P1CurrencyConverterProxy

namespace P1SoloBridgeProxy

def joined (b : BridgeWorld (ProxyWorld ρ)) : ProxyWorld ρ := b.ext.store fun h => { h with bridge := b.bridge }

def parted (w : ProxyWorld ρ) : BridgeWorld (ProxyWorld ρ) := ⟨w.ext.rest.bridge,w⟩

def partedOut (out : Checked (ProxyWorld ρ)) : Checked (BridgeWorld (ProxyWorld ρ)) := do
  let w ← out
  return parted w

def around : BridgeExternals (ProxyWorld ρ) where
  getTokenContract := fun perpetual b => y.tokenContract sites perpetual (joined b)
  hasAccountPermissions := fun perpetual account operator b =>
    y.permits sites perpetual account operator (joined b)
  getMarketTokenAddress := fun solo marketId b => y.getMarketTokenAddress solo marketId (joined b)
  getIsGlobalOperator := fun solo operator b => y.getIsGlobalOperator solo operator (joined b)
  getIsLocalOperator := fun solo owner operator b => y.getIsLocalOperator solo owner operator (joined b)
  balanceOf := fun token account b => y.balanceOf token account (joined b)
  operate := fun solo accounts actions b =>
    partedOut <| y.send ⟨sites.soloBridge,msg.timestamp⟩ (.operate solo accounts actions) (joined b)
  deposit := fun perpetual account amount b =>
    partedOut <| y.deposit sites ⟨sites.soloBridge,msg.timestamp⟩ perpetual account amount (joined b)
  withdraw := fun perpetual account destination amount b =>
    partedOut <| y.withdraw sites ⟨sites.soloBridge,msg.timestamp⟩ perpetual account destination amount (joined b)

def approveMaximumOnSolo (soloMarketId : Uint256) (w : ProxyWorld ρ) : Checked (ProxyWorld ρ) := do
  let self : Msg := ⟨sites.soloBridge,msg.timestamp⟩
  let solo := w.ext.rest.bridge.soloMargin
  let tokenContract ← y.getMarketTokenAddress solo soloMarketId w
  let w ← y.safeApprove self tokenContract solo 0 w
  y.safeApprove self tokenContract solo (-1) w

end P1SoloBridgeProxy

inductive ProxyCall where
  | approveMaximumOnPerpetual (proxy perpetual : Address)
  | approveMaximumOnSolo (soloMarketId : Uint256)
  | depositEth (value : Uint256) (perpetual account : Address)
  | withdrawEth (perpetual account destination : Address) (amount : Uint256)
  | convertedDeposit (account perpetual exchangeWrapper tokenFrom : Address) (tokenFromAmount : Uint256)
      (data : List UInt8)
  | convertedWithdrawal (account destination perpetual exchangeWrapper tokenTo : Address)
      (tokenFromAmount : Uint256) (data : List UInt8)
  | bridgeTransfer (transfer : Transfer) (signature : TypedSignature.Signature)
  | invalidateSignature (transfer : Transfer)
  | liquidate (liquidatee liquidator : Address) (isBuy : Bool) (maxPosition : SignedInt)

def execProxy (crypto : Crypto) : ProxyCall → ProxyWorld ρ → Checked (ProxyWorld ρ)
  | .approveMaximumOnPerpetual proxy perpetual, w => approveMaximumOnPerpetual y sites msg proxy perpetual w
  | .approveMaximumOnSolo soloMarketId, w => P1SoloBridgeProxy.approveMaximumOnSolo y sites msg soloMarketId w
  | .depositEth value perpetual account, w => P1WethProxy.depositEth y sites msg value perpetual account w
  | .withdrawEth perpetual account destination amount, w =>
      P1WethProxy.withdrawEth y sites msg perpetual account destination amount w
  | .convertedDeposit account perpetual exchangeWrapper tokenFrom tokenFromAmount data, w => do
      let (_,w) ← P1CurrencyConverterProxy.deposit y sites msg account perpetual exchangeWrapper tokenFrom
        tokenFromAmount data w
      return w
  | .convertedWithdrawal account destination perpetual exchangeWrapper tokenTo tokenFromAmount data, w => do
      let (_,w) ← P1CurrencyConverterProxy.withdraw y sites msg account destination perpetual exchangeWrapper
        tokenTo tokenFromAmount data w
      return w
  | .bridgeTransfer transfer signature, w => do
      let (_,b) ← P1SoloBridgeProxy.bridgeTransfer crypto (P1SoloBridgeProxy.around y sites msg) sites.soloBridge
        msg transfer signature (P1SoloBridgeProxy.parted w)
      return P1SoloBridgeProxy.joined b
  | .invalidateSignature transfer, w => do
      let b ← P1SoloBridgeProxy.invalidateSignature crypto (P1SoloBridgeProxy.around y sites msg) msg transfer
        (P1SoloBridgeProxy.parted w)
      return P1SoloBridgeProxy.joined b
  | .liquidate liquidatee liquidator isBuy maxPosition, w => do
      let (_,w) ← P1LiquidatorProxy.liquidate y.calls sites.liquidator msg liquidatee liquidator isBuy maxPosition w
      return w

end Perpetual
