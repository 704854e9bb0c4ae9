import Perpetual.Storage
import Perpetual.TypedSignature

/-! `P1SoloBridgeProxy`: transfers between Solo and a PerpetualV1 of the caller's choice,
by an operator of the account or by anyone who holds its signature. -/
namespace Perpetual

namespace Solo

inductive ActionType where
  | Deposit
  | Withdraw
  | Transfer
  | Buy
  | Sell
  | Trade
  | Liquidate
  | Vaporize
  | Call
  deriving DecidableEq, Repr

inductive AssetDenomination where
  | Wei
  | Par
  deriving DecidableEq, Repr

inductive AssetReference where
  | Delta
  | Target
  deriving DecidableEq, Repr

structure AccountInfo where
  owner : Address
  number : Uint256
  deriving DecidableEq, Repr

structure AssetAmount where
  sign : Bool
  denomination : AssetDenomination
  ref : AssetReference
  value : Uint256
  deriving DecidableEq, Repr

structure ActionArgs where
  actionType : ActionType
  accountId : Uint256
  amount : AssetAmount
  primaryMarketId : Uint256
  secondaryMarketId : Uint256
  otherAddress : Address
  otherAccountId : Uint256
  data : List UInt8
  deriving DecidableEq, Repr

end Solo

inductive TransferMode where
  | SomeToPerpetual
  | SomeToSolo
  | AllToPerpetual
  deriving DecidableEq, Repr

structure Transfer where
  account : Address
  perpetual : Address
  soloAccountNumber : Uint256
  soloMarketId : Uint256
  amount : Uint256
  options : Bytes32
  deriving DecidableEq, Repr

inductive BridgeLog where
  | transferred (account perpetual : Address) (soloAccountNumber soloMarketId : Uint256)
      (toPerpetual : Bool) (amount : Uint256)
  | signatureInvalidated (account : Address) (transferHash : Bytes32)
  deriving DecidableEq, Repr

structure BridgeContract where
  status : Uint256
  soloMargin : Address
  eip712DomainHash : Bytes32
  signatureUsed : Bytes32 → Bool
  logs : List BridgeLog

structure BridgeWorld (σ : Type) where
  bridge : BridgeContract
  ext : σ

structure BridgeExternals (σ : Type) where
  getTokenContract : (perpetual : Address) → BridgeWorld σ → Checked Address
  hasAccountPermissions : (perpetual account operator : Address) → BridgeWorld σ → Checked Bool
  getMarketTokenAddress : (solo : Address) → (marketId : Uint256) → BridgeWorld σ → Checked Address
  getIsGlobalOperator : (solo operator : Address) → BridgeWorld σ → Checked Bool
  getIsLocalOperator : (solo owner operator : Address) → BridgeWorld σ → Checked Bool
  balanceOf : (token account : Address) → BridgeWorld σ → Checked Uint256
  operate : (solo : Address) → List Solo.AccountInfo → List Solo.ActionArgs → BridgeWorld σ →
    Checked (BridgeWorld σ)
  deposit : (perpetual account : Address) → Uint256 → BridgeWorld σ → Checked (BridgeWorld σ)
  withdraw : (perpetual account destination : Address) → Uint256 → BridgeWorld σ →
    Checked (BridgeWorld σ)

namespace P1SoloBridgeProxy
variable {σ : Type}

def EIP712_TRANSFER_STRUCT_SCHEMA : List UInt8 :=
  Abi.ascii ("Transfer(" ++ "address account," ++ "address perpetual," ++
    "uint256 soloAccountNumber," ++ "uint256 soloMarketId," ++ "uint256 amount," ++
    "bytes32 options" ++ ")")

def OPTIONS_MASK_TRANSFER_MODE : Bytes32 := (1 <<< 8) - 1

def OPTIONS_MASK_EXPIRATION : Bytes32 := (1 <<< 120) - 1

def OPTIONS_OFFSET_EXPIRATION : Nat := 8

def encodeTransfer (t : Transfer) : List UInt8 :=
  Abi.addressWord t.account ++ Abi.addressWord t.perpetual ++ Abi.word t.soloAccountNumber ++
    Abi.word t.soloMarketId ++ Abi.word t.amount ++ Abi.word t.options

def getTransferHash (crypto : Crypto) (domain : Bytes32) (t : Transfer) : Bytes32 :=
  let structHash :=
    crypto.keccak256 (Abi.word (crypto.keccak256 EIP712_TRANSFER_STRUCT_SCHEMA) ++ encodeTransfer t)
  crypto.keccak256 ([0x19,0x01] ++ Abi.word domain ++ Abi.word structHash)

def getTransferMode (t : Transfer) : Checked TransferMode :=
  match (t.options &&& OPTIONS_MASK_TRANSFER_MODE).toNat with
  | 0 => .ok .SomeToPerpetual
  | 1 => .ok .SomeToSolo
  | 2 => .ok .AllToPerpetual
  | _ => .error "invalid opcode"

def getExpiration (t : Transfer) : Uint256 :=
  (t.options >>> OPTIONS_OFFSET_EXPIRATION) &&& OPTIONS_MASK_EXPIRATION

def verifySoloMarket (x : BridgeExternals σ) (solo : Address) (t : Transfer) (tokenAddress : Address)
    (w : BridgeWorld σ) : Checked Unit := do
  let marketToken ← x.getMarketTokenAddress solo t.soloMarketId w
  Checked.require (marketToken = tokenAddress) "Solo and Perpetual assets are not the same"

/-- Solo takes deposits from operators only, so both directions need a Solo operator; only a
withdrawal from Perpetual needs the permission there. -/
def isValidOperator (x : BridgeExternals σ) (msg : Msg) (solo : Address) (t : Transfer)
    (toPerpetual : Bool) (w : BridgeWorld σ) : Checked Bool := do
  if msg.sender = t.account then
    return true
  else
    let isGlobalOperator ← x.getIsGlobalOperator solo msg.sender w
    let isSoloOperator ← if isGlobalOperator then pure true
      else x.getIsLocalOperator solo t.account msg.sender w
    if isSoloOperator = false then
      return false
    else if toPerpetual then
      return true
    else
      x.hasAccountPermissions t.perpetual t.account msg.sender w

def verifySignature (crypto : Crypto) (msg : Msg) (t : Transfer) (transferHash : Bytes32)
    (signature : TypedSignature.Signature) (w : BridgeWorld σ) : Checked Unit := do
  let expiration := getExpiration t
  Checked.require (msg.timestamp.toNat ≤ expiration.toNat ∨ expiration = 0) "Signature has expired"
  Checked.require (w.bridge.signatureUsed transferHash = false) "Signature was already used or invalidated"
  let signer ← TypedSignature.recover crypto transferHash signature
  Checked.require (signer = t.account)
    "Sender does not have account permissions and signature is invalid"

def useSignature (w : BridgeWorld σ) (transferHash : Bytes32) : BridgeWorld σ :=
  { w with bridge := { w.bridge with
    signatureUsed := Function.update w.bridge.signatureUsed transferHash true } }

def verifyPermission (crypto : Crypto) (msg : Msg) (t : Transfer) (transferHash : Bytes32)
    (signature : TypedSignature.Signature) (isValidOperator : Bool) (w : BridgeWorld σ) :
    Checked (BridgeWorld σ) :=
  if isValidOperator then
    .ok w
  else do
    verifySignature crypto msg t transferHash signature w
    return useSignature w transferHash

def doSoloOperation (x : BridgeExternals σ) (this solo : Address) (t : Transfer)
    (isWithdrawal withdrawToZero : Bool) (w : BridgeWorld σ) : Checked (BridgeWorld σ) :=
  let amount : Solo.AssetAmount :=
    ⟨!isWithdrawal,.Wei,if withdrawToZero then .Target else .Delta,if withdrawToZero then 0 else t.amount⟩
  x.operate solo [⟨t.account,t.soloAccountNumber⟩]
    [⟨if isWithdrawal then .Withdraw else .Deposit,t.soloAccountNumber,amount,t.soloMarketId,0,this,0,[]⟩] w

def execute (x : BridgeExternals σ) (this solo tokenAddress : Address) (t : Transfer)
    (transferMode : TransferMode) (w : BridgeWorld σ) : Checked (Uint256 × BridgeWorld σ) :=
  match transferMode with
  | .SomeToSolo => do
      let w ← x.withdraw t.perpetual t.account this t.amount w
      let w ← doSoloOperation x this solo t false false w
      return (t.amount,w)
  | toPerpetual => do
      let initialBalance ← x.balanceOf tokenAddress this w
      let w ← doSoloOperation x this solo t true (toPerpetual == .AllToPerpetual) w
      let finalBalance ← x.balanceOf tokenAddress this w
      let amount ← SafeMath.sub finalBalance initialBalance
      let w ← x.deposit t.perpetual t.account amount w
      return (amount,w)

def setStatus (w : BridgeWorld σ) (status : Uint256) : BridgeWorld σ :=
  { w with bridge := { w.bridge with status := status } }

def emit (w : BridgeWorld σ) (log : BridgeLog) : BridgeWorld σ :=
  { w with bridge := { w.bridge with logs := w.bridge.logs ++ [log] } }

def isToPerpetual : TransferMode → Bool
  | .SomeToSolo => false
  | _ => true

/-- The declared return value is never set. -/
def bridgeTransfer (crypto : Crypto) (x : BridgeExternals σ) (this : Address) (msg : Msg) (t : Transfer)
    (signature : TypedSignature.Signature) (w : BridgeWorld σ) : Checked (Uint256 × BridgeWorld σ) := do
  Checked.require (w.bridge.status ≠ ENTERED) "ReentrancyGuard: reentrant call"
  let w := setStatus w ENTERED
  let transferHash := getTransferHash crypto w.bridge.eip712DomainHash t
  let solo := w.bridge.soloMargin
  let tokenAddress ← x.getTokenContract t.perpetual w
  let transferMode ← getTransferMode t
  let toPerpetual := isToPerpetual transferMode
  verifySoloMarket x solo t tokenAddress w
  let isValidOperator ← isValidOperator x msg solo t toPerpetual w
  let w ← verifyPermission crypto msg t transferHash signature isValidOperator w
  let (amount,w) ← execute x this solo tokenAddress t transferMode w
  let w := emit w (.transferred t.account t.perpetual t.soloAccountNumber t.soloMarketId toPerpetual amount)
  return (0,setStatus w NOT_ENTERED)

def invalidateSignature (crypto : Crypto) (x : BridgeExternals σ) (msg : Msg) (t : Transfer)
    (w : BridgeWorld σ) : Checked (BridgeWorld σ) := do
  if msg.sender ≠ t.account then
    let transferMode ← getTransferMode t
    let isValidOperator ← isValidOperator x msg w.bridge.soloMargin t (isToPerpetual transferMode) w
    Checked.require (isValidOperator = true) "Sender does not have permission to invalidate"
  let transferHash := getTransferHash crypto w.bridge.eip712DomainHash t
  return emit (useSignature w transferHash) (.signatureInvalidated t.account transferHash)

end P1SoloBridgeProxy

def bridgeSample : BridgeExternals Unit where
  getTokenContract := fun _ _ => .ok 8
  hasAccountPermissions := fun _ _ _ _ => .ok false
  getMarketTokenAddress := fun _ _ _ => .ok 8
  getIsGlobalOperator := fun _ _ _ => .ok false
  getIsLocalOperator := fun _ _ _ _ => .ok false
  balanceOf := fun _ _ _ => .ok 0
  operate := fun _ _ _ w => .ok w
  deposit := fun _ _ _ w => .ok w
  withdraw := fun _ _ _ _ w => .ok w

end Perpetual
