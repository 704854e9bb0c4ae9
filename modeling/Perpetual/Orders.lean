import Perpetual.Margin
import Perpetual.TypedSignature

/-! `P1Orders` and `P1InverseOrders`. The two contracts share their source up to the
check of a request and the amounts of a fill, which are parameters here. -/
namespace Perpetual

structure Order where
  flags : Bytes32
  amount : Uint256
  limitPrice : Uint256
  triggerPrice : Uint256
  limitFee : Uint256
  maker : Address
  taker : Address
  expiration : Uint256
  deriving DecidableEq, Repr

structure Fill where
  amount : Uint256
  price : Uint256
  fee : Uint256
  isNegativeFee : Bool
  deriving DecidableEq, Repr

structure TradeData where
  order : Order
  fill : Fill
  signature : TypedSignature.Signature
  deriving DecidableEq, Repr

inductive OrderStatus where
  | Open
  | Approved
  | Canceled
  deriving DecidableEq, Repr

inductive OrderLog where
  | orderCanceled (maker : Address) (orderHash : Bytes32)
  | orderApproved (maker : Address) (orderHash : Bytes32)
  | orderFilled (orderHash : Bytes32) (flags : Bytes32) (triggerPrice : Uint256) (fill : Fill)
  deriving DecidableEq, Repr

structure OrdersContract where
  perpetualV1 : Address
  eip712DomainHash : Bytes32
  filledAmount : Bytes32 → Uint256
  status : Bytes32 → OrderStatus
  logs : List OrderLog

namespace Orders

def TRADER_FLAG_ORDERS : Bytes32 := 1

def EIP191_HEADER : List UInt8 := [0x19,0x01]

def EIP712_DOMAIN_SEPARATOR_SCHEMA : List UInt8 :=
  Abi.ascii ("EIP712Domain(" ++ "string name," ++ "string version," ++ "uint256 chainId," ++
    "address verifyingContract" ++ ")")

def EIP712_ORDER_STRUCT_SCHEMA : List UInt8 :=
  Abi.ascii ("Order(" ++ "bytes32 flags," ++ "uint256 amount," ++ "uint256 limitPrice," ++
    "uint256 triggerPrice," ++ "uint256 limitFee," ++ "address maker," ++ "address taker," ++
    "uint256 expiration" ++ ")")

def FLAG_MASK_NULL : Bytes32 := 0

def FLAG_MASK_IS_BUY : Bytes32 := 1

def FLAG_MASK_IS_DECREASE_ONLY : Bytes32 := 1 <<< 1

def FLAG_MASK_IS_NEGATIVE_LIMIT_FEE : Bytes32 := 1 <<< 2

def isBuy (order : Order) : Bool := (order.flags &&& FLAG_MASK_IS_BUY) != FLAG_MASK_NULL

def isDecreaseOnly (order : Order) : Bool :=
  (order.flags &&& FLAG_MASK_IS_DECREASE_ONLY) != FLAG_MASK_NULL

def isNegativeLimitFee (order : Order) : Bool :=
  (order.flags &&& FLAG_MASK_IS_NEGATIVE_LIMIT_FEE) != FLAG_MASK_NULL

def domainHash (crypto : Crypto) (name version : String) (chainId : Uint256) (this : Address) : Bytes32 :=
  crypto.keccak256 (Abi.word (crypto.keccak256 EIP712_DOMAIN_SEPARATOR_SCHEMA) ++
    Abi.word (crypto.keccak256 (Abi.ascii name)) ++ Abi.word (crypto.keccak256 (Abi.ascii version)) ++
    Abi.word chainId ++ Abi.addressWord this)

def constructor (crypto : Crypto) (name : String) (perpetualV1 : Address) (chainId : Uint256)
    (this : Address) : OrdersContract where
  perpetualV1 := perpetualV1
  eip712DomainHash := domainHash crypto name "1.0" chainId this
  filledAmount := fun _ => 0
  status := fun _ => .Open
  logs := []

def encodeOrder (order : Order) : List UInt8 :=
  Abi.word order.flags ++ Abi.word order.amount ++ Abi.word order.limitPrice ++
    Abi.word order.triggerPrice ++ Abi.word order.limitFee ++ Abi.addressWord order.maker ++
    Abi.addressWord order.taker ++ Abi.word order.expiration

def getOrderHash (crypto : Crypto) (domain : Bytes32) (order : Order) : Bytes32 :=
  let structHash :=
    crypto.keccak256 (Abi.word (crypto.keccak256 EIP712_ORDER_STRUCT_SCHEMA) ++ encodeOrder order)
  crypto.keccak256 (EIP191_HEADER ++ Abi.word domain ++ Abi.word structHash)

/-- `abi.decode(data, (TradeData))`: fifteen words, and whatever follows is ignored. -/
def decodeTradeData (data : List UInt8) : Checked TradeData := do
  Checked.require (32 * 15 ≤ data.length) ""
  let maker ← Abi.addressAt data 5
  let taker ← Abi.addressAt data 6
  let isNegativeFee ← Abi.boolAt data 11
  let vType ← Abi.bytes2At data 14
  let word := Abi.wordAt data
  return ⟨⟨word 0,word 1,word 2,word 3,word 4,maker,taker,word 7⟩,⟨word 8,word 9,word 10,isNegativeFee⟩,
    ⟨word 12,word 13,vType⟩⟩

def verifyOrderStateAndSignature (crypto : Crypto) (s : OrdersContract) (tradeData : TradeData)
    (orderHash : Bytes32) : Checked Unit :=
  match s.status orderHash with
  | .Open => do
      let signer ← TypedSignature.recover crypto orderHash tradeData.signature
      Checked.require (tradeData.order.maker = signer) "Order has an invalid signature"
  | .Canceled => .error "Order was already canceled"
  | .Approved => .ok ()

/-- `oraclePrice` is what the trigger price is compared with, and `decreases` compares the
side of the order with the sign of the maker's position. -/
def verifyOrderRequest (oraclePrice : Uint256 → Checked Uint256) (decreases : Bool → Bool → Bool)
    (tradeData : TradeData) (maker taker : Address) (perpetual : Storage) (timestamp price : Uint256) :
    Checked Unit := do
  let order := tradeData.order
  let fill := tradeData.fill
  Checked.require (order.maker = maker) "Order maker does not match maker"
  Checked.require (order.taker = taker ∨ order.taker = 0) "Order taker does not match taker"
  Checked.require (timestamp.toNat ≤ order.expiration.toNat ∨ order.expiration = 0) "Order has expired"
  let isBuyOrder := isBuy order
  let validPrice := if isBuyOrder then decide (fill.price.toNat ≤ order.limitPrice.toNat)
    else decide (order.limitPrice.toNat ≤ fill.price.toNat)
  Checked.require (validPrice = true) "Fill price is invalid"
  let validFee := if isNegativeLimitFee order
    then fill.isNegativeFee && decide (order.limitFee.toNat ≤ fill.fee.toNat)
    else fill.isNegativeFee || decide (fill.fee.toNat ≤ order.limitFee.toNat)
  Checked.require (validFee = true) "Fill fee is invalid"
  let price ← oraclePrice price
  let validTriggerPrice := if isBuyOrder then decide (order.triggerPrice.toNat ≤ price.toNat)
    else decide (price.toNat ≤ order.triggerPrice.toNat)
  Checked.require (order.triggerPrice = 0 ∨ validTriggerPrice = true) "Trigger price has not been reached"
  let balance := perpetual.balances maker
  Checked.require (isDecreaseOnly order = false ∨ (decreases isBuyOrder balance.positionIsPositive = true ∧
    fill.amount.toNat ≤ balance.position.toNat)) "Fill does not decrease position"

def trade (verifyRequest : TradeData → Address → Address → Storage → Uint256 → Uint256 → Checked Unit)
    (result : TradeData → Checked TradeResult) (crypto : Crypto) (msg : Msg) (perpetual : Storage)
    (call : TraderCall) (s : OrdersContract) : Checked (TradeResult × OrdersContract) := do
  Checked.require (msg.sender = s.perpetualV1) "msg.sender must be PerpetualV1"
  Checked.require (call.taker = call.sender ∨ hasAccountPermissions perpetual call.taker call.sender = true)
    "Sender does not have permissions for the taker"
  let tradeData ← decodeTradeData call.data
  let orderHash := getOrderHash crypto s.eip712DomainHash tradeData.order
  verifyOrderStateAndSignature crypto s tradeData orderHash
  verifyRequest tradeData call.maker call.taker perpetual msg.timestamp call.price
  let newFilledAmount ← SafeMath.add (s.filledAmount orderHash) tradeData.fill.amount
  Checked.require (newFilledAmount.toNat ≤ tradeData.order.amount.toNat) "Cannot overfill order"
  let s := { s with
    filledAmount := Function.update s.filledAmount orderHash newFilledAmount
    logs := s.logs ++ [.orderFilled orderHash tradeData.order.flags tradeData.order.triggerPrice
      tradeData.fill] }
  return (← result tradeData,s)

def approveOrder (crypto : Crypto) (msg : Msg) (order : Order) (s : OrdersContract) :
    Checked OrdersContract := do
  Checked.require (msg.sender = order.maker) "Order cannot be approved by non-maker"
  let orderHash := getOrderHash crypto s.eip712DomainHash order
  Checked.require (s.status orderHash ≠ .Canceled) "Canceled order cannot be approved"
  return { s with
    status := Function.update s.status orderHash .Approved
    logs := s.logs ++ [.orderApproved msg.sender orderHash] }

def cancelOrder (crypto : Crypto) (msg : Msg) (order : Order) (s : OrdersContract) :
    Checked OrdersContract := do
  Checked.require (msg.sender = order.maker) "Order cannot be canceled by non-maker"
  let orderHash := getOrderHash crypto s.eip712DomainHash order
  return { s with
    status := Function.update s.status orderHash .Canceled
    logs := s.logs ++ [.orderCanceled msg.sender orderHash] }

end Orders

namespace P1Orders

def EIP712_DOMAIN_NAME : String := "P1Orders"

def verifyOrderRequest : TradeData → Address → Address → Storage → Uint256 → Uint256 → Checked Unit :=
  Orders.verifyOrderRequest Except.ok fun isBuyOrder positionIsPositive =>
    isBuyOrder != positionIsPositive

def tradeResult (tradeData : TradeData) : Checked TradeResult := do
  let fill := tradeData.fill
  let fee ← BaseMath.baseMul fill.fee fill.price
  let isBuyOrder := Orders.isBuy tradeData.order
  let marginPerPosition ← if isBuyOrder == fill.isNegativeFee then SafeMath.sub fill.price fee
    else SafeMath.add fill.price fee
  return ⟨← BaseMath.baseMul fill.amount marginPerPosition,fill.amount,!isBuyOrder,
    Orders.TRADER_FLAG_ORDERS⟩

def trade : Crypto → Msg → Storage → TraderCall → OrdersContract → Checked (TradeResult × OrdersContract) :=
  Orders.trade verifyOrderRequest tradeResult

end P1Orders

namespace P1InverseOrders

def EIP712_DOMAIN_NAME : String := "P1InverseOrders"

def verifyOrderRequest : TradeData → Address → Address → Storage → Uint256 → Uint256 → Checked Unit :=
  Orders.verifyOrderRequest BaseMath.baseReciprocal fun isBuyOrder positionIsPositive =>
    isBuyOrder == positionIsPositive

def tradeResult (tradeData : TradeData) : Checked TradeResult := do
  let fill := tradeData.fill
  let isBuyOrder := Orders.isBuy tradeData.order
  let feeFactor ← if isBuyOrder == fill.isNegativeFee then SafeMath.add BaseMath.base fill.fee
    else SafeMath.sub BaseMath.base fill.fee
  let marginAmount ← SafeMath.div (← SafeMath.mul fill.amount feeFactor) fill.price
  return ⟨marginAmount,fill.amount,isBuyOrder,Orders.TRADER_FLAG_ORDERS⟩

def trade : Crypto → Msg → Storage → TraderCall → OrdersContract → Checked (TradeResult × OrdersContract) :=
  Orders.trade verifyOrderRequest tradeResult

end P1InverseOrders
end Perpetual
