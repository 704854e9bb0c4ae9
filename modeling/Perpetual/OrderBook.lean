import Mathlib.Data.List.Sort
import Perpetual.KeyedTable
import Perpetual.SignedOrders

/-! The order book service: the rows of `signed_orders`, the matching of an incoming
order, and `POST /order` from its first read to its last save. -/
namespace Perpetual

namespace OrderBook

inductive OrderStatus where
  | Null
  | Approved
  | Canceled
  deriving DecidableEq, Repr

structure SRAOrderMetaData where
  orderHash : Bytes32
  filledAmount : ℚ
  state : OrderStatus
  createdAt : ℤ
  deriving DecidableEq

structure SRAOrder where
  order : SignedOrder
  metaData : SRAOrderMetaData
  deriving DecidableEq

structure SignedOrderEntity where
  hash : Bytes32
  limitFee : ℚ
  limitPrice : ℚ
  triggerPrice : ℚ
  expiration : ℤ
  amount : ℤ
  isBuy : Bool
  isDecreaseOnly : Bool
  salt : ℤ
  typedSignature : TypedSignature.Signature
  maker : Address
  createdAt : ℤ
  filledAmount : ℚ
  orderState : OrderStatus
  taker : Address
  deriving DecidableEq

abbrev Table := KeyedTable SignedOrderEntity.hash

def serializeOrder (apiOrder : SRAOrder) : SignedOrderEntity where
  hash := apiOrder.metaData.orderHash
  limitFee := apiOrder.order.limitFee.value
  limitPrice := apiOrder.order.limitPrice.value
  triggerPrice := apiOrder.order.triggerPrice.value
  expiration := BigNumber.toFixed0 apiOrder.order.expiration
  amount := BigNumber.toFixed0 apiOrder.order.amount
  isBuy := apiOrder.order.isBuy
  isDecreaseOnly := apiOrder.order.isDecreaseOnly
  salt := BigNumber.toFixed0 apiOrder.order.salt
  typedSignature := apiOrder.order.typedSignature
  maker := apiOrder.order.maker
  createdAt := apiOrder.metaData.createdAt
  filledAmount := apiOrder.metaData.filledAmount
  orderState := apiOrder.metaData.state
  taker := apiOrder.order.taker

def deserializeOrder (row : SignedOrderEntity) : SignedOrder where
  isBuy := row.isBuy
  isDecreaseOnly := row.isDecreaseOnly
  amount := row.amount
  limitPrice := .ofValue row.limitPrice
  triggerPrice := .ofValue row.triggerPrice
  limitFee := .ofValue row.limitFee
  maker := row.maker
  taker := row.taker
  expiration := row.expiration
  salt := row.salt
  typedSignature := row.typedSignature

def deserializeOrderToSRAOrder (row : SignedOrderEntity) : SRAOrder :=
  ⟨deserializeOrder row,⟨row.hash,row.filledAmount,row.orderState,row.createdAt⟩⟩

/-- The caller passes this function to `filter`, and `filter` passes the position of the
element as the second argument. The default of the buffer is never used. -/
def isFreshOrder (now : ℚ) (apiOrder : SRAOrder) (expirationBufferSeconds : Nat) : Bool :=
  now + expirationBufferSeconds < apiOrder.order.expiration

def filterIndexed {α : Type} (keep : α → Nat → Bool) (values : List α) : List α :=
  (values.zipIdx.filter fun (value,index) => keep value index).map Prod.fst

def comparedTo (x y : ℚ) : ℤ := if x < y then -1 else if y < x then 1 else 0

def compareAskOrder (orderA orderB : SignedOrder) : ℤ :=
  if orderA.limitPrice.value ≠ orderB.limitPrice.value then
    comparedTo orderA.limitPrice.value orderB.limitPrice.value
  else 1

def compareBidOrder (orderA orderB : SignedOrder) : ℤ :=
  if orderA.limitPrice.value ≠ orderB.limitPrice.value then
    comparedTo orderB.limitPrice.value orderA.limitPrice.value
  else 1

/-- What the service is deployed with, and `Array.prototype.sort`. The comparators answer 1 for
equal prices both ways round, so no more is known of the result than that it permutes. -/
structure Environment where
  crypto : Crypto
  domainHash : Bytes32
  p1Orders : Address
  operator : Address
  sort : (SRAOrder → SRAOrder → ℤ) → List SRAOrder → List SRAOrder
  sorted : ∀ compare orders, (sort compare orders).Perm orders

namespace Environment

def getOrderHash (env : Environment) : SignedOrder → Checked Bytes32 :=
  SignedOrder.getOrderHash env.crypto env.domainHash

def contractHash (env : Environment) : Order → Bytes32 :=
  Orders.getOrderHash env.crypto env.domainHash

end Environment

def Environment.sample : Environment where
  crypto := .sample
  domainHash := 0
  p1Orders := 1
  operator := 2
  sort := fun compare => List.insertionSort fun orderA orderB => ¬ compare orderB orderA < 0
  sorted := fun _ _ => List.perm_insertionSort _ _

def sampleSigned (isBuy : Bool) (amount expiration : ℚ) : SignedOrder where
  isBuy := isBuy
  isDecreaseOnly := false
  amount := amount
  limitPrice := .ofValue 5
  triggerPrice := .ofValue 0
  limitFee := .ofValue 0
  maker := 1
  taker := 0
  expiration := expiration
  salt := 7
  typedSignature := ⟨0,0,0⟩

def sampleMaker (filledAmount : ℚ) : SignedOrderEntity :=
  serializeOrder ⟨sampleSigned false 10 100,⟨100,filledAmount,.Null,0⟩⟩

def findBy (signedOrder : SignedOrder) (table : Table) : List SignedOrderEntity :=
  table.rows.filter fun row => row.isBuy = !signedOrder.isBuy

def fillable (now : ℚ) (rows : List SignedOrderEntity) (signedOrder : SignedOrder) : List SRAOrder :=
  ((filterIndexed (isFreshOrder now) (rows.map deserializeOrderToSRAOrder)).filter
    fun apiOrder => apiOrder.metaData.filledAmount < apiOrder.order.amount).filter
    fun apiOrder => if signedOrder.isBuy
      then decide (apiOrder.order.limitPrice.value ≤ signedOrder.limitPrice.value)
      else decide (signedOrder.limitPrice.value ≤ apiOrder.order.limitPrice.value)

def matchLoop : List SRAOrder → ℚ → ℚ × List (SRAOrder × ℚ)
  | [],remainingAmount => (remainingAmount,[])
  | apiOrder::rest,remainingAmount =>
      if remainingAmount ≤ 0 then (remainingAmount,[])
      else
        let tradedAmount := min remainingAmount (apiOrder.order.amount - apiOrder.metaData.filledAmount)
        let (left,fills) := matchLoop rest (remainingAmount - tradedAmount)
        (left,(apiOrder,tradedAmount)::fills)

structure TradeArg where
  maker : Address
  taker : Address
  trader : Address
  data : TradeData
  deriving DecidableEq, Repr

def fillSignedOrder (env : Environment) (taker : Address) (order : SignedOrder) (amount : ℚ)
    (price fee : BaseValue) : Checked TradeArg := do
  let data ← SignedOrder.fillToTradeData order amount price fee
  return ⟨order.maker,taker,env.p1Orders,data⟩

def tradesOf (env : Environment) (signedOrder : SignedOrder) :
    List (SRAOrder × ℚ) → Checked (List TradeArg)
  | [] => .ok []
  | (apiOrder,tradedAmount)::rest => do
      let maker ← fillSignedOrder env env.operator apiOrder.order tradedAmount
        apiOrder.order.limitPrice apiOrder.order.limitFee
      let taker ← fillSignedOrder env env.operator signedOrder tradedAmount
        apiOrder.order.limitPrice apiOrder.order.limitFee
      let trades ← tradesOf env signedOrder rest
      return maker::taker::trades

structure Plan where
  remainingAmount : ℚ
  fills : List (SRAOrder × ℚ)
  trades : List TradeArg
  deriving DecidableEq

def updated (apiOrder : SRAOrder) (tradedAmount : ℚ) : SRAOrder :=
  { apiOrder with metaData :=
    { apiOrder.metaData with filledAmount := apiOrder.metaData.filledAmount + tradedAmount } }

def Plan.updatedOrders (plan : Plan) : List SignedOrderEntity :=
  plan.fills.map fun (apiOrder,tradedAmount) => serializeOrder (updated apiOrder tradedAmount)

def fulfillOrder (env : Environment) (now : ℚ) (rows : List SignedOrderEntity)
    (signedOrder : SignedOrder) : Checked Plan := do
  let allOrders := fillable now rows signedOrder
  if allOrders ≠ [] ∧ 0 < signedOrder.amount then
    let apiOrders := env.sort (fun orderA orderB => if signedOrder.isBuy
      then compareAskOrder orderA.order orderB.order
      else compareBidOrder orderA.order orderB.order) allOrders
    let (remainingAmount,fills) := matchLoop apiOrders signedOrder.amount
    return ⟨remainingAmount,fills,← tradesOf env signedOrder fills⟩
  else return ⟨signedOrder.amount,[],[]⟩

abbrev Filled := Bytes32 → Nat

def fillOnChain (hash : Order → Bytes32) (data : TradeData) (filled : Filled) : Checked Filled := do
  let newFilledAmount := filled (hash data.order) + data.fill.amount.toNat
  Checked.require (newFilledAmount ≤ data.order.amount.toNat) "Cannot overfill order"
  return Function.update filled (hash data.order) newFilledAmount

def commitOnChain (hash : Order → Bytes32) : List TradeData → Filled → Checked Filled
  | [],filled => .ok filled
  | data::rest,filled => do
      let filled ← fillOnChain hash data filled
      commitOnChain hash rest filled

def commit (env : Environment) (plan : Plan) : Filled → Checked Filled :=
  commitOnChain env.contractHash (plan.trades.map TradeArg.data)

def addOrder (env : Environment) (createdAt : ℤ) (signedOrder : SignedOrder) (filledAmount : ℚ)
    (table : Table) : Checked Table := do
  let orderHash ← env.getOrderHash signedOrder
  return table.save (serializeOrder ⟨signedOrder,⟨orderHash,filledAmount,.Null,createdAt⟩⟩)

structure Book where
  table : Table
  filled : Filled

def Agrees (book : Book) : Prop := ∀ row ∈ book.table.rows, row.filledAmount = book.filled row.hash

def Book.observed (book : Book) (h : Bytes32) : Option ℚ × Nat :=
  ((book.table.find h).map SignedOrderEntity.filledAmount,book.filled h)

theorem Agrees.observed {book : Book} (agrees : Agrees book) {h : Bytes32} {v : ℚ} {n : Nat}
    (seen : book.observed h = (some v,n)) : v = n := by
  obtain ⟨row,found,rfl⟩ := Option.map_eq_some_iff.mp (congrArg Prod.fst seen)
  obtain ⟨mem,rfl⟩ := KeyedTable.findSome.mp found
  rw [agrees row mem]
  exact_mod_cast congrArg Prod.snd seen

def postOrder (env : Environment) (now : ℚ) (createdAt : ℤ) (rows : List SignedOrderEntity)
    (signedOrder : SignedOrder) (book : Book) : Book :=
  match fulfillOrder env now rows signedOrder with
  | .error _ => book
  | .ok plan => match commit env plan book.filled with
    | .error _ => book
    | .ok filled =>
        let table := plan.updatedOrders.foldl KeyedTable.save book.table
        match addOrder env createdAt signedOrder (signedOrder.amount - plan.remainingAmount) table with
        | .error _ => ⟨table,filled⟩
        | .ok table => ⟨table,filled⟩

end OrderBook
end Perpetual
