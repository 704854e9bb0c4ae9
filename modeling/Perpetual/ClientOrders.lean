import Perpetual.Decimals
import Perpetual.HexText
import Perpetual.SignedOrders
import Perpetual.TradeDataBytes

/-! The client's orders as the texts it handles (`orders.ts`, `utils.ts`), with what it uses of
the ethers package as that documents it. A hash and an encoding are texts again. -/
namespace Perpetual

abbrev Text := List Char

def stripHexPrefix (input : Text) : Text :=
  match input with
  | '0' :: 'x' :: rest => rest
  | _ => input

namespace Ethers

def arrayify : Text → Checked (List UInt8)
  | '0' :: 'x' :: digits => match HexText.bytes digits with
      | some data => .ok data
      | none => .error "invalid arrayify value"
  | _ => .error "invalid arrayify value"

def hexlify (data : List UInt8) : Text := '0' :: 'x' :: HexText.ofBytes data

def bigNumberFrom (text : Text) : Checked ℤ :=
  match Decimal.readInteger text with
  | some v => .ok v
  | none => .error "invalid BigNumber string"

def bytesN (n : Nat) (invalid : String) (text : Text) : Checked (List UInt8) := do
  let data ← arrayify text
  Checked.require (data.length = n) invalid
  return data

/-! Values in `solidityKeccak256`. -/

def packBytes2 : Text → Checked (List UInt8) := bytesN 2 "invalid value for bytes2"

def packBytes32 : Text → Checked (List UInt8) := bytesN 32 "invalid value for bytes32"

def packUint256 (text : Text) : Checked (List UInt8) := do
  let v ← bigNumberFrom text
  let x ← SignedOrder.packUint256 v
  return Abi.word x

/-! Values in `defaultAbiCoder`. -/

def encodeBytes32 : Text → Checked (List UInt8) := bytesN 32 "incorrect data length"

def encodeUint256 (text : Text) : Checked (List UInt8) := do
  let v ← bigNumberFrom text
  let x ← SignedOrder.uint256 v
  return Abi.word x

def isUpper (c : Char) : Bool := decide ('A' ≤ c ∧ c ≤ 'F')

def isLower (c : Char) : Bool := decide ('a' ≤ c ∧ c ≤ 'f')

def mixedCase (digits : Text) : Bool := digits.any isUpper && digits.any isLower

def checksumAddress (crypto : Crypto) (digits : Text) : Text :=
  let lower := digits.map Char.toLower
  let hashed := HexText.ofBytes (Abi.word (crypto.keccak256 (lower.map fun c => UInt8.ofNat c.toNat)))
  List.zipWith (fun c h => if 8 ≤ (HexText.digit h).getD 0 then c.toUpper else c) lower hashed

def base36 (c : Char) : Option Nat :=
  if '0' ≤ c ∧ c ≤ '9' then some (c.toNat - 48)
  else if 'A' ≤ c.toUpper ∧ c.toUpper ≤ 'Z' then some (c.toUpper.toNat - 55)
  else none

def ibanChecksum (address : Text) : Nat :=
  98 - ((address.drop 4 ++ address.take 2 ++ ['0','0']).foldl (fun n c =>
    let digit := (base36 c).getD 0
    n * (if digit < 10 then 10 else 100) + digit) 0) % 97

/-- The other format of addresses, in base 36 and with a checksum. -/
def isIcap (text : Text) : Bool :=
  let digits := text.drop 4
  text.take 2 == ['X','E'] && ((text.drop 2).take 2).all Char.isDigit &&
    (digits.length == 30 || digits.length == 31) && digits.all (fun c => (base36 c).isSome)

def base36Value (digits : Text) : Nat := digits.foldl (fun n c => n * 36 + (base36 c).getD 0) 0

/-- An address in mixed case has to be its checksum. -/
def getAddress (crypto : Crypto) (text : Text) : Checked Address :=
  let digits := stripHexPrefix text
  if digits.length = 40 ∧ HexText.IsHex digits then do
    Checked.require (mixedCase digits = false ∨ digits = checksumAddress crypto digits) "bad address checksum"
    return BitVec.ofNat 160 (HexText.value digits)
  else if isIcap text = true then do
    Checked.require (Nat.ofDigitChars 10 ((text.drop 2).take 2) 0 = ibanChecksum text) "bad icap checksum"
    Checked.require (base36Value (text.drop 4) < 2 ^ 160) "invalid address"
    return BitVec.ofNat 160 (base36Value (text.drop 4))
  else .error "invalid address"

theorem hexAddress {crypto : Crypto} {text : Text} (long : (stripHexPrefix text).length = 40)
    (hex : HexText.IsHex (stripHexPrefix text)) {a : Address} : getAddress crypto text = .ok a ↔
      (mixedCase (stripHexPrefix text) = false ∨
        stripHexPrefix text = checksumAddress crypto (stripHexPrefix text)) ∧
      BitVec.ofNat 160 (HexText.value (stripHexPrefix text)) = a := by
  simp only [getAddress, if_pos (And.intro long hex), Checked.bindOk, Checked.requireOk, exists_const,
    Checked.pureOk]

theorem hexOrIcap {crypto : Crypto} {text : Text} {a : Address} (read : getAddress crypto text = .ok a) :
    (stripHexPrefix text).length = 40 ∧ HexText.IsHex (stripHexPrefix text) ∨ isIcap text = true := by
  unfold getAddress at read
  simp only at read
  split at read
  · rename_i hex
    exact .inl hex
  · split at read
    · rename_i icap
      exact .inr icap
    · cases read

def encodeAddress (crypto : Crypto) (text : Text) : Checked (List UInt8) := do
  let a ← getAddress crypto text
  return Abi.addressWord a

def encodeBool (b : Bool) : List UInt8 := Abi.word (if b then 1 else 0)

def keccak256 (crypto : Crypto) (data : List UInt8) : Text := hexlify (Abi.word (crypto.keccak256 data))

end Ethers

namespace Client

structure BaseValue where
  value : Decimal
  deriving DecidableEq

def BaseValue.toSolidity (x : BaseValue) : Text :=
  (x.value.abs.shiftedBy Perpetual.BaseValue.BASE_DECIMALS).toFixed0

def BaseValue.isNegative (x : BaseValue) : Bool := x.value.negative

structure SignedOrder where
  isBuy : Bool
  isDecreaseOnly : Bool
  amount : Decimal
  limitPrice : BaseValue
  triggerPrice : BaseValue
  limitFee : BaseValue
  maker : Text
  taker : Text
  expiration : Decimal
  salt : Decimal
  typedSignature : Text
  deriving DecidableEq

def combineHexStrings (args : List Text) : Text := '0' :: 'x' :: args.flatMap stripHexPrefix

def addressToBytes32 (input : Text) : Text := "0x000000000000000000000000".toList ++ stripHexPrefix input

def padStart (text : Text) (length : Nat) : Text := List.replicate (length - text.length) '0' ++ text

def toString16 (x : Decimal) : Text :=
  Decimal.signed (x.negative && x.coefficient != 0) (Nat.toDigits 16 x.rounded)

def bnToBytes32 (value : Decimal) : Checked Text := do
  Checked.require (value.isInteger = true) "bnToBytes32: value must be an integer"
  return '0' :: 'x' :: padStart (toString16 value) 64

def sliceLast (text : Text) (length : Nat) : Text := text.drop (text.length - length)

def hashString (crypto : Crypto) (input : List UInt8) : Text := Ethers.keccak256 crypto input

namespace SignedOrder

def booleanFlag (order : SignedOrder) : Nat :=
  (if order.limitFee.isNegative then SignedOrder.ORDER_FLAGS.IS_NEGATIVE_LIMIT_FEE else 0) +
    (if order.isDecreaseOnly then SignedOrder.ORDER_FLAGS.IS_DECREASE_ONLY else 0) +
    (if order.isBuy then SignedOrder.ORDER_FLAGS.IS_BUY else 0)

def getOrderFlags (order : SignedOrder) : Checked Text := do
  let saltBytes ← bnToBytes32 order.salt
  return '0' :: 'x' :: sliceLast saltBytes 63 ++ Nat.toDigits 10 order.booleanFlag

end SignedOrder

def EIP712_DOMAIN_STRING : List UInt8 :=
  Abi.ascii "EIP712Domain(string name,string version,uint256 chainId,address verifyingContract)"

def DEFAULT_EIP712_DOMAIN_NAME : List UInt8 := Abi.ascii "P1Orders"

def EIP712_DOMAIN_VERSION : List UInt8 := Abi.ascii "1.0"

def getDomainHash (crypto : Crypto) (networkId : Nat) (p1Orders : Text) : Checked Text := do
  let schema ← Ethers.packBytes32 (hashString crypto EIP712_DOMAIN_STRING)
  let name ← Ethers.packBytes32 (hashString crypto DEFAULT_EIP712_DOMAIN_NAME)
  let version ← Ethers.packBytes32 (hashString crypto EIP712_DOMAIN_VERSION)
  let network ← Ethers.packUint256 (Nat.toDigits 10 networkId)
  let verifyingContract ← Ethers.packBytes32 (addressToBytes32 p1Orders)
  return Ethers.keccak256 crypto (schema ++ name ++ version ++ network ++ verifyingContract)

def getEIP712Hash (crypto : Crypto) (domainHash structHash : Text) : Checked Text := do
  let header ← Ethers.packBytes2 "0x1901".toList
  let domain ← Ethers.packBytes32 domainHash
  let struct ← Ethers.packBytes32 structHash
  return Ethers.keccak256 crypto (header ++ domain ++ struct)

namespace SignedOrder

def getStructHash (crypto : Crypto) (order : SignedOrder) : Checked Text := do
  let flagsText ← order.getOrderFlags
  let schema ← Ethers.packBytes32 (hashString crypto SignedOrder.EIP712_ORDER_STRUCT_STRING)
  let flags ← Ethers.packBytes32 flagsText
  let amount ← Ethers.packUint256 order.amount.toFixed0
  let limitPrice ← Ethers.packUint256 order.limitPrice.toSolidity
  let triggerPrice ← Ethers.packUint256 order.triggerPrice.toSolidity
  let limitFee ← Ethers.packUint256 order.limitFee.toSolidity
  let maker ← Ethers.packBytes32 (addressToBytes32 order.maker)
  let taker ← Ethers.packBytes32 (addressToBytes32 order.taker)
  let expiration ← Ethers.packUint256 order.expiration.toFixed0
  return Ethers.keccak256 crypto (schema ++ (flags ++ amount ++ limitPrice ++ triggerPrice ++ limitFee ++
    maker ++ taker ++ expiration))

def getOrderHash (crypto : Crypto) (networkId : Nat) (p1Orders : Text) (order : SignedOrder) : Checked Text := do
  let structHash ← order.getStructHash crypto
  let domainHash ← getDomainHash crypto networkId p1Orders
  getEIP712Hash crypto domainHash structHash

def orderToBytes (crypto : Crypto) (order : SignedOrder) : Checked Text := do
  let flagsText ← order.getOrderFlags
  let flags ← Ethers.encodeBytes32 flagsText
  let amount ← Ethers.encodeUint256 order.amount.toFixed0
  let limitPrice ← Ethers.encodeUint256 order.limitPrice.toSolidity
  let triggerPrice ← Ethers.encodeUint256 order.triggerPrice.toSolidity
  let limitFee ← Ethers.encodeUint256 order.limitFee.toSolidity
  let maker ← Ethers.encodeAddress crypto order.maker
  let taker ← Ethers.encodeAddress crypto order.taker
  let expiration ← Ethers.encodeUint256 order.expiration.toFixed0
  return Ethers.hexlify (flags ++ amount ++ limitPrice ++ triggerPrice ++ limitFee ++ maker ++ taker ++ expiration)

def fillToTradeData (crypto : Crypto) (order : SignedOrder) (amount : Decimal) (price fee : BaseValue) :
    Checked Text := do
  let orderData ← order.orderToBytes crypto
  let signatureData := order.typedSignature ++ List.replicate 60 '0'
  let amount ← Ethers.encodeUint256 amount.toFixed0
  let price ← Ethers.encodeUint256 price.toSolidity
  let feeWord ← Ethers.encodeUint256 fee.toSolidity
  let fillData := Ethers.hexlify (amount ++ price ++ feeWord ++ Ethers.encodeBool fee.isNegative)
  return combineHexStrings [orderData,fillData,signatureData]

end SignedOrder
end Client
end Perpetual
