import Perpetual.EncodedFills
import Perpetual.OrderBook

/-! Orders as JSON and as rows of `signed_orders`, and what they are when they are read again. A number
is read from any text, and is not finite if the text spells none. -/
namespace Perpetual
namespace Client

def NULL_ADDRESS : Text := '0' :: 'x' :: List.replicate 40 '0'

structure OrderJson where
  isBuy : Bool
  isDecreaseOnly : Bool
  amount : Text
  limitPrice : Text
  triggerPrice : Text
  limitFee : Text
  maker : Text
  taker : Option Text
  expiration : Text
  typedSignature : Text
  salt : Text

def jsonifyPerpetualOrder (order : SignedOrder) : OrderJson where
  isBuy := order.isBuy
  isDecreaseOnly := order.isDecreaseOnly
  amount := order.amount.toFixed0
  limitPrice := order.limitPrice.value.toText
  triggerPrice := order.triggerPrice.value.toText
  limitFee := order.limitFee.value.toText
  maker := order.maker
  taker := some order.taker
  expiration := order.expiration.toFixed0
  typedSignature := order.typedSignature
  salt := order.salt.toFixed0

def unmarshallOrder (signedOrderRaw : OrderJson) : Option SignedOrder := do
  let limitPrice ← Decimal.ofText signedOrderRaw.limitPrice
  let amount ← Decimal.ofText signedOrderRaw.amount
  let triggerPrice ← Decimal.ofText signedOrderRaw.triggerPrice
  let limitFee ← Decimal.ofText signedOrderRaw.limitFee
  let expiration ← Decimal.ofText signedOrderRaw.expiration
  let salt ← Decimal.ofText signedOrderRaw.salt
  return {
    isBuy := signedOrderRaw.isBuy
    isDecreaseOnly := signedOrderRaw.isDecreaseOnly
    amount := amount
    limitPrice := ⟨limitPrice⟩
    triggerPrice := ⟨triggerPrice⟩
    limitFee := ⟨limitFee⟩
    maker := signedOrderRaw.maker
    taker := signedOrderRaw.taker.getD NULL_ADDRESS
    expiration := expiration
    salt := salt
    typedSignature := signedOrderRaw.typedSignature }

structure SRAOrderMetaData where
  orderHash : Text
  filledAmount : Decimal
  createdAt : Option Text
  state : OrderBook.OrderStatus
  deriving DecidableEq

structure SRAOrder where
  order : SignedOrder
  metaData : SRAOrderMetaData
  deriving DecidableEq

structure SignedOrderEntity where
  hash : Text
  limitFee : Text
  limitPrice : Text
  triggerPrice : Text
  expiration : Text
  amount : Text
  isBuy : Bool
  isDecreaseOnly : Bool
  salt : Text
  typedSignature : Text
  maker : Text
  createdAt : Option Text
  filledAmount : Text
  orderState : OrderBook.OrderStatus
  taker : Text

def serializeOrder (apiOrder : SRAOrder) : SignedOrderEntity :=
  let jsonifiedSignedOrder := jsonifyPerpetualOrder apiOrder.order
  { hash := apiOrder.metaData.orderHash
    limitFee := jsonifiedSignedOrder.limitFee
    limitPrice := jsonifiedSignedOrder.limitPrice
    triggerPrice := jsonifiedSignedOrder.triggerPrice
    expiration := jsonifiedSignedOrder.expiration
    amount := jsonifiedSignedOrder.amount
    isBuy := jsonifiedSignedOrder.isBuy
    isDecreaseOnly := jsonifiedSignedOrder.isDecreaseOnly
    salt := jsonifiedSignedOrder.salt
    typedSignature := jsonifiedSignedOrder.typedSignature
    maker := jsonifiedSignedOrder.maker
    createdAt := apiOrder.metaData.createdAt
    filledAmount := apiOrder.metaData.filledAmount.toText
    orderState := apiOrder.metaData.state
    taker := apiOrder.order.taker }

def deserializeOrder (signedOrderEntity : SignedOrderEntity) : Option SignedOrder := do
  let amount ← Decimal.ofText signedOrderEntity.amount
  let salt ← Decimal.ofText signedOrderEntity.salt
  let expiration ← Decimal.ofText signedOrderEntity.expiration
  let limitFee ← Decimal.ofText signedOrderEntity.limitFee
  let limitPrice ← Decimal.ofText signedOrderEntity.limitPrice
  let triggerPrice ← Decimal.ofText signedOrderEntity.triggerPrice
  return {
    typedSignature := signedOrderEntity.typedSignature
    maker := signedOrderEntity.maker
    taker := signedOrderEntity.taker
    amount := amount
    salt := salt
    expiration := expiration
    limitFee := ⟨limitFee⟩
    limitPrice := ⟨limitPrice⟩
    triggerPrice := ⟨triggerPrice⟩
    isBuy := signedOrderEntity.isBuy
    isDecreaseOnly := signedOrderEntity.isDecreaseOnly }

def deserializeOrderToSRAOrder (signedOrderEntity : SignedOrderEntity) : Option SRAOrder := do
  let order ← deserializeOrder signedOrderEntity
  let filledAmount ← Decimal.ofText signedOrderEntity.filledAmount
  return ⟨order,⟨signedOrderEntity.hash,filledAmount,signedOrderEntity.createdAt,signedOrderEntity.orderState⟩⟩

inductive Pass where
  | json
  | database (metaData : SRAOrderMetaData)

def Pass.rebuild : Pass → SignedOrder → Option SignedOrder
  | .json,order => unmarshallOrder (jsonifyPerpetualOrder order)
  | .database metaData,order => (deserializeOrderToSRAOrder (serializeOrder ⟨order,metaData⟩)).map SRAOrder.order

def rebuilt (passes : List Pass) (order : SignedOrder) : Option SignedOrder :=
  passes.foldlM (fun order pass => pass.rebuild order) order

def SignedOrder.reread (order : SignedOrder) : SignedOrder :=
  { order with
    amount := order.amount.reread
    limitPrice := ⟨order.limitPrice.value.plainZero⟩
    triggerPrice := ⟨order.triggerPrice.value.plainZero⟩
    limitFee := ⟨order.limitFee.value.plainZero⟩
    expiration := order.expiration.reread
    salt := order.salt.reread }

theorem readsFixed (x : Decimal) : Decimal.ofText x.toFixed0 = some x.reread := x.ofToFixed0

theorem readsText (x : Decimal) : Decimal.ofText x.toText = some x.plainZero := x.ofToText

theorem rowRead (apiOrder : SRAOrder) : deserializeOrderToSRAOrder (serializeOrder apiOrder) =
    some ⟨apiOrder.order.reread,
      { apiOrder.metaData with filledAmount := apiOrder.metaData.filledAmount.plainZero }⟩ := by
  simp only [deserializeOrderToSRAOrder, deserializeOrder, serializeOrder, jsonifyPerpetualOrder, readsFixed,
    readsText, Option.bind_eq_bind, Option.bind_some, Option.pure_def]
  rfl

theorem passRead (pass : Pass) (order : SignedOrder) : pass.rebuild order = some order.reread := by
  cases pass with
  | json =>
    simp only [Pass.rebuild, unmarshallOrder, jsonifyPerpetualOrder, readsFixed, readsText, Option.bind_eq_bind,
      Option.bind_some, Option.pure_def]
    rfl
  | database metaData => rw [Pass.rebuild, rowRead, Option.map_some]

theorem rereadValue (x : Decimal) : x.reread.value = (BigNumber.toFixed0 x.value : ℚ) := by
  rw [← roundedFixed0, ← x.rereadRounded, Decimal.value, Decimal.roundedInt, Decimal.reread,
    Decimal.magnitudeMake, Decimal.roundedMake, zpow_zero, mul_one]
  split <;> push_cast <;> rfl

theorem plainNumber (x : Decimal) : (⟨x.plainZero⟩ : BaseValue).number = .ofValue x.value := by
  have value : x.plainZero.value = x.value := by
    by_cases nothing : x.coefficient = 0
    · have zero' (y : Decimal) (nothing : y.coefficient = 0) : y.value = 0 := by
        rw [Decimal.value, Decimal.magnitude, nothing, Nat.cast_zero, zero_mul, neg_zero, ite_self]
      rw [zero' x nothing, zero' x.plainZero nothing]
    · rw [Decimal.plainZeroSelf.mpr fun zero' => nothing (congrArg Decimal.coefficient zero')]
  have signed : (⟨x.plainZero⟩ : BaseValue).number ≠ .negativeZero := by
    intro same
    have negative : x.plainZero.negative = true := congrArg Perpetual.BaseValue.isNegative same
    have nothing : x.plainZero.value = 0 := congrArg Perpetual.BaseValue.value same
    have plain := (plainSign nothing.ge).1
    rw [negative, Bool.true_and] at plain
    have coefficient := (Bool.and_eq_true_iff.mp negative).2
    exact Bool.false_ne_true (plain.symm.trans coefficient)
  rw [← Perpetual.BaseValue.ofValueSelf signed, ← value]
  rfl

theorem rereadNumbers (order : SignedOrder) (maker taker : Address) (signature : TypedSignature.Signature)
    (metaData : OrderBook.SRAOrderMetaData) : order.reread.numbers maker taker signature =
      OrderBook.deserializeOrder (OrderBook.serializeOrder ⟨order.numbers maker taker signature,metaData⟩) := by
  simp only [SignedOrder.numbers, SignedOrder.reread, OrderBook.deserializeOrder, OrderBook.serializeOrder,
    rereadValue, plainNumber]
  rfl

structure SameNumbers (order read : SignedOrder) : Prop where
  isBuy : read.isBuy = order.isBuy
  isDecreaseOnly : read.isDecreaseOnly = order.isDecreaseOnly
  amount : read.amount.roundedInt = order.amount.roundedInt
  limitPrice : read.limitPrice.toSolidity = order.limitPrice.toSolidity
  triggerPrice : read.triggerPrice.toSolidity = order.triggerPrice.toSolidity
  limitFee : read.limitFee.toSolidity = order.limitFee.toSolidity
  maker : read.maker = order.maker
  taker : read.taker = order.taker
  expiration : read.expiration.roundedInt = order.expiration.roundedInt
  whole : read.salt.isInteger = order.salt.isInteger
  salt : toString16 read.salt = toString16 order.salt
  typedSignature : read.typedSignature = order.typedSignature

namespace SameNumbers
variable {order read last : SignedOrder}

theorem self (order : SignedOrder) : SameNumbers order order :=
  ⟨rfl,rfl,rfl,rfl,rfl,rfl,rfl,rfl,rfl,rfl,rfl,rfl⟩

theorem trans (first : SameNumbers order read) (second : SameNumbers read last) : SameNumbers order last where
  isBuy := second.isBuy.trans first.isBuy
  isDecreaseOnly := second.isDecreaseOnly.trans first.isDecreaseOnly
  amount := second.amount.trans first.amount
  limitPrice := second.limitPrice.trans first.limitPrice
  triggerPrice := second.triggerPrice.trans first.triggerPrice
  limitFee := second.limitFee.trans first.limitFee
  maker := second.maker.trans first.maker
  taker := second.taker.trans first.taker
  expiration := second.expiration.trans first.expiration
  whole := second.whole.trans first.whole
  salt := second.salt.trans first.salt
  typedSignature := second.typedSignature.trans first.typedSignature

theorem reread (whole : order.salt.isInteger = true) : SameNumbers order order.reread := by
  have kept : order.reread.salt = order.salt.plainZero := Decimal.rereadInteger whole
  refine ⟨rfl,rfl,Decimal.rereadRounded _,rfl,rfl,rfl,rfl,rfl,Decimal.rereadRounded _,by rw [kept]; rfl,?_,rfl⟩
  rw [kept]
  change Decimal.signed ((order.salt.negative && order.salt.coefficient != 0) && order.salt.coefficient != 0) _ = _
  rw [Bool.and_assoc, Bool.and_self]
  rfl

end SameNumbers

theorem passesRead {order : SignedOrder} (whole : order.salt.isInteger = true) (passes : List Pass) :
    ∃ read, rebuilt passes order = some read ∧ SameNumbers order read ∧
      (order.limitFee.value ≠ .zero true → read.limitFee = order.limitFee) := by
  induction passes generalizing order with
  | nil => exact ⟨order,rfl,.self order,fun _ => rfl⟩
  | cons pass rest ih =>
    have first := SameNumbers.reread whole
    obtain ⟨read,reads,same,fee⟩ := ih (first.whole.trans whole)
    refine ⟨read,?_,first.trans same,fun signed => ?_⟩
    · rw [rebuilt, List.foldlM_cons, passRead]
      exact reads
    · have kept : order.reread.limitFee = order.limitFee := congrArg BaseValue.mk (Decimal.plainZeroSelf.mpr signed)
      rw [← kept]
      exact fee (by rwa [kept])

/-! What the order hash and the calldata read after the flags. -/

namespace SignedOrder

def packedRest (order : SignedOrder) : Checked (List UInt8) := do
  let amount ← Ethers.packUint256 order.amount.toFixed0
  let limitPrice ← Ethers.packUint256 order.limitPrice.toSolidity
  let triggerPrice ← Ethers.packUint256 order.triggerPrice.toSolidity
  let limitFee ← Ethers.packUint256 order.limitFee.toSolidity
  let maker ← Ethers.packBytes32 (addressToBytes32 order.maker)
  let taker ← Ethers.packBytes32 (addressToBytes32 order.taker)
  let expiration ← Ethers.packUint256 order.expiration.toFixed0
  return amount ++ limitPrice ++ triggerPrice ++ limitFee ++ maker ++ taker ++ expiration

def encodedRest (crypto : Crypto) (order : SignedOrder) : Checked (List UInt8) := do
  let amount ← Ethers.encodeUint256 order.amount.toFixed0
  let limitPrice ← Ethers.encodeUint256 order.limitPrice.toSolidity
  let triggerPrice ← Ethers.encodeUint256 order.triggerPrice.toSolidity
  let limitFee ← Ethers.encodeUint256 order.limitFee.toSolidity
  let maker ← Ethers.encodeAddress crypto order.maker
  let taker ← Ethers.encodeAddress crypto order.taker
  let expiration ← Ethers.encodeUint256 order.expiration.toFixed0
  return amount ++ limitPrice ++ triggerPrice ++ limitFee ++ maker ++ taker ++ expiration

variable {order read : SignedOrder}

def flags (order : SignedOrder) : Text := '0' :: 'x' :: (saltDigits order.salt ++ [order.booleanFlag.digitChar])

theorem structSplit (crypto : Crypto) (whole : order.salt.isInteger = true) : order.getStructHash crypto = (do
    let flags ← Ethers.packBytes32 order.flags
    let rest ← order.packedRest
    return Ethers.keccak256 crypto
      (Abi.word (crypto.keccak256 SignedOrder.EIP712_ORDER_STRUCT_STRING) ++ (flags ++ rest))) := by
  rw [getStructHash, flagsWritten whole, Checked.okBind, hashString, Ethers.keccak256, Ethers.packHash,
    Checked.okBind, packedRest]
  simp only [bind_assoc, pure_bind, List.append_assoc]
  rfl

theorem bytesSplit (crypto : Crypto) (whole : order.salt.isInteger = true) : order.orderToBytes crypto = (do
    let flags ← Ethers.encodeBytes32 order.flags
    let rest ← order.encodedRest crypto
    return Ethers.hexlify (flags ++ rest)) := by
  rw [orderToBytes, flagsWritten whole, Checked.okBind, encodedRest]
  simp only [bind_assoc, pure_bind, List.append_assoc]
  rfl

end SignedOrder

theorem readsSame {x y : Decimal} (same : x.roundedInt = y.roundedInt) :
    Ethers.bigNumberFrom x.toFixed0 = Ethers.bigNumberFrom y.toFixed0 := by
  rw [Ethers.bigNumberFrom, Ethers.bigNumberFrom, x.readFixed0, y.readFixed0, same]

namespace SameNumbers
variable {order read : SignedOrder}

theorem packedRest (same : SameNumbers order read) : read.packedRest = order.packedRest := by
  have fixed {x y : Decimal} (same : x.roundedInt = y.roundedInt) :
      Ethers.packUint256 x.toFixed0 = Ethers.packUint256 y.toFixed0 := by
    rw [Ethers.packUint256, Ethers.packUint256, readsSame same]
  rw [SignedOrder.packedRest, SignedOrder.packedRest, fixed same.amount, same.limitPrice, same.triggerPrice,
    same.limitFee, same.maker, same.taker, fixed same.expiration]

theorem encodedRest (same : SameNumbers order read) (crypto : Crypto) :
    read.encodedRest crypto = order.encodedRest crypto := by
  have fixed {x y : Decimal} (same : x.roundedInt = y.roundedInt) :
      Ethers.encodeUint256 x.toFixed0 = Ethers.encodeUint256 y.toFixed0 := by
    rw [Ethers.encodeUint256, Ethers.encodeUint256, readsSame same]
  rw [SignedOrder.encodedRest, SignedOrder.encodedRest, fixed same.amount, same.limitPrice, same.triggerPrice,
    same.limitFee, same.maker, same.taker, fixed same.expiration]

theorem saltDigits (same : SameNumbers order read) : saltDigits read.salt = saltDigits order.salt := by
  rw [Client.saltDigits, Client.saltDigits, same.salt]

end SameNumbers

theorem flagsNotHex {digits : Text} (bad : ¬HexText.IsHex digits) (c : Char) (invalid : String) :
    Ethers.bytesN 32 invalid ('0' :: 'x' :: (digits ++ [c])) = .error "invalid arrayify value" := by
  have none' : HexText.bytes (digits ++ [c]) = none := by
    cases reads : HexText.bytes (digits ++ [c]) with
    | none => rfl
    | some data => exact absurd (fun c mem => HexText.bytesHex reads c (List.mem_append_left _ mem)) bad
  rw [Ethers.bytesN, Ethers.arrayify, none']
  rfl

theorem flagsUnread {digits : Text} (long : digits.length = 63) {rest : Checked (List UInt8)}
    (stops : ¬(HexText.IsHex digits ∧ ∃ r, rest = .ok r)) (finish : List UInt8 → List UInt8 → Text)
    (invalid : String) {first second : Nat} (firstDigit : first < 10) (secondDigit : second < 10) :
    (do let flags ← Ethers.bytesN 32 invalid ('0' :: 'x' :: (digits ++ [first.digitChar]))
        let r ← rest
        return finish flags r) =
      (do let flags ← Ethers.bytesN 32 invalid ('0' :: 'x' :: (digits ++ [second.digitChar]))
          let r ← rest
          return finish flags r) := by
  by_cases hex : HexText.IsHex digits
  · rw [flagsHex hex long firstDigit, flagsHex hex long secondDigit]
    cases rest with
    | error reason => rfl
    | ok r => exact absurd ⟨hex,r,rfl⟩ stops
  · rw [flagsNotHex hex, flagsNotHex hex]

theorem nonnegSign {x : Decimal} (plain : (x.negative && x.coefficient != 0) = false) : 0 ≤ x.value := by
  have low := x.magnitudeNonneg
  rw [Decimal.value]
  split
  · rename_i negative
    rw [negative, Bool.true_and, bne_eq_false_iff_eq] at plain
    rw [Decimal.magnitude, plain, Nat.cast_zero, zero_mul, neg_zero]
  · exact low

theorem minusKept (n : Nat) : HexText.IsHex ((padStart ('-' :: Nat.toDigits 16 n) 64).drop
    ((padStart ('-' :: Nat.toDigits 16 n) 64).length - 63)) ↔ 63 ≤ (Nat.toDigits 16 n).length := by
  have hex := (HexText.hexDigits n).1
  generalize Nat.toDigits 16 n = digits at hex ⊢
  have padded : padStart ('-' :: digits) 64 = List.replicate (63 - digits.length) '0' ++ '-' :: digits := by
    have count : 64 - (digits.length + 1) = 63 - digits.length := by omega
    rw [padStart, List.length_cons, count]
  have total : (padStart ('-' :: digits) 64).length = 63 - digits.length + (digits.length + 1) := by
    rw [padded, List.length_append, List.length_replicate, List.length_cons]
  rw [total, padded]
  constructor
  · intro all
    by_contra short
    have skip : 63 - digits.length + (digits.length + 1) - 63 ≤
        (List.replicate (63 - digits.length) '0').length := by
      rw [List.length_replicate]
      omega
    rw [List.drop_append_of_le_length skip] at all
    have minus := all '-' (List.mem_append_right _ List.mem_cons_self)
    cases minus
  · intro large c mem
    have none' : 63 - digits.length = 0 := by omega
    obtain ⟨k,skip⟩ : ∃ k, 0 + (digits.length + 1) - 63 = k + 1 := ⟨digits.length - 63,by omega⟩
    rw [none', skip, List.replicate_zero, List.nil_append, List.drop_succ_cons] at mem
    exact hex c (List.mem_of_mem_drop mem)

theorem saltHex {salt : Decimal} (whole : salt.isInteger = true) :
    HexText.IsHex (saltDigits salt) ↔ 0 ≤ salt.value ∨ 16 ^ 62 ≤ |salt.value| := by
  cases sign : salt.negative && salt.coefficient != 0 with
  | false => exact iff_of_true (saltKept sign).1 (.inl (nonnegSign sign))
  | true =>
    have below : ¬0 ≤ salt.value := fun nonneg =>
      Bool.false_ne_true ((plainSign nonneg).1.symm.trans sign)
    have text : toString16 salt = '-' :: Nat.toDigits 16 salt.rounded := by
      rw [toString16, sign, Decimal.signed, if_pos rfl]
    have size : |salt.value| = salt.rounded := by rw [absMagnitude, integerRounded whole]
    have short : (Nat.toDigits 16 salt.rounded).length ≤ 62 ↔ salt.rounded < 16 ^ 62 :=
      Nat.length_toDigits_le_iff (by decide) (by decide)
    have large : (16 ^ 62 : ℚ) ≤ salt.rounded ↔ 16 ^ 62 ≤ salt.rounded := by exact_mod_cast Iff.rfl
    rw [(saltDrop salt).2, text, minusKept, or_iff_right below, size, large]
    omega

def InPacked (v : ℤ) : Prop := |v| < 2 ^ 256

def IsAddress (text : Text) : Prop := (stripHexPrefix text).length = 40 ∧ HexText.IsHex (stripHexPrefix text)

theorem packedOk {text : Text} {v : ℤ} (reads : Ethers.bigNumberFrom text = .ok v) :
    (∃ w, Ethers.packUint256 text = .ok w) ↔ InPacked v := by
  simp only [Ethers.packUint256, reads, Checked.okBind, Perpetual.SignedOrder.packUint256, Checked.bindOk,
    Checked.requireOk, exists_const, Checked.pureOk]
  constructor
  · rintro ⟨_,_,⟨fits,_⟩,_⟩
    exact fits
  · intro fits
    exact ⟨Abi.word (BitVec.ofInt 256 v),BitVec.ofInt 256 v,⟨fits,rfl⟩,rfl⟩

theorem addressOk {text : Text} :
    (∃ w, Ethers.packBytes32 (addressToBytes32 text) = .ok w) ↔ IsAddress text := by
  constructor
  · rintro ⟨w,ok⟩
    rw [addressZeros] at ok
    simp only [Ethers.packBytes32, Ethers.bytesN, Checked.bindOk, Checked.requireOk, exists_const,
      Checked.pureOk] at ok
    obtain ⟨data,reads,long,_⟩ := ok
    rw [Ethers.arrayify] at reads
    split at reads
    · rename_i other bytes
      have length := (HexText.bytesValue bytes).1
      cases reads
      rw [List.length_append, List.length_replicate, long] at length
      exact ⟨by omega,fun c mem => HexText.bytesHex bytes c (List.mem_append_right _ mem)⟩
    · cases reads
  · rintro ⟨long,hex⟩
    have small := HexText.valueLt (stripHexPrefix text)
    rw [long] at small
    have value : HexText.value (stripHexPrefix text) =
        (BitVec.ofNat 160 (HexText.value (stripHexPrefix text))).toNat := by
      rw [BitVec.toNat_ofNat, Nat.mod_eq_of_lt (small.trans_le (by norm_num))]
    exact ⟨_,addressPacked ⟨long,hex,value⟩⟩

namespace SignedOrder

structure Hashable (order : SignedOrder) : Prop where
  salt : 0 ≤ order.salt.value ∨ 16 ^ 62 ≤ |order.salt.value|
  amount : InPacked (BigNumber.toFixed0 order.amount.value)
  limitPrice : InPacked order.limitPrice.number.toSolidity
  triggerPrice : InPacked order.triggerPrice.number.toSolidity
  limitFee : InPacked order.limitFee.number.toSolidity
  maker : IsAddress order.maker
  taker : IsAddress order.taker
  expiration : InPacked (BigNumber.toFixed0 order.expiration.value)

variable {order : SignedOrder}

theorem hashableOk (whole : order.salt.isInteger = true) :
    order.Hashable ↔ HexText.IsHex (saltDigits order.salt) ∧ ∃ rest, order.packedRest = .ok rest := by
  rw [saltHex whole]
  simp only [packedRest, Checked.bindOk, Checked.pureOk]
  constructor
  · rintro ⟨salt,amount,limitPrice,triggerPrice,limitFee,maker,taker,expiration⟩
    obtain ⟨_,amount⟩ := (packedOk (readsFixed0 _)).mpr amount
    obtain ⟨_,limitPrice⟩ := (packedOk (readsSolidity _)).mpr limitPrice
    obtain ⟨_,triggerPrice⟩ := (packedOk (readsSolidity _)).mpr triggerPrice
    obtain ⟨_,limitFee⟩ := (packedOk (readsSolidity _)).mpr limitFee
    obtain ⟨_,maker⟩ := addressOk.mpr maker
    obtain ⟨_,taker⟩ := addressOk.mpr taker
    obtain ⟨_,expiration⟩ := (packedOk (readsFixed0 _)).mpr expiration
    exact ⟨salt,_,_,amount,_,limitPrice,_,triggerPrice,_,limitFee,_,maker,_,taker,_,expiration,rfl⟩
  · rintro ⟨salt,_,_,amount,_,limitPrice,_,triggerPrice,_,limitFee,_,maker,_,taker,_,expiration,_⟩
    exact {
      salt := salt
      amount := (packedOk (readsFixed0 _)).mp ⟨_,amount⟩
      limitPrice := (packedOk (readsSolidity _)).mp ⟨_,limitPrice⟩
      triggerPrice := (packedOk (readsSolidity _)).mp ⟨_,triggerPrice⟩
      limitFee := (packedOk (readsSolidity _)).mp ⟨_,limitFee⟩
      maker := addressOk.mp ⟨_,maker⟩
      taker := addressOk.mp ⟨_,taker⟩
      expiration := (packedOk (readsFixed0 _)).mp ⟨_,expiration⟩ }

theorem bytesOk {crypto : Crypto} (whole : order.salt.isInteger = true) :
    (∃ bytes, order.orderToBytes crypto = .ok bytes) ↔
      HexText.IsHex (saltDigits order.salt) ∧ ∃ rest, order.encodedRest crypto = .ok rest := by
  rw [bytesSplit crypto whole, flags, Ethers.encodeBytes32]
  by_cases hex : HexText.IsHex (saltDigits order.salt)
  · rw [flagsHex hex (saltLong _) order.flagDigit]
    simp only [Checked.bindOk, Checked.okBind, Checked.pureOk]
    constructor
    · rintro ⟨_,rest,encoded,_⟩
      exact ⟨hex,rest,encoded⟩
    · rintro ⟨_,rest,encoded⟩
      exact ⟨_,rest,encoded,rfl⟩
  · rw [flagsNotHex hex]
    refine iff_of_false ?_ fun ok => hex ok.1
    rintro ⟨bytes,ok⟩
    cases ok

/-- What `orderToBytes` takes, which reads both formats of addresses, under one of the hashes. -/
def Sendable (order : SignedOrder) : Prop := ∃ crypto bytes, order.orderToBytes crypto = .ok bytes

end SignedOrder

structure SameIdentity (order read : SignedOrder) : Prop where
  hash : ∀ crypto networkId p1Orders,
    read.getOrderHash crypto networkId p1Orders = order.getOrderHash crypto networkId p1Orders
  data : ∀ crypto amount price fee,
    read.fillToTradeData crypto amount price fee = order.fillToTradeData crypto amount price fee

namespace SameNumbers
variable {order read : SignedOrder}

theorem identity (same : SameNumbers order read)
    (struct : ∀ crypto, read.getStructHash crypto = order.getStructHash crypto)
    (bytes : ∀ crypto, read.orderToBytes crypto = order.orderToBytes crypto) : SameIdentity order read where
  hash := fun crypto _ _ => by rw [SignedOrder.getOrderHash, SignedOrder.getOrderHash, struct]
  data := fun crypto _ _ _ => by
    rw [SignedOrder.fillToTradeData, SignedOrder.fillToTradeData, bytes, same.typedSignature]

theorem kept (same : SameNumbers order read) (whole : order.salt.isInteger = true)
    (fee : read.limitFee.isNegative = order.limitFee.isNegative) : SameIdentity order read := by
  have flags : read.flags = order.flags := by
    rw [SignedOrder.flags, SignedOrder.flags, same.saltDigits, SignedOrder.booleanFlag, SignedOrder.booleanFlag,
      fee, same.isBuy, same.isDecreaseOnly]
  have wholeRead := same.whole.trans whole
  refine same.identity (fun crypto => ?_) fun crypto => ?_
  · rw [SignedOrder.structSplit crypto whole, SignedOrder.structSplit crypto wholeRead, flags, same.packedRest]
  · rw [SignedOrder.bytesSplit crypto whole, SignedOrder.bytesSplit crypto wholeRead, flags, same.encodedRest]

theorem flagsApart (same : SameNumbers order read)
    (fee : read.limitFee.isNegative ≠ order.limitFee.isNegative) : read.booleanFlag ≠ order.booleanFlag := by
  have sign : ∀ a b : Bool, (if a then SignedOrder.ORDER_FLAGS.IS_NEGATIVE_LIMIT_FEE else 0) =
      (if b then SignedOrder.ORDER_FLAGS.IS_NEGATIVE_LIMIT_FEE else 0) → a = b := by decide
  intro flag
  rw [SignedOrder.booleanFlag, SignedOrder.booleanFlag, same.isBuy, same.isDecreaseOnly,
    Nat.add_right_cancel_iff, Nat.add_right_cancel_iff] at flag
  exact fee (sign _ _ flag)

theorem flagsReread (same : SameNumbers order read)
    (fee : read.limitFee.isNegative ≠ order.limitFee.isNegative) :
    BitVec.ofNat 256 (HexText.value (Client.saltDigits order.salt) * 16 + read.booleanFlag) ≠
      BitVec.ofNat 256 (HexText.value (Client.saltDigits order.salt) * 16 + order.booleanFlag) := by
  intro words
  have small := HexText.valueLt (Client.saltDigits order.salt)
  rw [saltLong] at small
  have flags := congrArg BitVec.toNat words
  rw [BitVec.toNat_ofNat, BitVec.toNat_ofNat] at flags
  have different := same.flagsApart fee
  have low := read.flagDigit
  have low' := order.flagDigit
  omega

theorem unread (same : SameNumbers order read) (whole : order.salt.isInteger = true)
    (noHash : ¬order.Hashable) (noData : ¬order.Sendable) : SameIdentity order read := by
  have wholeRead := same.whole.trans whole
  refine same.identity (fun crypto => ?_) fun crypto => ?_
  · rw [SignedOrder.structSplit crypto whole, SignedOrder.structSplit crypto wholeRead, same.packedRest,
      SignedOrder.flags, SignedOrder.flags, same.saltDigits]
    exact flagsUnread (saltLong _) (mt (SignedOrder.hashableOk whole).mpr noHash) _ _ read.flagDigit
      order.flagDigit
  · rw [SignedOrder.bytesSplit crypto whole, SignedOrder.bytesSplit crypto wholeRead, same.encodedRest,
      SignedOrder.flags, SignedOrder.flags, same.saltDigits]
    exact flagsUnread (saltLong _) (fun ok => noData ⟨crypto,(SignedOrder.bytesOk whole).mpr ok⟩) _ _
      read.flagDigit order.flagDigit

end SameNumbers

def revealing : Crypto where
  keccak256 := fun data => BitVec.ofNat 256 (Abi.natOf
    (if data.take 2 = [0x19,0x01] then data.drop 34 else (data.drop 32).take 32))
  ecrecover := Crypto.sample.ecrecover

theorem wordSelf (x : Uint256) : BitVec.ofNat 256 (Abi.natOf (Abi.word x)) = x := by
  have width : 256 ^ 32 = 2 ^ 256 := by norm_num
  refine BitVec.eq_of_toNat_eq ?_
  rw [Abi.word, Abi.natOfBytes, BitVec.toNat_ofNat, width, Nat.mod_mod, Nat.mod_eq_of_lt x.isLt]

theorem revealedStruct {word : List UInt8} (long : word.length = 32) (other : word.take 2 ≠ [0x19,0x01])
    (flags : Bytes32) (rest : List UInt8) : revealing.keccak256 (word ++ (Abi.word flags ++ rest)) = flags := by
  have first : (word ++ (Abi.word flags ++ rest)).take 2 = word.take 2 :=
    List.take_append_of_le_length (by rw [long]; decide)
  change BitVec.ofNat 256 (Abi.natOf (if (word ++ (Abi.word flags ++ rest)).take 2 = _ then _ else _)) = flags
  rw [first, if_neg other, List.drop_left' long, List.take_left' (Abi.wordLength flags), wordSelf]

theorem revealedHash (domain struct : Bytes32) :
    revealing.keccak256 ([0x19,0x01] ++ Abi.word domain ++ Abi.word struct) = struct := by
  have header : ([0x19,0x01] ++ Abi.word domain).length = 34 := by
    rw [List.length_append, Abi.wordLength]
    rfl
  change BitVec.ofNat 256 (Abi.natOf (([0x19,0x01] ++ Abi.word domain ++ Abi.word struct).drop 34)) = struct
  rw [List.drop_left' header, wordSelf]

theorem revealed {order : SignedOrder} (whole : order.salt.isInteger = true) (hashable : order.Hashable) :
    order.getOrderHash revealing (1 : Uint256).toNat NULL_ADDRESS = .ok (Ethers.hexlify (Abi.word
      (BitVec.ofNat 256 (HexText.value (saltDigits order.salt) * 16 + order.booleanFlag)))) := by
  obtain ⟨hex,rest,packed⟩ := (SignedOrder.hashableOk whole).mp hashable
  have struct : order.getStructHash revealing = _ := SignedOrder.structSplit revealing whole
  rw [packed, SignedOrder.flags, Ethers.packBytes32, flagsHex hex (saltLong _) order.flagDigit, Checked.okBind,
    Checked.okBind] at struct
  have spells : AddressText NULL_ADDRESS 0 := ⟨rfl,by decide +kernel,by decide +kernel⟩
  have schema : (Abi.word (revealing.keccak256 SignedOrder.EIP712_ORDER_STRUCT_STRING)).take 2 ≠ [0x19,0x01] := by
    decide +kernel
  rw [structHashed spells 1 struct, revealedStruct (Abi.wordLength _) schema, Ethers.keccak256, revealedHash]

theorem SameNumbers.lost {order read : SignedOrder} (same : SameNumbers order read)
    (whole : order.salt.isInteger = true) (hashable : order.Hashable)
    (fee : read.limitFee.isNegative ≠ order.limitFee.isNegative) : ¬SameIdentity order read := by
  intro identity
  have wholeRead := same.whole.trans whole
  have hashed := (SignedOrder.hashableOk whole).mp hashable
  rw [← same.saltDigits, ← same.packedRest] at hashed
  have hash := identity.hash revealing (1 : Uint256).toNat NULL_ADDRESS
  rw [revealed whole hashable, revealed wholeRead ((SignedOrder.hashableOk wholeRead).mpr hashed),
    same.saltDigits] at hash
  have bytes := congrArg Ethers.arrayify (Except.ok.inj hash)
  rw [Ethers.arrayifyHexlify, Ethers.arrayifyHexlify] at bytes
  have words := congrArg (fun data => BitVec.ofNat 256 (Abi.natOf data)) (Except.ok.inj bytes)
  simp only [wordSelf] at words
  exact same.flagsReread fee words

theorem SignedOrder.dataOfBytes {order : SignedOrder} {crypto : Crypto} {bytes : List UInt8}
    (ok : order.orderToBytes crypto = .ok (Ethers.hexlify bytes)) :
    order.fillToTradeData crypto (.zero false) ⟨.zero false⟩ ⟨.zero false⟩ =
      .ok ('0' :: 'x' :: (HexText.ofBytes bytes ++ (HexText.ofBytes (List.replicate 128 0) ++
        stripHexPrefix (order.typedSignature ++ List.replicate 60 '0')))) := by
  have zero : Ethers.encodeUint256 (Decimal.zero false).toFixed0 = .ok (List.replicate 32 0) := by decide +kernel
  have base : Ethers.encodeUint256 (BaseValue.mk (.zero false)).toSolidity = .ok (List.replicate 32 0) := by
    decide +kernel
  have filled : (List.replicate 32 0 ++ List.replicate 32 0 ++ List.replicate 32 0 ++
      Ethers.encodeBool (BaseValue.mk (.zero false)).isNegative : List UInt8) = List.replicate 128 0 := by
    decide +kernel
  simp only [fillToTradeData, ok, zero, base, filled, Checked.okBind, combineHexStrings, List.flatMap_cons,
    List.flatMap_nil, List.append_nil]
  rfl

theorem SameNumbers.lostData {order read : SignedOrder} (same : SameNumbers order read)
    (whole : order.salt.isInteger = true) (sendable : order.Sendable)
    (fee : read.limitFee.isNegative ≠ order.limitFee.isNegative) : ¬SameIdentity order read := by
  intro identity
  obtain ⟨crypto,sent⟩ := sendable
  obtain ⟨hex,rest,encoded⟩ := (SignedOrder.bytesOk whole).mp sent
  have bytes : order.orderToBytes crypto = _ := SignedOrder.bytesSplit crypto whole
  have bytesRead : read.orderToBytes crypto = _ := SignedOrder.bytesSplit crypto (same.whole.trans whole)
  rw [SignedOrder.flags, Ethers.encodeBytes32, flagsHex hex (saltLong _) order.flagDigit, encoded] at bytes
  rw [SignedOrder.flags, same.saltDigits, Ethers.encodeBytes32, flagsHex hex (saltLong _) read.flagDigit,
    same.encodedRest, encoded] at bytesRead
  have data := identity.data crypto (.zero false) ⟨.zero false⟩ ⟨.zero false⟩
  rw [SignedOrder.dataOfBytes bytesRead, SignedOrder.dataOfBytes bytes] at data
  have texts := List.append_inj_left (List.cons.inj (List.cons.inj (Except.ok.inj data)).2).2
    (by simp only [HexText.ofBytesLength, List.length_append, Abi.wordLength])
  have words := congrArg HexText.bytes texts
  rw [HexText.bytesOfBytes, HexText.bytesOfBytes] at words
  have flags := congrArg (fun word => BitVec.ofNat 256 (Abi.natOf word))
    (List.append_inj_left (Option.some.inj words) (by rw [Abi.wordLength, Abi.wordLength]))
  simp only [wordSelf] at flags
  exact same.flagsReread fee flags

structure SRAOrder.Plain (apiOrder : SRAOrder) : Prop where
  amount : apiOrder.order.amount ≠ .zero true
  limitPrice : apiOrder.order.limitPrice.value ≠ .zero true
  triggerPrice : apiOrder.order.triggerPrice.value ≠ .zero true
  limitFee : apiOrder.order.limitFee.value ≠ .zero true
  expiration : apiOrder.order.expiration ≠ .zero true
  salt : apiOrder.order.salt ≠ .zero true
  filledAmount : apiOrder.metaData.filledAmount ≠ .zero true

theorem restored {apiOrder : SRAOrder} (amount : apiOrder.order.amount.isInteger = true)
    (expiration : apiOrder.order.expiration.isInteger = true) (salt : apiOrder.order.salt.isInteger = true) :
    deserializeOrderToSRAOrder (serializeOrder apiOrder) = some apiOrder ↔ apiOrder.Plain := by
  obtain ⟨order,metaData⟩ := apiOrder
  have number (x : BaseValue) : (⟨x.value.plainZero⟩ : BaseValue) = x ↔ x.value ≠ .zero true := by
    rw [← Decimal.plainZeroSelf]
    exact ⟨congrArg BaseValue.value,congrArg BaseValue.mk⟩
  rw [rowRead, Option.some.injEq, SRAOrder.mk.injEq, SignedOrder.reread, Decimal.rereadInteger amount,
    Decimal.rereadInteger expiration, Decimal.rereadInteger salt]
  constructor
  · rintro ⟨sameOrder,sameData⟩
    exact {
      amount := Decimal.plainZeroSelf.mp (congrArg SignedOrder.amount sameOrder)
      limitPrice := (number _).mp (congrArg SignedOrder.limitPrice sameOrder)
      triggerPrice := (number _).mp (congrArg SignedOrder.triggerPrice sameOrder)
      limitFee := (number _).mp (congrArg SignedOrder.limitFee sameOrder)
      expiration := Decimal.plainZeroSelf.mp (congrArg SignedOrder.expiration sameOrder)
      salt := Decimal.plainZeroSelf.mp (congrArg SignedOrder.salt sameOrder)
      filledAmount := Decimal.plainZeroSelf.mp (congrArg SRAOrderMetaData.filledAmount sameData) }
  · intro plain
    rw [Decimal.plainZeroSelf.mpr plain.amount, (number _).mpr plain.limitPrice, (number _).mpr plain.triggerPrice,
      (number _).mpr plain.limitFee, Decimal.plainZeroSelf.mpr plain.expiration,
      Decimal.plainZeroSelf.mpr plain.salt, Decimal.plainZeroSelf.mpr plain.filledAmount]
    exact ⟨rfl,rfl⟩

/-- An order stays the same order through JSON and the database unless its fee is a negative zero. -/
theorem staysTheOrder (apiOrder : SRAOrder) (whole : apiOrder.order.salt.isInteger = true) :
    ((∀ passes, ∃ read, rebuilt passes apiOrder.order = some read ∧ SameIdentity apiOrder.order read) ↔
      (apiOrder.order.limitFee.value = .zero true → ¬apiOrder.order.Hashable ∧ ¬apiOrder.order.Sendable)) ∧
    (apiOrder.order.amount.isInteger = true → apiOrder.order.expiration.isInteger = true →
      (deserializeOrderToSRAOrder (serializeOrder apiOrder) = some apiOrder ↔ apiOrder.Plain)) := by
  refine ⟨⟨?_,?_⟩,fun amount expiration => restored amount expiration whole⟩
  · intro kept unsigned
    obtain ⟨read,reads,identity⟩ := kept [.json]
    have once : rebuilt [.json] apiOrder.order = some apiOrder.order.reread := by
      rw [rebuilt, List.foldlM_cons, passRead]
      rfl
    cases once.symm.trans reads
    have fee : apiOrder.order.reread.limitFee.isNegative ≠ apiOrder.order.limitFee.isNegative := by
      have sign : apiOrder.order.reread.limitFee.isNegative = (Decimal.zero true).plainZero.negative := by
        rw [← unsigned]
        rfl
      rw [sign, BaseValue.isNegative, unsigned]
      decide
    have same := SameNumbers.reread whole
    exact ⟨fun hashable => same.lost whole hashable fee identity,
      fun sendable => same.lostData whole sendable fee identity⟩
  · intro safe passes
    obtain ⟨read,reads,same,fee⟩ := passesRead whole passes
    refine ⟨read,reads,?_⟩
    by_cases unsigned : apiOrder.order.limitFee.value = .zero true
    · exact same.unread whole (safe unsigned).1 (safe unsigned).2
    · exact same.kept whole (by rw [fee unsigned])

def sampleStored : SRAOrder := ⟨sampleOrder 'a' 'b',⟨['0'],.make false 3 0,some ['1'],.Null⟩⟩

theorem sampleStays : (∀ passes, ∃ read, rebuilt passes sampleStored.order = some read ∧
      SameIdentity sampleStored.order read) ∧
    deserializeOrderToSRAOrder (serializeOrder sampleStored) = some sampleStored :=
  ⟨(staysTheOrder sampleStored (by decide +kernel)).1.mpr fun unsigned => absurd unsigned (by decide +kernel),
    ((staysTheOrder sampleStored (by decide +kernel)).2 (by decide +kernel) (by decide +kernel)).mpr
      ⟨by decide +kernel,by decide +kernel,by decide +kernel,by decide +kernel,by decide +kernel,by decide +kernel,
        by decide +kernel⟩⟩

def sampleUnsigned : SignedOrder := { sampleOrder 'a' 'b' with limitFee := ⟨.zero true⟩ }

theorem negativeZeroLost : sampleUnsigned.salt.isInteger = true ∧
    ∃ read, rebuilt [.database sampleStored.metaData] sampleUnsigned = some read ∧
      read.getOrderHash revealing 1 NULL_ADDRESS ≠ sampleUnsigned.getOrderHash revealing 1 NULL_ADDRESS ∧
      read.fillToTradeData .sample (.make false 4 0) ⟨.make false 5 0⟩ ⟨.zero false⟩ ≠
        sampleUnsigned.fillToTradeData .sample (.make false 4 0) ⟨.make false 5 0⟩ ⟨.zero false⟩ :=
  ⟨by decide +kernel,{ sampleUnsigned with limitFee := ⟨.zero false⟩ },by decide +kernel,by decide +kernel,
    by decide +kernel⟩

end Client
end Perpetual
