import Perpetual.ClientOrders

/-! What P1Orders decodes from the texts of the client. -/
namespace Perpetual

theorem roundedFixed0 (x : Decimal) : x.roundedInt = BigNumber.toFixed0 x.value := by
  have nonneg := x.magnitudeNonneg
  rw [Decimal.roundedInt, x.roundedFloor, BigNumber.toFixed0, Decimal.value]
  cases x.negative with
  | false =>
    rw [if_neg Bool.false_ne_true, if_neg Bool.false_ne_true, if_neg (not_lt.mpr nonneg)]
  | true =>
    rw [if_pos rfl, if_pos rfl, neg_neg]
    split
    · rfl
    · have nothing : x.magnitude = 0 := by linarith
      rw [nothing]
      norm_num

namespace Client

def BaseValue.number (x : BaseValue) : Perpetual.BaseValue where
  value := x.value.value
  isNegative := x.value.negative
  signed := by
    intro some'
    have nonneg := x.value.magnitudeNonneg
    unfold Decimal.value at some' ⊢
    cases negative : x.value.negative with
    | false =>
      rw [if_neg Bool.false_ne_true]
      exact (decide_eq_false (not_lt.mpr nonneg)).symm
    | true =>
      rw [negative, if_pos rfl, neg_ne_zero] at some'
      rw [if_pos rfl]
      exact (decide_eq_true (neg_lt_zero.mpr (lt_of_le_of_ne nonneg some'.symm))).symm

theorem absMagnitude (x : Decimal) : |x.value| = x.magnitude := by
  have nonneg := x.magnitudeNonneg
  unfold Decimal.value
  split
  · rw [abs_neg, abs_of_nonneg nonneg]
  · exact abs_of_nonneg nonneg

theorem shiftedSign (x : Decimal) (places : Nat) : (x.shiftedBy places).negative = x.negative := by
  unfold Decimal.shiftedBy Decimal.make
  split <;> rfl

theorem solidityRounded (x : BaseValue) :
    (x.value.abs.shiftedBy Perpetual.BaseValue.BASE_DECIMALS).roundedInt = x.number.toSolidity := by
  have plain (y : Decimal) (positive : y.negative = false) : y.value = y.magnitude := by
    rw [Decimal.value, positive, if_neg Bool.false_ne_true]
  rw [roundedFixed0, plain _ (shiftedSign _ _), Decimal.shiftedMagnitude, Perpetual.BaseValue.toSolidity]
  change BigNumber.toFixed0 (x.value.magnitude * _) = BigNumber.toFixed0 (|x.value.value| * _)
  rw [absMagnitude]

theorem readsFixed0 (x : Decimal) : Ethers.bigNumberFrom x.toFixed0 = .ok (BigNumber.toFixed0 x.value) := by
  rw [Ethers.bigNumberFrom, x.readFixed0, roundedFixed0]

theorem readsSolidity (x : BaseValue) : Ethers.bigNumberFrom x.toSolidity = .ok x.number.toSolidity := by
  rw [Ethers.bigNumberFrom, BaseValue.toSolidity, Decimal.readFixed0, solidityRounded]

end Client

namespace Abi

theorem natOfLast (data : List UInt8) (b : UInt8) : natOf (data ++ [b]) = natOf data * 256 + b.toNat := by
  rw [natOf, List.foldl_append]
  rfl

theorem bytesOfNat (data rest : List UInt8) : bytesOnto rest data.length (natOf data) = data ++ rest := by
  induction data using List.reverseRecOn generalizing rest with
  | nil => rfl
  | append_singleton data b ih =>
    have small : b.toNat < 256 := b.toNat_lt
    have last : UInt8.ofNat (natOf data * 256 + b.toNat) = b := by
      refine UInt8.toNat_inj.mp ?_
      rw [UInt8.toNat_ofNat']
      omega
    have front : (natOf data * 256 + b.toNat) / 256 = natOf data := by omega
    rw [List.length_append, List.length_singleton, natOfLast, bytesOnto, last, front, ih, List.append_assoc]
    rfl

theorem natOfLt (data : List UInt8) : natOf data < 256 ^ data.length := by
  induction data using List.reverseRecOn with
  | nil => decide
  | append_singleton data b ih =>
    have small : b.toNat < 256 := b.toNat_lt
    rw [natOfLast, List.length_append, List.length_singleton, pow_succ]
    omega

theorem natOfAppend (first last : List UInt8) :
    natOf (first ++ last) = natOf first * 256 ^ last.length + natOf last := by
  induction last using List.reverseRecOn with
  | nil => simp [natOf]
  | append_singleton last b ih =>
    rw [← List.append_assoc, natOfLast, natOfLast, ih, List.length_append, List.length_singleton, pow_succ]
    ring

theorem wordOfNat {data : List UInt8} (long : data.length = 32) : word (BitVec.ofNat 256 (natOf data)) = data := by
  have small := natOfLt data
  have width : 256 ^ 32 = 2 ^ 256 := by norm_num
  rw [long, width] at small
  have whole := bytesOfNat data []
  rw [long, List.append_nil] at whole
  rw [word, BitVec.toNat_ofNat, Nat.mod_eq_of_lt small]
  exact whole

end Abi

namespace Ethers

theorem arrayifyHex {digits : Text} (hex : HexText.IsHex digits) (even : digits.length % 2 = 0) :
    ∃ data, arrayify ('0' :: 'x' :: digits) = .ok data ∧ digits.length = 2 * data.length ∧
      Abi.natOf data = HexText.value digits := by
  obtain ⟨data,reads⟩ := HexText.bytesTotal hex even
  exact ⟨data,by rw [arrayify, reads],HexText.bytesValue reads⟩

theorem bytes32Hex {digits : Text} (hex : HexText.IsHex digits) (long : digits.length = 64) (invalid : String) :
    bytesN 32 invalid ('0' :: 'x' :: digits) = .ok (Abi.word (BitVec.ofNat 256 (HexText.value digits))) := by
  obtain ⟨data,reads,length,number⟩ := arrayifyHex hex (by rw [long])
  have bytes : data.length = 32 := by omega
  simp only [bytesN, Checked.bindOk, Checked.requireOk, exists_const, Checked.pureOk]
  exact ⟨data,reads,bytes,by rw [← number, Abi.wordOfNat bytes]⟩

theorem arrayifyHexlify (data : List UInt8) : arrayify (hexlify data) = .ok data := by
  rw [hexlify, arrayify, HexText.bytesOfBytes]

theorem packHash (x : Bytes32) : packBytes32 (hexlify (Abi.word x)) = .ok (Abi.word x) := by
  simp only [packBytes32, bytesN, arrayifyHexlify, Checked.bindOk, Checked.requireOk, exists_const,
    Checked.pureOk]
  exact ⟨_,rfl,Abi.wordLength x,rfl⟩

end Ethers

namespace Client

structure AddressText (text : Text) (a : Address) : Prop where
  long : (stripHexPrefix text).length = 40
  hex : HexText.IsHex (stripHexPrefix text)
  value : HexText.value (stripHexPrefix text) = a.toNat

def LetterCase (crypto : Crypto) (text : Text) : Prop :=
  Ethers.mixedCase (stripHexPrefix text) = false ∨
    stripHexPrefix text = Ethers.checksumAddress crypto (stripHexPrefix text)

theorem hexAppend {first last : Text} (hexFirst : HexText.IsHex first) (hexLast : HexText.IsHex last) :
    HexText.IsHex (first ++ last) := fun c mem =>
  (List.mem_append.mp mem).elim (hexFirst c) (hexLast c)

theorem hexZeros (n : Nat) : HexText.IsHex (List.replicate n '0') := fun c mem => by
  rw [List.eq_of_mem_replicate mem]
  decide

theorem addressZeros (text : Text) :
    addressToBytes32 text = '0' :: 'x' :: (List.replicate 24 '0' ++ stripHexPrefix text) := by
  have written : "0x000000000000000000000000".toList = '0' :: 'x' :: List.replicate 24 '0' := by simp
  unfold addressToBytes32
  rw [written]
  rfl

theorem addressPacked {text : Text} {a : Address} (spells : AddressText text a) :
    Ethers.packBytes32 (addressToBytes32 text) = .ok (Abi.addressWord a) := by
  have value : HexText.value (List.replicate 24 '0' ++ stripHexPrefix text) = a.toNat := by
    rw [HexText.valueAppend, HexText.valueZeros, spells.value, Nat.zero_mul, Nat.zero_add]
  have packed := Ethers.bytes32Hex (hexAppend (hexZeros 24) spells.hex)
    (by rw [List.length_append, List.length_replicate, spells.long]) "invalid value for bytes32"
  rw [addressZeros, Ethers.packBytes32, packed, value, Abi.addressWord, Abi.word, BitVec.toNat_ofNat,
    Nat.mod_eq_of_lt (a.isLt.trans (by decide))]

theorem addressEncoded {crypto : Crypto} {text : Text} {a : Address} (spells : AddressText text a)
    (letters : LetterCase crypto text) : Ethers.encodeAddress crypto text = .ok (Abi.addressWord a) := by
  have read : Ethers.getAddress crypto text = .ok a := by
    rw [Ethers.hexAddress spells.long spells.hex]
    exact ⟨letters,by rw [spells.value, BitVec.ofNat_toNat, BitVec.setWidth_eq]⟩
  rw [Ethers.encodeAddress, read]
  rfl

theorem integerRounded {x : Decimal} (whole : x.isInteger = true) : x.magnitude = x.rounded := by
  have nonneg : 0 ≤ x.exponent := of_decide_eq_true whole
  obtain ⟨k,exponent⟩ := Int.eq_ofNat_of_zero_le nonneg
  rw [Decimal.magnitude, Decimal.rounded, if_pos nonneg, exponent, Int.toNat_natCast, zpow_natCast]
  norm_cast

theorem plainSign {x : Decimal} (nonneg : 0 ≤ x.value) :
    (x.negative && x.coefficient != 0) = false ∧ x.value = x.magnitude := by
  have low := x.magnitudeNonneg
  unfold Decimal.value at nonneg ⊢
  cases negative : x.negative with
  | false => exact ⟨rfl,if_neg Bool.false_ne_true⟩
  | true =>
    rw [negative, if_pos rfl] at nonneg
    have nothing : x.magnitude = 0 := by linarith
    have power : (10 : ℚ) ^ x.exponent ≠ 0 := zpow_ne_zero _ (by norm_num)
    have coefficient : x.coefficient = 0 := by
      rw [Decimal.magnitude, mul_eq_zero, or_iff_left power] at nothing
      exact_mod_cast nothing
    refine ⟨by rw [coefficient]; rfl,?_⟩
    rw [if_pos rfl, nothing, neg_zero]

namespace SignedOrder

def numbers (order : SignedOrder) (maker taker : Address) (signature : TypedSignature.Signature) :
    Perpetual.SignedOrder where
  isBuy := order.isBuy
  isDecreaseOnly := order.isDecreaseOnly
  amount := order.amount.value
  limitPrice := order.limitPrice.number
  triggerPrice := order.triggerPrice.number
  limitFee := order.limitFee.number
  maker := maker
  taker := taker
  expiration := order.expiration.value
  salt := order.salt.value
  typedSignature := signature

variable {order : SignedOrder}

theorem flagDigit (order : SignedOrder) : order.booleanFlag < 10 := by
  unfold booleanFlag
  split <;> split <;> split <;> decide

end SignedOrder

def saltDigits (salt : Decimal) : Text := sliceLast ('0' :: 'x' :: padStart (toString16 salt) 64) 63

theorem saltDrop (salt : Decimal) : 63 ≤ (padStart (toString16 salt) 64).length ∧ saltDigits salt =
    (padStart (toString16 salt) 64).drop ((padStart (toString16 salt) 64).length - 63) := by
  have long : 63 ≤ (padStart (toString16 salt) 64).length := by
    rw [padStart, List.length_append, List.length_replicate]
    omega
  have skip : ('0' :: 'x' :: padStart (toString16 salt) 64).length - 63 =
      (padStart (toString16 salt) 64).length - 63 + 1 + 1 := by
    simp only [List.length_cons]
    omega
  exact ⟨long,by rw [saltDigits, sliceLast, skip, List.drop_succ_cons, List.drop_succ_cons]⟩

theorem saltLong (salt : Decimal) : (saltDigits salt).length = 63 := by
  obtain ⟨long,kept⟩ := saltDrop salt
  rw [kept, List.length_drop]
  omega

theorem saltKept {salt : Decimal} (plain : (salt.negative && salt.coefficient != 0) = false) :
    HexText.IsHex (saltDigits salt) ∧ HexText.value (saltDigits salt) = salt.rounded % 16 ^ 63 := by
  obtain ⟨hex,number⟩ := HexText.hexDigits salt.rounded
  obtain ⟨long,kept⟩ := saltDrop salt
  have text : toString16 salt = Nat.toDigits 16 salt.rounded := by
    rw [toString16, plain, Decimal.signed, if_neg Bool.false_ne_true]
  rw [text] at long kept
  have padded : HexText.IsHex (padStart (Nat.toDigits 16 salt.rounded) 64) := hexAppend (hexZeros _) hex
  have total : HexText.value (padStart (Nat.toDigits 16 salt.rounded) 64) = salt.rounded := by
    rw [padStart, HexText.valueAppend, HexText.valueZeros, number, Nat.zero_mul, Nat.zero_add]
  rw [kept, HexText.valueDrop _ long, total]
  exact ⟨fun c mem => padded c (List.mem_of_mem_drop mem),rfl⟩

theorem flagsHex {digits : Text} (hex : HexText.IsHex digits) (long : digits.length = 63) {flag : Nat}
    (small : flag < 10) (invalid : String) :
    Ethers.bytesN 32 invalid ('0' :: 'x' :: (digits ++ [flag.digitChar])) =
      .ok (Abi.word (BitVec.ofNat 256 (HexText.value digits * 16 + flag))) := by
  have flagHex : HexText.digit flag.digitChar = some flag := HexText.digitOf (small.trans (by decide))
  have textHex : HexText.IsHex (digits ++ [flag.digitChar]) := by
    refine hexAppend hex (List.forall_mem_singleton.mpr ?_)
    rw [flagHex]
    rfl
  have textValue : HexText.value (digits ++ [flag.digitChar]) = HexText.value digits * 16 + flag := by
    rw [HexText.valueAppend, HexText.valueCons, flagHex]
    simp only [Option.getD_some, List.length_nil, List.length_singleton, pow_zero, pow_one, Nat.mul_one]
    rfl
  rw [Ethers.bytes32Hex textHex (by rw [List.length_append, long]; rfl), textValue]

namespace SignedOrder

variable {order : SignedOrder}

theorem flagsWritten (whole : order.salt.isInteger = true) :
    order.getOrderFlags = .ok ('0' :: 'x' :: (saltDigits order.salt ++ [order.booleanFlag.digitChar])) := by
  have digit : Nat.toDigits 10 order.booleanFlag = [order.booleanFlag.digitChar] :=
    Nat.toDigits_of_lt_base order.flagDigit
  simp only [getOrderFlags, bnToBytes32, digit, Checked.bindOk, Checked.requireOk, exists_const, Checked.pureOk]
  exact ⟨_,⟨whole,rfl⟩,rfl⟩

theorem flagsText (whole : order.salt.isInteger = true) (nonneg : 0 ≤ order.salt.value) (maker taker : Address)
    (signature : TypedSignature.Signature) :
    ∃ text flags, order.getOrderFlags = .ok text ∧
      Perpetual.SignedOrder.getOrderFlags (order.numbers maker taker signature) = .ok flags ∧
      ∀ invalid, Ethers.bytesN 32 invalid text = .ok (Abi.word flags) := by
  obtain ⟨plain,value⟩ := plainSign nonneg
  obtain ⟨hex,kept⟩ := saltKept plain
  refine ⟨_,BitVec.ofNat 256 (order.salt.rounded % 16 ^ 63 * 16 + order.booleanFlag),flagsWritten whole,?_,
    fun invalid => ?_⟩
  · have integral : (order.numbers maker taker signature).salt = ((order.salt.rounded : ℤ) : ℚ) := by
      change order.salt.value = _
      rw [value, integerRounded whole, Int.cast_natCast]
    simp only [Perpetual.SignedOrder.getOrderFlags, Perpetual.SignedOrder.saltBytes, integral, Rat.den_intCast,
      Rat.num_intCast, Int.natAbs_natCast, Checked.bindOk, Checked.requireOk, exists_const, Checked.pureOk]
    exact ⟨_,⟨trivial,.inl (Int.natCast_nonneg _),rfl⟩,rfl⟩
  · rw [flagsHex hex (saltLong _) order.flagDigit, kept]

end SignedOrder

def InUint256 (v : ℤ) : Prop := 0 ≤ v ∧ v < 2 ^ 256

instance (v : ℤ) : Decidable (InUint256 v) := inferInstanceAs (Decidable (0 ≤ v ∧ v < 2 ^ 256))

theorem uint256Texts {text : Text} {v : ℤ} (reads : Ethers.bigNumberFrom text = .ok v) (fits : InUint256 v) :
    ∃ x, Perpetual.SignedOrder.uint256 v = .ok x ∧ Ethers.encodeUint256 text = .ok (Abi.word x) ∧
      Ethers.packUint256 text = .ok (Abi.word x) := by
  have value : Perpetual.SignedOrder.uint256 v = .ok (BitVec.ofInt 256 v) := by
    simp only [Perpetual.SignedOrder.uint256, Checked.bindOk, Checked.requireOk, exists_const, Checked.pureOk,
      and_true]
    exact fits
  refine ⟨_,value,?_,?_⟩
  · simp only [Ethers.encodeUint256, Checked.bindOk, Checked.pureOk]
    exact ⟨v,reads,_,value,rfl⟩
  · simp only [Ethers.packUint256, Checked.bindOk, Checked.pureOk]
    exact ⟨v,reads,_,Perpetual.SignedOrder.packed value,rfl⟩

namespace SignedOrder

/-- The numbers are in the range of `uint256`, the salt is a whole number, the addresses have 20 bytes
and the signature has 66. -/
structure Fits (order : SignedOrder) (maker taker : Address) : Prop where
  whole : order.salt.isInteger = true
  salt : 0 ≤ order.salt.value
  amount : InUint256 (BigNumber.toFixed0 order.amount.value)
  limitPrice : InUint256 order.limitPrice.number.toSolidity
  triggerPrice : InUint256 order.triggerPrice.number.toSolidity
  limitFee : InUint256 order.limitFee.number.toSolidity
  expiration : InUint256 (BigNumber.toFixed0 order.expiration.value)
  maker : AddressText order.maker maker
  taker : AddressText order.taker taker
  signature : HexText.IsHex (stripHexPrefix order.typedSignature)
  signatureLong : (stripHexPrefix order.typedSignature).length = 132

variable {order : SignedOrder} {maker taker : Address}

theorem orderEncoded (crypto : Crypto) (fits : order.Fits maker taker) (signature : TypedSignature.Signature) :
    ∃ solidityOrder,
      Perpetual.SignedOrder.orderToSolidity (order.numbers maker taker signature) = .ok solidityOrder ∧
      order.getStructHash crypto = .ok (Ethers.keccak256 crypto
        (Abi.word (crypto.keccak256 Orders.EIP712_ORDER_STRUCT_SCHEMA) ++ Orders.encodeOrder solidityOrder)) ∧
      (LetterCase crypto order.maker → LetterCase crypto order.taker →
        order.orderToBytes crypto = .ok (Ethers.hexlify (Orders.encodeOrder solidityOrder))) := by
  obtain ⟨flagsText,flags,hText,hFlags,bytes⟩ := flagsText fits.whole fits.salt maker taker signature
  obtain ⟨amount,amountOk,amountWord,amountPacked⟩ := uint256Texts (readsFixed0 order.amount) fits.amount
  obtain ⟨price,priceOk,priceWord,pricePacked⟩ := uint256Texts (readsSolidity order.limitPrice) fits.limitPrice
  obtain ⟨trigger,triggerOk,triggerWord,triggerPacked⟩ :=
    uint256Texts (readsSolidity order.triggerPrice) fits.triggerPrice
  obtain ⟨fee,feeOk,feeWord,feePacked⟩ := uint256Texts (readsSolidity order.limitFee) fits.limitFee
  obtain ⟨expiration,expirationOk,expirationWord,expirationPacked⟩ :=
    uint256Texts (readsFixed0 order.expiration) fits.expiration
  refine ⟨⟨flags,amount,price,trigger,fee,maker,taker,expiration⟩,?_,?_,fun makerCase takerCase => ?_⟩
  · simp only [Perpetual.SignedOrder.orderToSolidity, Checked.bindOk, Checked.pureOk]
    exact ⟨_,hFlags,_,amountOk,_,priceOk,_,triggerOk,_,feeOk,_,expirationOk,rfl⟩
  · simp only [getStructHash, Checked.bindOk, Checked.pureOk]
    exact ⟨_,hText,_,Ethers.packHash _,_,bytes _,_,amountPacked,_,pricePacked,_,triggerPacked,_,feePacked,_,
      addressPacked fits.maker,_,addressPacked fits.taker,_,expirationPacked,rfl⟩
  · simp only [orderToBytes, Checked.bindOk, Checked.pureOk]
    exact ⟨_,hText,_,bytes _,_,amountWord,_,priceWord,_,triggerWord,_,feeWord,_,addressEncoded fits.maker makerCase,
      _,addressEncoded fits.taker takerCase,_,expirationWord,rfl⟩

end SignedOrder

theorem domainHashed {contract : Text} {this : Address} (spells : AddressText contract this) (crypto : Crypto)
    (chainId : Uint256) : getDomainHash crypto chainId.toNat contract =
      .ok (Ethers.hexlify (Abi.word (Orders.domainHash crypto P1Orders.EIP712_DOMAIN_NAME "1.0" chainId this))) := by
  have schema : EIP712_DOMAIN_STRING = Orders.EIP712_DOMAIN_SEPARATOR_SCHEMA := by decide +kernel
  have network : Ethers.packUint256 (Nat.toDigits 10 chainId.toNat) = .ok (Abi.word chainId) := by
    have reads : Ethers.bigNumberFrom (Nat.toDigits 10 chainId.toNat) = .ok (chainId.toNat : ℤ) := by
      rw [Ethers.bigNumberFrom, Decimal.readDigits]
    obtain ⟨x,value,_,packed⟩ := uint256Texts reads ⟨Int.natCast_nonneg _,by exact_mod_cast chainId.isLt⟩
    have same : x = chainId := BitVec.eq_of_toNat_eq (by
      exact_mod_cast Perpetual.SignedOrder.uint256Ok.mp value)
    rw [packed, same]
  simp only [getDomainHash, Checked.bindOk, Checked.pureOk]
  refine ⟨_,Ethers.packHash _,_,Ethers.packHash _,_,Ethers.packHash _,_,network,_,addressPacked spells,?_⟩
  rw [schema]
  rfl

theorem structHashed {order : SignedOrder} {crypto : Crypto} {contract : Text} {this : Address} {data : List UInt8}
    (spells : AddressText contract this) (chainId : Uint256)
    (struct : order.getStructHash crypto = .ok (Ethers.keccak256 crypto data)) :
    order.getOrderHash crypto chainId.toNat contract = .ok (Ethers.keccak256 crypto ([0x19,0x01] ++
      Abi.word (Orders.domainHash crypto P1Orders.EIP712_DOMAIN_NAME "1.0" chainId this) ++
      Abi.word (crypto.keccak256 data))) := by
  have header : Ethers.packBytes2 "0x1901".toList = .ok [0x19,0x01] := by decide +kernel
  simp only [SignedOrder.getOrderHash, getEIP712Hash, Checked.bindOk, Checked.pureOk]
  exact ⟨_,struct,_,domainHashed spells crypto chainId,_,header,_,Ethers.packHash _,_,Ethers.packHash _,rfl⟩

theorem orderHashed {order : SignedOrder} {crypto : Crypto} {contract : Text} {this : Address}
    {solidityOrder : Order} (spells : AddressText contract this) (chainId : Uint256) (perpetualV1 : Address)
    (struct : order.getStructHash crypto = .ok (Ethers.keccak256 crypto
      (Abi.word (crypto.keccak256 Orders.EIP712_ORDER_STRUCT_SCHEMA) ++ Orders.encodeOrder solidityOrder))) :
    order.getOrderHash crypto chainId.toNat contract = .ok (Ethers.hexlify (Abi.word (Orders.getOrderHash crypto
      (Orders.constructor crypto P1Orders.EIP712_DOMAIN_NAME perpetualV1 chainId this).eip712DomainHash
      solidityOrder))) :=
  structHashed spells chainId struct

def signatureOf (data : List UInt8) : TypedSignature.Signature where
  r := BitVec.ofNat 256 (Abi.natOf (data.take 32))
  s := BitVec.ofNat 256 (Abi.natOf ((data.drop 32).take 32))
  vType := BitVec.ofNat 16 (Abi.natOf (data.drop 64))

theorem signatureParts {data : List UInt8} (long : data.length = 66) :
    Abi.word (signatureOf data).r ++ Abi.word (signatureOf data).s ++
      Abi.bytesOf 2 (signatureOf data).vType.toNat = data := by
  have first : (data.take 32).length = 32 := by rw [List.length_take]; omega
  have second : ((data.drop 32).take 32).length = 32 := by rw [List.length_take, List.length_drop]; omega
  have third : (data.drop 64).length = 2 := by rw [List.length_drop]; omega
  have low := Abi.natOfLt (data.drop 64)
  rw [third] at low
  have rest := Abi.bytesOfNat (data.drop 64) []
  rw [third, List.append_nil] at rest
  have kept : (signatureOf data).vType.toNat = Abi.natOf (data.drop 64) := by
    rw [signatureOf, BitVec.toNat_ofNat]
    exact Nat.mod_eq_of_lt low
  rw [kept, Abi.bytesOf, rest, signatureOf, Abi.wordOfNat first, Abi.wordOfNat second, List.append_assoc]
  have again : data.drop 64 = (data.drop 32).drop 32 := by rw [List.drop_drop]
  rw [again, List.take_append_drop, List.take_append_drop]

theorem signaturePadded {data : List UInt8} (long : data.length = 66) :
    data ++ List.replicate 30 (0 : UInt8) = Abi.word (signatureOf data).r ++ Abi.word (signatureOf data).s ++
      Abi.word ((signatureOf data).vType.setWidth 256 <<< 240) := by
  have parts := signatureParts long
  generalize signatureOf data = signature at parts
  have last : Abi.bytesOf 2 signature.vType.toNat ++ List.replicate 30 (0 : UInt8) =
      Abi.word (signature.vType.setWidth 256 <<< 240) := by
    have length : (Abi.bytesOf 2 signature.vType.toNat ++ List.replicate 30 (0 : UInt8)).length = 32 := by
      rw [List.length_append, Abi.bytesOf, Abi.bytesOntoLength, List.length_replicate, List.length_nil]
    have zeros : Abi.natOf (List.replicate 30 (0 : UInt8)) = 0 := by decide
    have small : signature.vType.toNat < 256 ^ 2 := signature.vType.isLt
    rw [← Abi.wordOfNat length, Abi.natOfAppend, Abi.natOfBytes, zeros, Nat.mod_eq_of_lt small,
      List.length_replicate]
    have width : 256 ^ 30 = 2 ^ 240 := by norm_num
    refine congrArg Abi.word (BitVec.eq_of_toNat_eq ?_)
    rw [BitVec.toNat_ofNat, BitVec.toNat_shiftLeft, BitVec.toNat_setWidth, Nat.shiftLeft_eq, Nat.add_zero, width,
      Nat.mod_eq_of_lt (signature.vType.isLt.trans (by norm_num))]
  rw [← last, ← List.append_assoc, parts]

theorem stripAppend {text : Text} (long : 2 ≤ text.length) (rest : Text) :
    stripHexPrefix (text ++ rest) = stripHexPrefix text ++ rest := by
  match text,long with
  | a::b::tail,_ =>
    rw [List.cons_append, List.cons_append]
    unfold stripHexPrefix
    split <;> rename_i shape
    · obtain ⟨rfl,more⟩ := List.cons.inj shape
      obtain ⟨rfl,rfl⟩ := List.cons.inj more
      rfl
    · split
      · rename_i other
        obtain ⟨rfl,more⟩ := List.cons.inj other
        obtain ⟨rfl,rfl⟩ := List.cons.inj more
        exact absurd rfl (shape _)
      · rfl

theorem paddedSignature {text : Text} (hex : HexText.IsHex (stripHexPrefix text))
    (long : (stripHexPrefix text).length = 132) : ∃ signature, HexText.bytes (stripHexPrefix text) = some signature ∧
      signature.length = 66 ∧ HexText.bytes (stripHexPrefix (text ++ List.replicate 60 '0')) =
        some (signature ++ List.replicate 30 0) := by
  obtain ⟨signature,signed⟩ := HexText.bytesTotal hex (by rw [long])
  have shorter : (stripHexPrefix text).length ≤ text.length := by
    unfold stripHexPrefix
    split
    · exact (Nat.le_succ _).trans (Nat.le_succ _)
    · exact le_rfl
  have zeros : HexText.bytes (List.replicate 60 '0') = some (List.replicate 30 0) := by decide +kernel
  refine ⟨signature,signed,?_,?_⟩
  · have length := (HexText.bytesValue signed).1
    omega
  · rw [stripAppend (by omega), HexText.bytesAppend signed, zeros]
    rfl

structure ReadAs (order : SignedOrder) (amount : Decimal) (price fee : BaseValue) (data : TradeData) : Prop where
  isBuy : Orders.isBuy data.order = order.isBuy
  isDecreaseOnly : Orders.isDecreaseOnly data.order = order.isDecreaseOnly
  isNegativeLimitFee : Orders.isNegativeLimitFee data.order = order.limitFee.isNegative
  isNegativeFee : data.fill.isNegativeFee = fee.isNegative
  amount : (data.fill.amount.toNat : ℤ) = BigNumber.toFixed0 amount.value
  price : (data.fill.price.toNat : ℤ) = price.number.toSolidity
  fee : (data.fill.fee.toNat : ℤ) = fee.number.toSolidity
  signature : HexText.bytes (stripHexPrefix order.typedSignature) = some (Abi.word data.signature.r ++
    Abi.word data.signature.s ++ Abi.bytesOf 2 data.signature.vType.toNat)

theorem fillTexts {order : SignedOrder} {maker taker : Address} {crypto : Crypto} {solidityOrder : Order}
    (fits : order.Fits maker taker) (amount : Decimal) (price fee : BaseValue)
    (orderData : order.orderToBytes crypto = .ok (Ethers.hexlify (Orders.encodeOrder solidityOrder)))
    (amountFits : InUint256 (BigNumber.toFixed0 amount.value)) (priceFits : InUint256 price.number.toSolidity)
    (feeFits : InUint256 fee.number.toSolidity) : ∃ text data,
      order.fillToTradeData crypto amount price fee = .ok text ∧
      Ethers.arrayify text = .ok (encodeTradeData data) ∧ data.order = solidityOrder ∧
      (data.fill.amount.toNat : ℤ) = BigNumber.toFixed0 amount.value ∧
      (data.fill.price.toNat : ℤ) = price.number.toSolidity ∧ (data.fill.fee.toNat : ℤ) = fee.number.toSolidity ∧
      data.fill.isNegativeFee = fee.isNegative ∧ HexText.bytes (stripHexPrefix order.typedSignature) =
        some (Abi.word data.signature.r ++ Abi.word data.signature.s ++
          Abi.bytesOf 2 data.signature.vType.toNat) := by
  obtain ⟨a,amountOk,amountWord,_⟩ := uint256Texts (readsFixed0 amount) amountFits
  obtain ⟨p,priceOk,priceWord,_⟩ := uint256Texts (readsSolidity price) priceFits
  obtain ⟨f,feeOk,feeWord,_⟩ := uint256Texts (readsSolidity fee) feeFits
  obtain ⟨signature,signed,signatureLong,padded⟩ := paddedSignature fits.signature fits.signatureLong
  let fillBytes := Abi.word a ++ Abi.word p ++ Abi.word f ++ Ethers.encodeBool fee.isNegative
  refine ⟨combineHexStrings [Ethers.hexlify (Orders.encodeOrder solidityOrder),Ethers.hexlify fillBytes,
    order.typedSignature ++ List.replicate 60 '0'],⟨solidityOrder,⟨a,p,f,fee.isNegative⟩,signatureOf signature⟩,
    ?_,?_,rfl,?_,?_,?_,rfl,?_⟩
  · simp only [SignedOrder.fillToTradeData, Checked.bindOk, Checked.pureOk]
    exact ⟨_,orderData,_,amountWord,_,priceWord,_,feeWord,rfl⟩
  · have joined : combineHexStrings [Ethers.hexlify (Orders.encodeOrder solidityOrder),Ethers.hexlify fillBytes,
        order.typedSignature ++ List.replicate 60 '0'] = '0' :: 'x' ::
          (HexText.ofBytes (Orders.encodeOrder solidityOrder) ++ (HexText.ofBytes fillBytes ++
            stripHexPrefix (order.typedSignature ++ List.replicate 60 '0'))) := by
      simp only [combineHexStrings, List.flatMap_cons, List.flatMap_nil, List.append_nil]
      rfl
    rw [joined, Ethers.arrayify, HexText.bytesAppend (HexText.bytesOfBytes _),
      HexText.bytesAppend (HexText.bytesOfBytes _), padded, signaturePadded signatureLong]
    simp only [Option.map_some, encodeTradeData, List.append_assoc, fillBytes, Ethers.encodeBool]
  · exact Perpetual.SignedOrder.uint256Ok.mp amountOk
  · exact Perpetual.SignedOrder.uint256Ok.mp priceOk
  · exact Perpetual.SignedOrder.uint256Ok.mp feeOk
  · rw [signatureParts signatureLong, signed]

/-- P1Orders decodes the trade data of the client as the order that was signed, with its flags, and as the fill
and the signature. -/
theorem decodesWhatWasSigned (crypto : Crypto) (chainId : Uint256) (perpetualV1 this maker taker : Address)
    (contract : Text) (order : SignedOrder) (amount : Decimal) (price fee : BaseValue)
    (spells : AddressText contract this) (fits : order.Fits maker taker)
    (makerCase : LetterCase crypto order.maker) (takerCase : LetterCase crypto order.taker)
    (amountFits : InUint256 (BigNumber.toFixed0 amount.value)) (priceFits : InUint256 price.number.toSolidity)
    (feeFits : InUint256 fee.number.toSolidity) : ∃ text bytes data,
      order.fillToTradeData crypto amount price fee = .ok text ∧ Ethers.arrayify text = .ok bytes ∧
      Orders.decodeTradeData bytes = .ok data ∧
      order.getOrderHash crypto chainId.toNat contract = .ok (Ethers.hexlify (Abi.word (Orders.getOrderHash crypto
        (Orders.constructor crypto P1Orders.EIP712_DOMAIN_NAME perpetualV1 chainId this).eip712DomainHash
        data.order))) ∧
      ReadAs order amount price fee data := by
  obtain ⟨solidityOrder,encodes,struct,orderData⟩ := SignedOrder.orderEncoded crypto fits ⟨0,0,0⟩
  obtain ⟨text,data,written,bytes,same,fillAmount,fillPrice,fillFee,fillSign,signature⟩ :=
    fillTexts fits amount price fee (orderData makerCase takerCase) amountFits priceFits feeFits
  refine ⟨text,_,data,written,bytes,TradeData.decodeEncode data,?_,?_⟩
  · rw [same]
    exact orderHashed spells chainId perpetualV1 struct
  · refine ⟨?_,?_,?_,fillSign,fillAmount,fillPrice,fillFee,signature⟩ <;> rw [same]
    · exact Perpetual.SignedOrder.sideKept encodes
    · exact Perpetual.SignedOrder.decreaseKept encodes
    · exact Perpetual.SignedOrder.feeSideKept encodes

theorem fixed0Fits {x : Decimal} (fits : InUint256 x.roundedInt) : InUint256 (BigNumber.toFixed0 x.value) := by
  rwa [← roundedFixed0]

theorem solidityFits {x : BaseValue}
    (fits : InUint256 (x.value.abs.shiftedBy Perpetual.BaseValue.BASE_DECIMALS).roundedInt) :
    InUint256 x.number.toSolidity := by
  rwa [← solidityRounded]

def sampleOrder (first second : Char) : SignedOrder where
  isBuy := true
  isDecreaseOnly := false
  amount := .make false 10 0
  limitPrice := ⟨.make false 55 (-1)⟩
  triggerPrice := ⟨.zero false⟩
  limitFee := ⟨.make true 5 (-3)⟩
  maker := '0' :: 'x' :: first :: second :: List.replicate 38 '0'
  taker := '0' :: 'x' :: List.replicate 40 '0'
  expiration := .make false 101 0
  salt := .make false 7 0
  typedSignature := '0' :: 'x' :: List.replicate 132 '1'

def sampleMaker : Address := BitVec.ofNat 160 (0xab * 16 ^ 38)

theorem sampleFits {first second : Char} (maker : AddressText (sampleOrder first second).maker sampleMaker) :
    (sampleOrder first second).Fits sampleMaker 0 where
  whole := (by decide +kernel : (Decimal.make false 7 0).isInteger = true)
  salt := Decimal.magnitudeNonneg (.make false 7 0)
  amount := fixed0Fits (x := .make false 10 0) (by decide +kernel)
  limitPrice := solidityFits (x := ⟨.make false 55 (-1)⟩) (by decide +kernel)
  triggerPrice := solidityFits (x := ⟨.zero false⟩) (by decide +kernel)
  limitFee := solidityFits (x := ⟨.make true 5 (-3)⟩) (by decide +kernel)
  expiration := fixed0Fits (x := .make false 101 0) (by decide +kernel)
  maker := maker
  taker := ⟨rfl,(by decide +kernel : HexText.IsHex (List.replicate 40 '0')),
    (by decide +kernel : HexText.value (List.replicate 40 '0') = (0 : Address).toNat)⟩
  signature := (by decide +kernel : HexText.IsHex (List.replicate 132 '1'))
  signatureLong := List.length_replicate

theorem sampleDecoded : ∃ text bytes data,
    (sampleOrder 'a' 'b').fillToTradeData .sample (.make false 4 0) ⟨.make false 5 0⟩ ⟨.zero true⟩ = .ok text ∧
    Ethers.arrayify text = .ok bytes ∧ Orders.decodeTradeData bytes = .ok data ∧
    (sampleOrder 'a' 'b').getOrderHash .sample 1 ('0' :: 'x' :: List.replicate 40 '0') =
      .ok (Ethers.hexlify (Abi.word (Orders.getOrderHash .sample
        (Orders.constructor .sample P1Orders.EIP712_DOMAIN_NAME 7 1 0).eip712DomainHash data.order))) ∧
    ReadAs (sampleOrder 'a' 'b') (.make false 4 0) ⟨.make false 5 0⟩ ⟨.zero true⟩ data :=
  decodesWhatWasSigned .sample 1 7 0 sampleMaker 0 ('0' :: 'x' :: List.replicate 40 '0') (sampleOrder 'a' 'b')
    (.make false 4 0) ⟨.make false 5 0⟩ ⟨.zero true⟩ ⟨rfl,by decide +kernel,by decide +kernel⟩
    (sampleFits ⟨rfl,by decide +kernel,by decide +kernel⟩) (.inl (by decide +kernel)) (.inl (by decide +kernel))
    (fixed0Fits (by decide +kernel)) (solidityFits (by decide +kernel)) (solidityFits (by decide +kernel))

theorem mixedCaseRefused : (sampleOrder 'A' 'b').Fits sampleMaker 0 ∧
    InUint256 (BigNumber.toFixed0 (Decimal.make false 4 0).value) ∧
    InUint256 (BaseValue.number ⟨.make false 5 0⟩).toSolidity ∧
    InUint256 (BaseValue.number ⟨.zero true⟩).toSolidity ∧
    (sampleOrder 'A' 'b').fillToTradeData .sample (.make false 4 0) ⟨.make false 5 0⟩ ⟨.zero true⟩ =
      .error "bad address checksum" :=
  ⟨sampleFits ⟨rfl,by decide +kernel,by decide +kernel⟩,fixed0Fits (by decide +kernel),
    solidityFits (by decide +kernel),solidityFits (by decide +kernel),by decide +kernel⟩

end Client
end Perpetual
