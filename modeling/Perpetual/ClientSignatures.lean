import Perpetual.OrderTexts

/-! The signatures of the client (`utils.ts`, `orders.ts`): how it makes and checks them, and
what P1Orders makes of them. -/
namespace Perpetual

namespace Ethers

def recoveryV (v : UInt8) : Checked (BitVec 8) := do
  Checked.require (27 ≤ v.toNat ∨ v.toNat < 2) "signature invalid v byte"
  let v := if v.toNat < 27 then v.toNat + 27 else v.toNat
  let recoveryParam := 1 - v % 2
  return BitVec.ofNat 8 (27 + recoveryParam)

def addressText (crypto : Crypto) (a : Address) : Text :=
  '0' :: 'x' :: checksumAddress crypto (HexText.ofBytes (Abi.bytesOf 20 a.toNat))

abbrev Recovery := (digest : Bytes32) → (v : BitVec 8) → (r s : Bytes32) → Option Address

def recoverAddress (recovery : Recovery) (crypto : Crypto) (digest signature : Text) : Checked Text := do
  let digest ← bytesN 32 "invalid digest" digest
  let bytes ← bytesN 65 "invalid signature string" signature
  let v ← recoveryV (bytes.getD 64 0)
  let r := BitVec.ofNat 256 (Abi.natOf (bytes.take 32))
  let s := BitVec.ofNat 256 (Abi.natOf ((bytes.drop 32).take 32))
  match recovery (BitVec.ofNat 256 (Abi.natOf digest)) v r s with
  | some signer => return addressText crypto signer
  | none => .error "invalid point"

def evmRecovery (crypto : Crypto) : Recovery := fun digest v r s =>
  if crypto.ecrecover digest v r s = 0 then none else some (crypto.ecrecover digest v r s)

def CURVE_ORDER : Nat := 0xfffffffffffffffffffffffffffffffebaaedce6af48a03bbfd25e8cd0364141

def InRange (r s : Bytes32) : Prop := (0 < r.toNat ∧ r.toNat < CURVE_ORDER) ∧ 0 < s.toNat ∧ s.toNat < CURVE_ORDER

instance (r s : Bytes32) : Decidable (InRange r s) :=
  inferInstanceAs (Decidable ((0 < r.toNat ∧ r.toNat < CURVE_ORDER) ∧ 0 < s.toNat ∧ s.toNat < CURVE_ORDER))

/-- Both recoveries solve the same equation. The contract's looks at `v`, `r` and `s` before, the package
does not. -/
structure SolvesAs (recovery : Recovery) (crypto : Crypto) : Prop where
  same : ∀ digest v r s, v = 27 ∨ v = 28 → InRange r s → recovery digest v r s = evmRecovery crypto digest v r s
  checked : ∀ digest v r s, ¬((v = 27 ∨ v = 28) ∧ InRange r s) → crypto.ecrecover digest v r s = 0

end Ethers

namespace Client

namespace SIGNATURE_TYPES

def NO_PREPEND : ℤ := 0

def DECIMAL : ℤ := 1

def HEXADECIMAL : ℤ := 2

end SIGNATURE_TYPES

def isValidSigType (sigType : ℤ) : Bool :=
  sigType == SIGNATURE_TYPES.NO_PREPEND || sigType == SIGNATURE_TYPES.DECIMAL ||
    sigType == SIGNATURE_TYPES.HEXADECIMAL

structure VRS where
  v : Text
  r : Text
  s : Text

def signatureToVRS (signature : Text) : Checked VRS := do
  let stripped := stripHexPrefix signature
  Checked.require (stripped.length = 130) ("Invalid raw signature: " ++ String.ofList signature)
  return ⟨(stripped.drop 128).take 2,stripped.take 64,(stripped.drop 64).take 64⟩

def fixRawSignature (signature : Text) : Checked Text := do
  let vrs ← signatureToVRS signature
  let trueV ← match vrs.v with
    | ['0','0'] => Except.ok ['1','b']
    | ['0','1'] => Except.ok ['1','c']
    | ['1','b'] => Except.ok ['1','b']
    | ['1','c'] => Except.ok ['1','c']
    | v => Except.error ("Invalid v value: " ++ String.ofList v)
  return combineHexStrings [vrs.r,vrs.s,trueV]

def createTypedSignature (signature : Text) (sigType : ℤ) : Checked Text := do
  Checked.require (isValidSigType sigType = true) ("Invalid signature type: " ++ toString sigType)
  let fixed ← fixRawSignature signature
  return fixed ++ '0' :: (toString sigType).toList

def isStrWhiteSpace (c : Char) : Bool :=
  c.toNat ∈ [9,10,11,12,13,32,160,5760,8192,8193,8194,8195,8196,8197,8198,8199,8200,8201,8202,8232,8233,8239,
    8287,12288,65279]

def stripMark : Text → Text
  | '0' :: 'x' :: rest => rest
  | '0' :: 'X' :: rest => rest
  | text => text

def parseInt16 (text : Text) : Option ℤ :=
  let trimmed := text.dropWhile isStrWhiteSpace
  let sign : ℤ := if trimmed.head? = some '-' then -1 else 1
  let unsigned := if trimmed.head? = some '-' ∨ trimmed.head? = some '+' then trimmed.tail else trimmed
  let digits := (stripMark unsigned).takeWhile fun c => (HexText.digit c).isSome
  if digits = [] then none else some (sign * HexText.value digits)

def getPrependedHash (crypto : Crypto) (hash : Text) (sigType : Option ℤ) : Checked Text :=
  match sigType with
  | some 0 => .ok hash
  | some 1 => do
      let packed ← Ethers.packBytes32 hash
      return Ethers.keccak256 crypto (TypedSignature.PREPEND_DEC ++ packed)
  | some 2 => do
      let packed ← Ethers.packBytes32 hash
      return Ethers.keccak256 crypto (TypedSignature.PREPEND_HEX ++ packed)
  | some other => .error ("invalid sigType " ++ toString other)
  | none => .error "invalid sigType NaN"

def ecRecoverTypedSignature (recovery : Ethers.Recovery) (crypto : Crypto) (hash typedSignature : Text) :
    Checked Text :=
  if (stripHexPrefix typedSignature).length ≠ 66 * 2 then .ok ['0','x']
  else match getPrependedHash crypto hash (parseInt16 (sliceLast typedSignature 2)) with
    | .error _ => .ok ['0','x']
    | .ok prependedHash =>
        Ethers.recoverAddress recovery crypto prependedHash (typedSignature.take (typedSignature.length - 2))

def addressesAreEqual (addressOne addressTwo : Text) : Bool :=
  decide (0 < addressOne.length) && decide (0 < addressTwo.length) &&
    (stripHexPrefix addressOne).map Char.toLower == (stripHexPrefix addressTwo).map Char.toLower

def hashHasValidSignature (recovery : Ethers.Recovery) (crypto : Crypto)
    (hash typedSignature expectedSigner : Text) : Checked Bool := do
  let signer ← ecRecoverTypedSignature recovery crypto hash typedSignature
  return addressesAreEqual signer expectedSigner

inductive SigningMethod where
  | Compatibility
  | UnsafeHash
  | Hash
  | TypedData
  | MetaMask
  | MetaMaskLatest
  | CoinbaseWallet
  deriving DecidableEq, Repr

def SigningMethod.name : SigningMethod → String
  | Compatibility => "Compatibility"
  | UnsafeHash => "UnsafeHash"
  | Hash => "Hash"
  | TypedData => "TypedData"
  | MetaMask => "MetaMask"
  | MetaMaskLatest => "MetaMaskLatest"
  | CoinbaseWallet => "CoinbaseWallet"

def signOrder (recovery : Ethers.Recovery) (crypto : Crypto) (networkId : Nat) (p1Orders : Text)
    (signMessage : Text → List UInt8 → Checked Text) (order : SignedOrder) (signingMethod : SigningMethod) :
    Checked Text :=
  match signingMethod with
  | .Hash | .UnsafeHash | .Compatibility => do
      let orderHash ← order.getOrderHash crypto networkId p1Orders
      let message ← Ethers.arrayify orderHash
      let rawSignature ← signMessage order.maker message
      let hashSig ← createTypedSignature rawSignature SIGNATURE_TYPES.DECIMAL
      if signingMethod = .Hash then return hashSig
      let unsafeHashSig ← createTypedSignature rawSignature SIGNATURE_TYPES.NO_PREPEND
      if signingMethod = .UnsafeHash then return unsafeHashSig
      if ← hashHasValidSignature recovery crypto orderHash unsafeHashSig order.maker then return unsafeHashSig
      return hashSig
  | other => .error ("Invalid signing method " ++ other.name)

def getSignedOrder (recovery : Ethers.Recovery) (crypto : Crypto) (networkId : Nat) (p1Orders : Text)
    (signMessage : Text → List UInt8 → Checked Text) (order : SignedOrder) (signingMethod : SigningMethod) :
    Checked SignedOrder := do
  let typedSignature ← signOrder recovery crypto networkId p1Orders signMessage order signingMethod
  return { order with typedSignature := typedSignature }

def orderHasValidSignature (recovery : Ethers.Recovery) (crypto : Crypto) (networkId : Nat) (p1Orders : Text)
    (order : SignedOrder) : Checked Bool := do
  let orderHash ← order.getOrderHash crypto networkId p1Orders
  hashHasValidSignature recovery crypto orderHash order.typedSignature order.maker

/-! What a typed signature recovers, on chain and off. -/

def digestOf (crypto : Crypto) (hash : Bytes32) (sigType : Nat) : Option Bytes32 :=
  match sigType with
  | 0 => some hash
  | 1 => some (crypto.keccak256 (TypedSignature.PREPEND_DEC ++ Abi.word hash))
  | 2 => some (crypto.keccak256 (TypedSignature.PREPEND_HEX ++ Abi.word hash))
  | _ => none

section
variable {crypto : Crypto} {hash : Bytes32}

theorem recoverOk {signature : TypedSignature.Signature} {a : Address} :
    TypedSignature.recover crypto hash signature = .ok a ↔ ∃ d,
      digestOf crypto hash (TypedSignature.bytes1 (signature.vType <<< 8)).toNat = some d ∧
        crypto.ecrecover d (TypedSignature.bytes1 signature.vType) signature.r signature.s = a := by
  simp only [TypedSignature.recover, TypedSignature.signatureType, Checked.bindOk]
  generalize (TypedSignature.bytes1 (signature.vType <<< 8)).toNat = sigType
  match sigType with
  | 0 | 1 | 2 => simp [digestOf]
  | 3 => simp [digestOf]
  | n + 4 => simp [digestOf]

theorem prepended (crypto : Crypto) (hash : Bytes32) (sigType : Nat) : (∃ d, digestOf crypto hash sigType = some d ∧
      getPrependedHash crypto (Ethers.hexlify (Abi.word hash)) (some sigType) = .ok (Ethers.hexlify (Abi.word d))) ∨
    digestOf crypto hash sigType = none ∧
      ∃ reason, getPrependedHash crypto (Ethers.hexlify (Abi.word hash)) (some sigType) = .error reason := by
  match sigType with
  | 0 => exact .inl ⟨_,rfl,rfl⟩
  | 1 =>
    refine .inl ⟨_,rfl,?_⟩
    change (Ethers.packBytes32 _ >>= _) = _
    rw [Ethers.packHash]
    rfl
  | 2 =>
    refine .inl ⟨_,rfl,?_⟩
    change (Ethers.packBytes32 _ >>= _) = _
    rw [Ethers.packHash]
    rfl
  | n + 3 => exact .inr ⟨rfl,_,rfl⟩

end

theorem hexPlain {c : Char} (hex : (HexText.digit c).isSome) :
    isStrWhiteSpace c = false ∧ c ≠ '-' ∧ c ≠ '+' ∧ c ≠ 'x' ∧ c ≠ 'X' :=
  HexText.digitCases (fun c => isStrWhiteSpace c = false ∧ c ≠ '-' ∧ c ≠ '+' ∧ c ≠ 'x' ∧ c ≠ 'X') (by decide) hex

theorem parsesHex {a b : Char} (hexA : (HexText.digit a).isSome) (hexB : (HexText.digit b).isSome) :
    parseInt16 [a,b] = some (HexText.value [a,b] : ℤ) := by
  obtain ⟨noSpace,noMinus,noPlus,_,_⟩ := hexPlain hexA
  obtain ⟨_,_,_,noX,noUpperX⟩ := hexPlain hexB
  have trimmed : [a,b].dropWhile isStrWhiteSpace = [a,b] :=
    List.dropWhile_cons_of_neg (by rw [noSpace]; decide)
  have whole : [a,b].takeWhile (fun c => (HexText.digit c).isSome) = [a,b] := by
    simp only [List.takeWhile_cons, hexA, hexB, if_true, List.takeWhile_nil]
  have unmarked : stripMark [a,b] = [a,b] := by
    unfold stripMark
    split
    · rename_i same
      simp only [List.cons.injEq] at same
      exact absurd same.2.1 noX
    · rename_i same
      simp only [List.cons.injEq] at same
      exact absurd same.2.1 noUpperX
    · rfl
  simp only [parseInt16, trimmed, List.head?_cons, Option.some.injEq, noMinus, noPlus, or_self, if_false]
  rw [unmarked, whole, if_neg (List.cons_ne_nil _ _), one_mul]

structure TypedText (text : Text) (data : List UInt8) : Prop where
  marked : text = '0' :: 'x' :: stripHexPrefix text
  reads : HexText.bytes (stripHexPrefix text) = some data
  long : data.length = 66

namespace TypedText
variable {text : Text} {data : List UInt8}

theorem parts (h : TypedText text data) : ∃ front a b, text = '0' :: 'x' :: (front ++ [a,b]) ∧ front.length = 130 ∧
    HexText.bytes front = some (data.take 65) ∧ (HexText.digit a).isSome ∧ (HexText.digit b).isSome ∧
    HexText.value [a,b] = (data.getD 65 0).toNat := by
  have digitsLong := (HexText.bytesValue h.reads).1
  rw [h.long] at digitsLong
  have hex := HexText.bytesHex h.reads
  generalize stripped : stripHexPrefix text = digits at digitsLong hex
  have split := List.take_append_drop 130 digits
  have frontLong : (digits.take 130).length = 130 := by
    rw [List.length_take]
    omega
  have frontHex : HexText.IsHex (digits.take 130) := fun c mem => hex c (List.mem_of_mem_take mem)
  obtain ⟨first,frontReads⟩ := HexText.bytesTotal frontHex (by rw [frontLong])
  have reads := h.reads
  rw [stripped, ← split, HexText.bytesAppend frontReads] at reads
  obtain ⟨last,lastReads,same⟩ := Option.map_eq_some_iff.mp reads
  have firstLong : first.length = 65 := by
    have := (HexText.bytesValue frontReads).1
    omega
  have lastLong : last.length = 1 := by
    have := congrArg List.length same
    rw [List.length_append, h.long] at this
    omega
  obtain ⟨sigType,rfl⟩ := List.length_eq_one_iff.mp lastLong
  have tailLong : (digits.drop 130).length = 2 := by
    rw [List.length_drop]
    omega
  obtain ⟨a,b,tail⟩ := List.length_eq_two.mp tailLong
  refine ⟨digits.take 130,a,b,?_,frontLong,?_,hex a ?_,hex b ?_,?_⟩
  · rw [h.marked, stripped, ← tail, split]
  · rw [frontReads, ← same, List.take_left' firstLong]
  · exact List.mem_of_mem_drop (tail ▸ List.mem_cons_self)
  · exact List.mem_of_mem_drop (tail ▸ List.mem_cons_of_mem _ List.mem_cons_self)
  · have value := (HexText.bytesValue lastReads).2
    rw [tail] at value
    have last' : (first ++ [sigType]).getD 65 0 = sigType := by
      rw [List.getD_eq_getElem?_getD, ← firstLong, List.getElem?_concat_length]
      rfl
    rw [← value, ← same, last']
    simp

end TypedText

/-! Addresses in any letter case. -/

theorem lowerEq {text other : Text} (hex : HexText.IsHex text) (hexOther : HexText.IsHex other)
    (long : text.length = other.length) :
    text.map Char.toLower = other.map Char.toLower ↔ HexText.value text = HexText.value other := by
  have before := HexText.lowerLt hex hexOther long
  have after := HexText.lowerLt hexOther hex long.symm
  rw [eq_iff_le_not_lt, ← not_lt, after, before]
  omega

theorem lowerChecksum {crypto : Crypto} {digits : Text} (hex : HexText.IsHex digits) (short : digits.length ≤ 64) :
    (Ethers.checksumAddress crypto digits).map Char.toLower = digits.map Char.toLower := by
  have raised {c : Char} (h : Char) (hexC : (HexText.digit c).isSome) :
      (if 8 ≤ (HexText.digit h).getD 0 then c.toLower.toUpper else c.toLower).toLower = c.toLower := by
    have both : c.toLower.toUpper.toLower = c.toLower ∧ c.toLower.toLower = c.toLower :=
      HexText.digitCases (fun c => c.toLower.toUpper.toLower = c.toLower ∧ c.toLower.toLower = c.toLower)
        (by decide) hexC
    split
    · exact both.1
    · exact both.2
  have zipped (hashed : Text) (enough : digits.length ≤ hashed.length) :
      (List.zipWith (fun c h => if 8 ≤ (HexText.digit h).getD 0 then c.toUpper else c)
        (digits.map Char.toLower) hashed).map Char.toLower = digits.map Char.toLower := by
    clear short
    induction digits generalizing hashed with
    | nil => rfl
    | cons c rest ih =>
      obtain ⟨hexC,hexRest⟩ := List.forall_mem_cons.mp hex
      cases hashed with
      | nil => exact absurd enough (by simp)
      | cons h others =>
        rw [List.map_cons, List.zipWith_cons_cons, List.map_cons, raised h hexC,
          ih hexRest others (Nat.le_of_succ_le_succ enough)]
  refine zipped _ ?_
  have hashLong := (HexText.bytesValue (HexText.bytesOfBytes
    (Abi.word (crypto.keccak256 ((digits.map Char.toLower).map fun c => UInt8.ofNat c.toNat))))).1
  rw [hashLong, Abi.wordLength]
  exact short

theorem sameAddress {crypto : Crypto} {text : Text} {account : Address} (spells : AddressText text account)
    (a : Address) : addressesAreEqual (Ethers.addressText crypto a) text = true ↔ a = account := by
  have written := HexText.bytesOfBytes (Abi.bytesOf 20 a.toNat)
  have hex := HexText.bytesHex written
  obtain ⟨long,value⟩ := HexText.bytesValue written
  rw [Abi.bytesOf, Abi.bytesOntoLength] at long
  have number : Abi.natOf (Abi.bytesOf 20 a.toNat) = a.toNat := by
    have width : 256 ^ 20 = 2 ^ 160 := by norm_num
    rw [Abi.natOfBytes, width, Nat.mod_eq_of_lt a.isLt]
  have some' : 0 < text.length := by
    have shorter : (stripHexPrefix text).length ≤ text.length := by
      unfold stripHexPrefix
      split
      · exact (Nat.le_succ _).trans (Nat.le_succ _)
      · exact le_rfl
    have := spells.long
    omega
  have stripped : stripHexPrefix (Ethers.addressText crypto a) =
      Ethers.checksumAddress crypto (HexText.ofBytes (Abi.bytesOf 20 a.toNat)) := rfl
  have marked : 0 < (Ethers.addressText crypto a).length := Nat.succ_pos _
  rw [addressesAreEqual, decide_eq_true marked, decide_eq_true some', Bool.true_and, Bool.true_and, beq_iff_eq,
    stripped, lowerChecksum hex (by rw [Abi.bytesOf, long]; decide),
    lowerEq hex spells.hex (by rw [Abi.bytesOf, long, spells.long]; rfl), spells.value, ← value]
  rw [Abi.natOf] at number
  rw [number]
  exact BitVec.toNat_inj

theorem noAddress {text : Text} {account : Address} (spells : AddressText text account) :
    addressesAreEqual ['0','x'] text = false := by
  have different : (stripHexPrefix ['0','x']).map Char.toLower ≠ (stripHexPrefix text).map Char.toLower := by
    intro same
    have long := congrArg List.length same
    rw [List.length_map, List.length_map, spells.long] at long
    exact absurd long (by decide)
  rw [addressesAreEqual, beq_eq_false_iff_ne.mpr different, Bool.and_false]

/-! The check off chain. -/

theorem recoveredAddress {recovery : Ethers.Recovery} {crypto : Crypto} {d : Bytes32} {front : Text}
    {data : List UInt8} {text : Text} (reads : HexText.bytes front = some (data.take 65)) (long : data.length = 66) :
    Ethers.recoverAddress recovery crypto (Ethers.hexlify (Abi.word d)) ('0' :: 'x' :: front) = .ok text ↔
      ∃ v, Ethers.recoveryV (data.getD 64 0) = .ok v ∧ ∃ a : Address,
        recovery d v (signatureOf data).r (signatureOf data).s = some a ∧ Ethers.addressText crypto a = text := by
  have digest : Ethers.bytesN 32 "invalid digest" (Ethers.hexlify (Abi.word d)) = .ok (Abi.word d) := by
    simp only [Ethers.bytesN, Checked.bindOk, Checked.requireOk, exists_const, Checked.pureOk]
    exact ⟨_,Ethers.arrayifyHexlify _,Abi.wordLength d,rfl⟩
  have short : (data.take 65).length = 65 := by
    rw [List.length_take, long]
    rfl
  have bytes : Ethers.bytesN 65 "invalid signature string" ('0' :: 'x' :: front) = .ok (data.take 65) := by
    simp only [Ethers.bytesN, Ethers.arrayify, reads, Checked.bindOk, Checked.requireOk, exists_const,
      Checked.pureOk]
    exact ⟨_,rfl,short,rfl⟩
  have vByte : (data.take 65).getD 64 0 = data.getD 64 0 := by
    rw [List.getD_eq_getElem?_getD, List.getElem?_take_of_lt (by decide), List.getD_eq_getElem?_getD]
  have rWord : BitVec.ofNat 256 (Abi.natOf ((data.take 65).take 32)) = (signatureOf data).r := by
    rw [List.take_take]
    rfl
  have sWord : BitVec.ofNat 256 (Abi.natOf (((data.take 65).drop 32).take 32)) = (signatureOf data).s := by
    rw [List.drop_take, List.take_take]
    rfl
  simp only [Ethers.recoverAddress, digest, bytes, Checked.okBind, Checked.bindOk, wordSelf, vByte, rWord, sWord]
  refine exists_congr fun v => and_congr_right fun _ => ?_
  cases recovery d v (signatureOf data).r (signatureOf data).s with
  | none => simp
  | some signer => simp [pure, Except.pure]

section
variable {recovery : Ethers.Recovery} {crypto : Crypto} {hash : Bytes32} {text maker : Text} {data : List UInt8}
  {account : Address}

theorem recoversTyped (recovery : Ethers.Recovery) (crypto : Crypto) (hash : Bytes32) (typed : TypedText text data) :
    ∃ front, HexText.bytes front = some (data.take 65) ∧
    (∀ d, digestOf crypto hash (data.getD 65 0).toNat = some d →
      ecRecoverTypedSignature recovery crypto (Ethers.hexlify (Abi.word hash)) text =
        Ethers.recoverAddress recovery crypto (Ethers.hexlify (Abi.word d)) ('0' :: 'x' :: front)) ∧
    (digestOf crypto hash (data.getD 65 0).toNat = none →
      ecRecoverTypedSignature recovery crypto (Ethers.hexlify (Abi.word hash)) text = .ok ['0','x']) := by
  obtain ⟨front,a,b,rfl,frontLong,reads,hexA,hexB,value⟩ := typed.parts
  have textLong : ('0' :: 'x' :: (front ++ [a,b])).length = 134 := by
    simp only [List.length_cons, List.length_append, frontLong, List.length_nil]
  have stripped : (stripHexPrefix ('0' :: 'x' :: (front ++ [a,b]))).length = 66 * 2 := by
    change (front ++ [a,b]).length = 132
    rw [List.length_append, frontLong]
    rfl
  have marked : ('0' :: 'x' :: front).length = 132 := by rw [List.length_cons, List.length_cons, frontLong]
  have sigType : parseInt16 (sliceLast ('0' :: 'x' :: (front ++ [a,b])) 2) = some ((data.getD 65 0).toNat : ℤ) := by
    rw [sliceLast, textLong, ← List.cons_append, ← List.cons_append, List.drop_left' marked, parsesHex hexA hexB, value]
  have signature : ('0' :: 'x' :: (front ++ [a,b])).take (('0' :: 'x' :: (front ++ [a,b])).length - 2) =
      '0' :: 'x' :: front := by
    rw [textLong, ← List.cons_append, ← List.cons_append, List.take_left' marked]
  have answer : ecRecoverTypedSignature recovery crypto (Ethers.hexlify (Abi.word hash))
      ('0' :: 'x' :: (front ++ [a,b])) = match getPrependedHash crypto (Ethers.hexlify (Abi.word hash))
        (some ((data.getD 65 0).toNat : ℤ)) with
      | .error _ => .ok ['0','x']
      | .ok prependedHash => Ethers.recoverAddress recovery crypto prependedHash ('0' :: 'x' :: front) := by
    rw [ecRecoverTypedSignature, if_neg (not_not.mpr stripped), sigType, signature]
  rw [answer]
  refine ⟨front,reads,fun d same => ?_,fun none' => ?_⟩
  · rcases prepended crypto hash (data.getD 65 0).toNat with ⟨d',digest,written⟩ | ⟨none',_⟩
    · obtain rfl := Option.some.inj (same.symm.trans digest)
      rw [written]
    · cases same.symm.trans none'
  · rcases prepended crypto hash (data.getD 65 0).toNat with ⟨d',digest,_⟩ | ⟨_,reason,failed⟩
    · cases digest.symm.trans none'
    · rw [failed]

theorem validOffChain (typed : TypedText text data) (spells : AddressText maker account) :
    hashHasValidSignature recovery crypto (Ethers.hexlify (Abi.word hash)) text maker = .ok true ↔ ∃ d v,
      digestOf crypto hash (data.getD 65 0).toNat = some d ∧ Ethers.recoveryV (data.getD 64 0) = .ok v ∧
        recovery d v (signatureOf data).r (signatureOf data).s = some account := by
  obtain ⟨front,reads,recovers,nothing⟩ := recoversTyped recovery crypto hash typed
  simp only [hashHasValidSignature, Checked.bindOk, Checked.pureOk]
  cases digest : digestOf crypto hash (data.getD 65 0).toNat with
  | none =>
    rw [nothing digest]
    constructor
    · rintro ⟨_,same,valid⟩
      rw [← Except.ok.inj same, noAddress spells] at valid
      cases valid
    · rintro ⟨_,_,none',_⟩
      cases none'
  | some d =>
    simp only [recovers d digest, recoveredAddress reads typed.long]
    constructor
    · rintro ⟨_,⟨v,parity,signer,recovered,rfl⟩,same⟩
      obtain rfl := (sameAddress spells signer).mp same
      exact ⟨d,v,rfl,parity,recovered⟩
    · rintro ⟨_,v,same,parity,recovered⟩
      obtain rfl := Option.some.inj same
      exact ⟨_,⟨v,parity,account,recovered,rfl⟩,(sameAddress spells account).mpr rfl⟩

theorem evmRecovers {d r s : Bytes32} {v : BitVec 8} : Ethers.evmRecovery crypto d v r s = some account ↔
    crypto.ecrecover d v r s = account ∧ account ≠ 0 := by
  rw [Ethers.evmRecovery]
  split
  · rename_i nobody
    exact ⟨nofun,fun ⟨same,some'⟩ => absurd (same.symm.trans nobody) some'⟩
  · rename_i some'
    rw [Option.some.injEq]
    exact ⟨fun same => ⟨same,same ▸ some'⟩,And.left⟩

theorem checksTyped (typed : TypedText text data) {d : Bytes32} {v : BitVec 8} {signer : Address}
    (digest : digestOf crypto hash (data.getD 65 0).toNat = some d)
    (parity : Ethers.recoveryV (data.getD 64 0) = .ok v)
    (recovered : recovery d v (signatureOf data).r (signatureOf data).s = some signer) :
    ∃ valid, hashHasValidSignature recovery crypto (Ethers.hexlify (Abi.word hash)) text maker = .ok valid := by
  obtain ⟨front,reads,recovers,_⟩ := recoversTyped recovery crypto hash typed
  simp only [hashHasValidSignature, Checked.bindOk, Checked.pureOk, recovers d digest,
    recoveredAddress reads typed.long]
  exact ⟨_,_,⟨v,parity,_,recovered,rfl⟩,rfl⟩

theorem typeBytes (long : data.length = 66) :
    TypedSignature.bytes1 (signatureOf data).vType = BitVec.ofNat 8 (data.getD 64 0).toNat ∧
      (TypedSignature.bytes1 ((signatureOf data).vType <<< 8)).toNat = (data.getD 65 0).toNat := by
  obtain ⟨v,sigType,last⟩ : ∃ v sigType, data.drop 64 = [v,sigType] :=
    List.length_eq_two.mp (by rw [List.length_drop, long])
  have at' (i : Nat) : data[64 + i]? = [v,sigType][i]? := by rw [← List.getElem?_drop, last]
  have at64 : data.getD 64 0 = v := by
    rw [List.getD_eq_getElem?_getD, at' 0]
    rfl
  have at65 : data.getD 65 0 = sigType := by
    rw [List.getD_eq_getElem?_getD, at' 1]
    rfl
  have number : Abi.natOf [v,sigType] = v.toNat * 256 + sigType.toNat := by simp [Abi.natOf]
  have vSmall := v.toNat_lt
  have typeSmall := sigType.toNat_lt
  rw [at64, at65]
  constructor
  · refine BitVec.eq_of_toNat_eq ?_
    simp only [TypedSignature.bytes1, signatureOf, last, number, BitVec.toNat_setWidth, BitVec.toNat_ushiftRight,
      BitVec.toNat_ofNat, Nat.shiftRight_eq_div_pow]
    omega
  · simp only [TypedSignature.bytes1, signatureOf, last, number, BitVec.toNat_setWidth, BitVec.toNat_ushiftRight,
      BitVec.toNat_shiftLeft, BitVec.toNat_ofNat, Nat.shiftRight_eq_div_pow, Nat.shiftLeft_eq]
    omega

theorem validOnChain (long : data.length = 66) : TypedSignature.ValidBy crypto hash (signatureOf data) account ↔ ∃ d,
    digestOf crypto hash (data.getD 65 0).toNat = some d ∧ crypto.ecrecover d (BitVec.ofNat 8 (data.getD 64 0).toNat)
      (signatureOf data).r (signatureOf data).s = account ∧ account ≠ 0 := by
  obtain ⟨v,sigType⟩ := typeBytes long
  rw [TypedSignature.ValidBy, recoverOk, v, sigType]
  constructor
  · rintro ⟨⟨d,digest,recovered⟩,some'⟩
    exact ⟨d,digest,recovered,some'⟩
  · rintro ⟨d,digest,recovered,some'⟩
    exact ⟨⟨d,digest,recovered⟩,some'⟩

theorem canonicalAgrees (typed : TypedText text data) (spells : AddressText maker account)
    (known : data.getD 64 0 = 27 ∨ data.getD 64 0 = 28)
    (same : ∀ d v, v = 27 ∨ v = 28 → recovery d v (signatureOf data).r (signatureOf data).s =
      Ethers.evmRecovery crypto d v (signatureOf data).r (signatureOf data).s) :
    hashHasValidSignature recovery crypto (Ethers.hexlify (Abi.word hash)) text maker = .ok true ↔
      TypedSignature.ValidBy crypto hash (signatureOf data) account := by
  have kept : Ethers.recoveryV (data.getD 64 0) = .ok (BitVec.ofNat 8 (data.getD 64 0).toNat) := by
    rcases known with same | same <;>
    · rw [same]
      rfl
  have byte : BitVec.ofNat 8 (data.getD 64 0).toNat = 27 ∨ BitVec.ofNat 8 (data.getD 64 0).toNat = 28 := by
    rcases known with same | same <;> rw [same] <;> decide
  rw [validOnChain typed.long, validOffChain typed spells, kept]
  constructor
  · rintro ⟨d,v,digest,parity,recovered⟩
    obtain rfl := Except.ok.inj parity
    rw [same d _ byte, evmRecovers] at recovered
    exact ⟨d,digest,recovered⟩
  · rintro ⟨d,digest,recovered⟩
    exact ⟨d,_,digest,rfl,by rwa [same d _ byte, evmRecovers]⟩

theorem checkedLikeOnChain (solves : Ethers.SolvesAs recovery crypto) (typed : TypedText text data)
    (spells : AddressText maker account) :
    TypedSignature.ValidBy crypto hash (signatureOf data) account ↔
      hashHasValidSignature recovery crypto (Ethers.hexlify (Abi.word hash)) text maker = .ok true ∧
        (data.getD 64 0 = 27 ∨ data.getD 64 0 = 28) ∧ Ethers.InRange (signatureOf data).r (signatureOf data).s := by
  constructor
  · intro valid
    obtain ⟨d,_,recovered,some'⟩ := (validOnChain typed.long).mp valid
    obtain ⟨parity,inRange⟩ := not_not.mp fun outside => some' (recovered.symm.trans (solves.checked _ _ _ _ outside))
    have small := (data.getD 64 0).toNat_lt
    have known : data.getD 64 0 = 27 ∨ data.getD 64 0 = 28 := by
      refine parity.imp (fun same => ?_) (fun same => ?_) <;>
      · have number := congrArg BitVec.toNat same
        rw [BitVec.toNat_ofNat, Nat.mod_eq_of_lt small] at number
        exact UInt8.toNat_inj.mp number
    exact ⟨(canonicalAgrees typed spells known fun d v parity => solves.same d v _ _ parity inRange).mpr valid,
      known,inRange⟩
  · rintro ⟨valid,known,inRange⟩
    exact (canonicalAgrees typed spells known fun d v parity => solves.same d v _ _ parity inRange).mp valid

end

/-! The signatures that the client makes. -/

theorem stripHex {text : Text} (hex : HexText.IsHex text) : stripHexPrefix text = text := by
  unfold stripHexPrefix
  split
  · exact absurd (hex 'x' (by simp)) (by decide)
  · rfl

theorem ofBytesAppend (first last : List UInt8) :
    HexText.ofBytes (first ++ last) = HexText.ofBytes first ++ HexText.ofBytes last := List.flatMap_append

def trueV (v : UInt8) : UInt8 := if v.toNat < 27 then v + 27 else v

def IsV (v : UInt8) : Prop := v = 0 ∨ v = 1 ∨ v = 27 ∨ v = 28

theorem IsV.known {v : UInt8} (h : IsV v) : trueV v = 27 ∨ trueV v = 28 := by
  rcases h with rfl | rfl | rfl | rfl <;> decide

def signatureBytes (r s : Bytes32) (v : UInt8) : List UInt8 := Abi.word r ++ Abi.word s ++ [v]

theorem fixesRaw (r s : Bytes32) {v : UInt8} (h : IsV v) :
    fixRawSignature (Ethers.hexlify (signatureBytes r s v)) = .ok (Ethers.hexlify (signatureBytes r s (trueV v))) := by
  have rLong : (HexText.ofBytes (Abi.word r)).length = 64 := by rw [HexText.ofBytesLength, Abi.wordLength]
  have sLong : (HexText.ofBytes (Abi.word s)).length = 64 := by rw [HexText.ofBytesLength, Abi.wordLength]
  have written : stripHexPrefix (Ethers.hexlify (signatureBytes r s v)) =
      HexText.ofBytes (Abi.word r) ++ (HexText.ofBytes (Abi.word s) ++ HexText.ofBytes [v]) := by
    rw [signatureBytes, List.append_assoc, Ethers.hexlify, ofBytesAppend, ofBytesAppend]
    rfl
  have vrs : signatureToVRS (Ethers.hexlify (signatureBytes r s v)) =
      .ok ⟨HexText.ofBytes [v],HexText.ofBytes (Abi.word r),HexText.ofBytes (Abi.word s)⟩ := by
    have both : (HexText.ofBytes (Abi.word r) ++ HexText.ofBytes (Abi.word s)).length = 128 := by
      rw [List.length_append, rLong, sLong]
    have long : (HexText.ofBytes (Abi.word r) ++
        (HexText.ofBytes (Abi.word s) ++ HexText.ofBytes [v])).length = 130 := by
      rw [← List.append_assoc, List.length_append, both, HexText.ofBytesLength]
      rfl
    have vText : (HexText.ofBytes [v]).take 2 = HexText.ofBytes [v] := rfl
    simp only [signatureToVRS, written, Checked.bindOk, Checked.requireOk, exists_const, Checked.pureOk]
    refine ⟨long,?_⟩
    rw [← List.append_assoc, List.drop_left' both, vText, List.append_assoc, List.take_left' rLong,
      List.drop_left' rLong, List.take_left' sLong]
  have joined (last : UInt8) : combineHexStrings [HexText.ofBytes (Abi.word r),HexText.ofBytes (Abi.word s),
      HexText.ofBytes [last]] = Ethers.hexlify (signatureBytes r s last) := by
    simp only [combineHexStrings, List.flatMap_cons, List.flatMap_nil, List.append_nil, stripHex (HexText.ofBytesHex _),
      Ethers.hexlify, signatureBytes, ofBytesAppend, List.append_assoc]
  rw [← joined (trueV v), fixRawSignature, vrs]
  rcases h with rfl | rfl | rfl | rfl <;> rfl

theorem createsTyped (r s : Bytes32) {v : UInt8} (h : IsV v) (sigType : ℤ) (last : UInt8)
    (known : sigType = 0 ∧ last = 0 ∨ sigType = 1 ∧ last = 1) :
    createTypedSignature (Ethers.hexlify (signatureBytes r s v)) sigType =
      .ok (Ethers.hexlify (signatureBytes r s (trueV v) ++ [last])) := by
  have valid : isValidSigType sigType = true := by rcases known with ⟨rfl,_⟩ | ⟨rfl,_⟩ <;> rfl
  have digits : '0' :: (toString sigType).toList = HexText.ofBytes [last] := by
    rcases known with ⟨rfl,rfl⟩ | ⟨rfl,rfl⟩ <;> rfl
  rw [createTypedSignature, Checked.requireThen valid, fixesRaw r s h]
  change Except.ok _ = _
  rw [digits, Ethers.hexlify, Ethers.hexlify, ofBytesAppend]
  rfl

theorem createdTyped (r s : Bytes32) (v last : UInt8) :
    TypedText (Ethers.hexlify (signatureBytes r s v ++ [last])) (signatureBytes r s v ++ [last]) where
  marked := rfl
  reads := HexText.bytesOfBytes _
  long := by simp only [signatureBytes, List.length_append, Abi.wordLength, List.length_singleton]

structure WalletSignature (crypto : Crypto) (prepends : Bool) (hash : Bytes32) (account : Address) (r s : Bytes32)
    (v : UInt8) : Prop where
  isV : IsV v
  someone : account ≠ 0
  signs : crypto.ecrecover
    (if prepends then crypto.keccak256 (TypedSignature.PREPEND_DEC ++ Abi.word hash) else hash)
    (BitVec.ofNat 8 (trueV v).toNat) r s = account

def SigningMethod.Suits : SigningMethod → Bool → Prop
  | .Hash,prepends => prepends = true
  | .UnsafeHash,prepends => prepends = false
  | .Compatibility,_ => True
  | _,_ => False

section
variable {recovery : Ethers.Recovery} {crypto : Crypto} {hash r s : Bytes32} {v : UInt8} {account : Address}

theorem createdParts (r s : Bytes32) (v last : UInt8) : (signatureOf (signatureBytes r s v ++ [last])).r = r ∧
    (signatureOf (signatureBytes r s v ++ [last])).s = s ∧
      (signatureBytes r s v ++ [last]).getD 64 0 = v ∧ (signatureBytes r s v ++ [last]).getD 65 0 = last := by
  have rLong := Abi.wordLength r
  have sLong := Abi.wordLength s
  have both : (Abi.word r ++ Abi.word s).length = 64 := by rw [List.length_append, rLong, sLong]
  have whole : signatureBytes r s v ++ [last] = (Abi.word r ++ Abi.word s) ++ [v,last] := by
    rw [signatureBytes, List.append_assoc]
    rfl
  have at' (i : Nat) : ((Abi.word r ++ Abi.word s) ++ [v,last])[64 + i]? = [v,last][i]? := by
    rw [← both, List.getElem?_append_right (Nat.le_add_right _ _), Nat.add_sub_cancel_left]
  rw [whole]
  refine ⟨?_,?_,?_,?_⟩
  · change BitVec.ofNat 256 (Abi.natOf _) = r
    rw [List.append_assoc, List.take_left' rLong, wordSelf]
  · change BitVec.ofNat 256 (Abi.natOf _) = s
    rw [List.append_assoc, List.drop_left' rLong, List.take_left' sLong, wordSelf]
  · rw [List.getD_eq_getElem?_getD, at' 0]
    rfl
  · rw [List.getD_eq_getElem?_getD, at' 1]
    rfl

theorem createdValid {d : Bytes32} {last : UInt8} (digest : digestOf crypto hash last.toNat = some d)
    (some' : account ≠ 0) (signed : crypto.ecrecover d (BitVec.ofNat 8 (trueV v).toNat) r s = account) :
    TypedSignature.ValidBy crypto hash (signatureOf (signatureBytes r s (trueV v) ++ [last])) account := by
  obtain ⟨rWord,sWord,vByte,typeByte⟩ := createdParts r s (trueV v) last
  refine (validOnChain (createdTyped r s (trueV v) last).long).mpr ⟨d,?_,?_,some'⟩
  · rw [typeByte]
    exact digest
  · rw [rWord, sWord, vByte]
    exact signed

theorem WalletSignature.hashValid (wallet : WalletSignature crypto true hash account r s v) :
    TypedSignature.ValidBy crypto hash (signatureOf (signatureBytes r s (trueV v) ++ [1])) account :=
  createdValid rfl wallet.someone wallet.signs

theorem WalletSignature.unsafeValid (wallet : WalletSignature crypto false hash account r s v) :
    TypedSignature.ValidBy crypto hash (signatureOf (signatureBytes r s (trueV v) ++ [0])) account :=
  createdValid rfl wallet.someone wallet.signs

theorem WalletSignature.inRange {prepends : Bool} (wallet : WalletSignature crypto prepends hash account r s v)
    (solves : Ethers.SolvesAs recovery crypto) : Ethers.InRange r s := by
  by_contra outside
  exact wallet.someone (wallet.signs.symm.trans (solves.checked _ _ _ _ fun both => outside both.2))

theorem WalletSignature.solved {prepends : Bool} (wallet : WalletSignature crypto prepends hash account r s v)
    (solves : Ethers.SolvesAs recovery crypto) (last : UInt8) (d : Bytes32) (v' : BitVec 8)
    (parity : v' = 27 ∨ v' = 28) :
    recovery d v' (signatureOf (signatureBytes r s (trueV v) ++ [last])).r
      (signatureOf (signatureBytes r s (trueV v) ++ [last])).s =
    Ethers.evmRecovery crypto d v' (signatureOf (signatureBytes r s (trueV v) ++ [last])).r
      (signatureOf (signatureBytes r s (trueV v) ++ [last])).s := by
  obtain ⟨rWord,sWord,_,_⟩ := createdParts r s (trueV v) last
  rw [rWord, sWord]
  exact solves.same d v' r s parity (wallet.inRange solves)

theorem signsValid (solves : Ethers.SolvesAs recovery crypto) {networkId : Nat} {p1Orders : Text}
    {order : SignedOrder} {prepends : Bool}
    {signMessage : Text → List UInt8 → Checked Text} {method : SigningMethod} (spells : AddressText order.maker account)
    (hashed : order.getOrderHash crypto networkId p1Orders = .ok (Ethers.hexlify (Abi.word hash)))
    (answer : signMessage order.maker (Abi.word hash) = .ok (Ethers.hexlify (signatureBytes r s v)))
    (wallet : WalletSignature crypto prepends hash account r s v) (suits : method.Suits prepends)
    (point : method = .Compatibility → crypto.ecrecover hash (BitVec.ofNat 8 (trueV v).toNat) r s ≠ 0) :
    ∃ last, signOrder recovery crypto networkId p1Orders signMessage order method =
        .ok (Ethers.hexlify (signatureBytes r s (trueV v) ++ [last])) ∧
      TypedSignature.ValidBy crypto hash (signatureOf (signatureBytes r s (trueV v) ++ [last])) account := by
  have message := Ethers.arrayifyHexlify (Abi.word hash)
  have hashSig := createsTyped r s wallet.isV SIGNATURE_TYPES.DECIMAL 1 (.inr ⟨rfl,rfl⟩)
  have unsafeHashSig := createsTyped r s wallet.isV SIGNATURE_TYPES.NO_PREPEND 0 (.inl ⟨rfl,rfl⟩)
  cases method with
  | Hash =>
    obtain rfl : prepends = true := suits
    refine ⟨1,?_,wallet.hashValid⟩
    simp only [signOrder, hashed, message, answer, hashSig, Checked.okBind, if_true]
    rfl
  | UnsafeHash =>
    obtain rfl : prepends = false := suits
    refine ⟨0,?_,wallet.unsafeValid⟩
    simp only [signOrder, hashed, message, answer, hashSig, unsafeHashSig, Checked.okBind, reduceCtorEq, if_false,
      if_true]
    rfl
  | Compatibility =>
    let typed := createdTyped r s (trueV v) 0
    obtain ⟨rWord,sWord,vByte,typeByte⟩ := createdParts r s (trueV v) 0
    have known := wallet.isV.known
    have agrees : hashHasValidSignature recovery crypto (Ethers.hexlify (Abi.word hash))
        (Ethers.hexlify (signatureBytes r s (trueV v) ++ [0])) order.maker = .ok true ↔
        TypedSignature.ValidBy crypto hash (signatureOf (signatureBytes r s (trueV v) ++ [0])) account :=
      canonicalAgrees typed spells (by rw [vByte]; exact known) (wallet.solved solves 0)
    have byte : BitVec.ofNat 8 (trueV v).toNat = 27 ∨ BitVec.ofNat 8 (trueV v).toNat = 28 := by
      rcases known with same | same <;> rw [same] <;> decide
    have recovered : recovery hash (BitVec.ofNat 8 (trueV v).toNat)
        (signatureOf (signatureBytes r s (trueV v) ++ [0])).r (signatureOf (signatureBytes r s (trueV v) ++ [0])).s =
        some (crypto.ecrecover hash (BitVec.ofNat 8 (trueV v).toNat) r s) := by
      rw [wallet.solved solves 0 _ _ byte, rWord, sWord]
      exact evmRecovers.mpr ⟨rfl,point rfl⟩
    have returned : ∃ valid, hashHasValidSignature recovery crypto (Ethers.hexlify (Abi.word hash))
        (Ethers.hexlify (signatureBytes r s (trueV v) ++ [0])) order.maker = .ok valid := by
      refine checksTyped typed ?_ ?_ recovered
      · rw [typeByte]
        rfl
      · rw [vByte]
        rcases known with same | same <;>
        · rw [same]
          rfl
    obtain ⟨valid,checked⟩ := returned
    have signed : signOrder recovery crypto networkId p1Orders signMessage order .Compatibility =
        .ok (Ethers.hexlify (signatureBytes r s (trueV v) ++ [if valid then 0 else 1])) := by
      simp only [signOrder, hashed, message, answer, hashSig, unsafeHashSig, checked, Checked.okBind, reduceCtorEq,
        if_false]
      cases valid <;> rfl
    refine ⟨_,signed,?_⟩
    cases valid with
    | true => exact agrees.mp checked
    | false =>
      cases prepends with
      | true => exact wallet.hashValid
      | false =>
        rw [agrees.mpr wallet.unsafeValid] at checked
        cases checked
  | TypedData | MetaMask | MetaMaskLatest | CoinbaseWallet => exact suits.elim

theorem signatureKept (signature : TypedSignature.Signature) {data : List UInt8}
    (same : data = Abi.word signature.r ++ Abi.word signature.s ++ Abi.bytesOf 2 signature.vType.toNat) :
    signatureOf data = signature := by
  have rLong := Abi.wordLength signature.r
  have sLong := Abi.wordLength signature.s
  have both : (Abi.word signature.r ++ Abi.word signature.s).length = 64 := by
    rw [List.length_append, rLong, sLong]
  have last : BitVec.ofNat 16 (Abi.natOf (Abi.bytesOf 2 signature.vType.toNat)) = signature.vType := by
    have width : 256 ^ 2 = 2 ^ 16 := by norm_num
    rw [Abi.natOfBytes, width, Nat.mod_eq_of_lt signature.vType.isLt, BitVec.ofNat_toNat, BitVec.setWidth_eq]
  rw [same, signatureOf, List.drop_left' both, last, List.append_assoc, List.take_left' rLong, List.drop_left' rLong,
    List.take_left' sLong, wordSelf, wordSelf]

def SignedOrder.FitsSigned (order : SignedOrder) (maker taker : Address) : Prop :=
  ∀ typedSignature, HexText.IsHex (stripHexPrefix typedSignature) → (stripHexPrefix typedSignature).length = 132 →
    { order with typedSignature := typedSignature }.Fits maker taker

/-- What the client makes of an order and the wallet's signature passes its own check, and, from the
trade data on, that of P1Orders as long as the order is open. -/
theorem signedOrderAccepted (solves : Ethers.SolvesAs recovery crypto) {chainId : Uint256}
    {perpetualV1 this maker taker : Address} {contract : Text}
    {order : SignedOrder} {amount : Decimal} {price fee : BaseValue} {prepends : Bool}
    {signMessage : Text → List UInt8 → Checked Text} {method : SigningMethod} (spells : AddressText contract this)
    (fits : order.FitsSigned maker taker) (makerCase : LetterCase crypto order.maker)
    (takerCase : LetterCase crypto order.taker) (amountFits : InUint256 (BigNumber.toFixed0 amount.value))
    (priceFits : InUint256 price.number.toSolidity) (feeFits : InUint256 fee.number.toSolidity)
    (hashed : order.getOrderHash crypto chainId.toNat contract = .ok (Ethers.hexlify (Abi.word hash)))
    (answer : signMessage order.maker (Abi.word hash) = .ok (Ethers.hexlify (signatureBytes r s v)))
    (wallet : WalletSignature crypto prepends hash maker r s v) (suits : method.Suits prepends)
    (point : method = .Compatibility → crypto.ecrecover hash (BitVec.ofNat 8 (trueV v).toNat) r s ≠ 0) :
    ∃ signed text bytes data,
      getSignedOrder recovery crypto chainId.toNat contract signMessage order method = .ok signed ∧
      orderHasValidSignature recovery crypto chainId.toNat contract signed = .ok true ∧
      signed.fillToTradeData crypto amount price fee = .ok text ∧ Ethers.arrayify text = .ok bytes ∧
      Orders.decodeTradeData bytes = .ok data ∧ ∀ c : OrdersContract, c.eip712DomainHash =
        (Orders.constructor crypto P1Orders.EIP712_DOMAIN_NAME perpetualV1 chainId this).eip712DomainHash →
        c.status (Orders.getOrderHash crypto c.eip712DomainHash data.order) = .Open →
        Orders.verifyOrderStateAndSignature crypto c data
          (Orders.getOrderHash crypto c.eip712DomainHash data.order) = .ok () := by
  have makerText : AddressText order.maker maker :=
    (fits ('0' :: 'x' :: List.replicate 132 '0') (hexZeros 132) (List.length_replicate ..)).maker
  obtain ⟨last,signs,valid⟩ := signsValid solves makerText hashed answer wallet suits point
  have typed := createdTyped r s (trueV v) last
  have known := wallet.isV.known
  rw [← (createdParts r s (trueV v) last).2.2.1] at known
  have solved := wallet.solved solves last
  generalize Ethers.hexlify (signatureBytes r s (trueV v) ++ [last]) = typedSignature at signs typed
  generalize signatureBytes r s (trueV v) ++ [last] = written at valid typed known solved
  have long : (stripHexPrefix typedSignature).length = 132 := by
    rw [(HexText.bytesValue typed.reads).1, typed.long]
  have fitsNow := fits typedSignature (HexText.bytesHex typed.reads) long
  obtain ⟨solidityOrder,encodes,struct,orderData⟩ := SignedOrder.orderEncoded crypto fitsNow ⟨0,0,0⟩
  obtain ⟨text,data,fills,bytes,same,_,_,_,_,signature⟩ :=
    fillTexts fitsNow amount price fee (orderData makerCase takerCase) amountFits priceFits feeFits
  have kept := signatureKept data.signature (Option.some.inj (typed.reads.symm.trans signature))
  have onChain := orderHashed spells chainId perpetualV1 struct
  have sameHash : Orders.getOrderHash crypto (Orders.constructor crypto P1Orders.EIP712_DOMAIN_NAME perpetualV1 chainId
      this).eip712DomainHash solidityOrder = hash := by
    have texts := congrArg Ethers.arrayify (Except.ok.inj (onChain.symm.trans hashed))
    rw [Ethers.arrayifyHexlify, Ethers.arrayifyHexlify] at texts
    rw [← wordSelf hash, ← Except.ok.inj texts, wordSelf]
  refine ⟨{ order with typedSignature := typedSignature },text,_,data,?_,?_,fills,bytes,TradeData.decodeEncode data,?_⟩
  · rw [getSignedOrder, signs]
    rfl
  · have own : SignedOrder.getOrderHash crypto chainId.toNat contract { order with typedSignature := typedSignature } =
        .ok (Ethers.hexlify (Abi.word hash)) := hashed
    rw [orderHasValidSignature, own]
    exact (canonicalAgrees typed makerText known solved).mpr valid
  · intro c deployed open'
    rw [same, deployed, sameHash] at open' ⊢
    have makers : data.order.maker = maker := by
      rw [same]
      exact (Perpetual.SignedOrder.encoded.mp encodes).maker
    simp only [Orders.verifyOrderStateAndSignature, open', Checked.bindOk, Checked.requireOk]
    refine ⟨maker,?_,makers⟩
    rw [← kept]
    exact valid.1

end

theorem sampleMakerText : AddressText (sampleOrder 'a' 'b').maker sampleMaker :=
  ⟨rfl,by decide +kernel,by decide +kernel⟩

theorem sampleFitsSigned : (sampleOrder 'a' 'b').FitsSigned sampleMaker 0 := by
  intro typedSignature hex long
  have fits := sampleFits sampleMakerText
  exact ⟨fits.whole,fits.salt,fits.amount,fits.limitPrice,fits.triggerPrice,fits.limitFee,fits.expiration,fits.maker,
    fits.taker,hex,long⟩

def precompile : Crypto where
  keccak256 := Crypto.sample.keccak256
  ecrecover _ v r s := if (v = 27 ∨ v = 28) ∧ Ethers.InRange r s then r.setWidth 160 else 0

def sampleWallet : Text → List UInt8 → Checked Text :=
  fun _ _ => .ok (Ethers.hexlify (signatureBytes (sampleMaker.setWidth 256) 1 0))

def unchecked : Ethers.Recovery := fun _ _ r _ =>
  if (r.setWidth 160 : Address) = 0 then none else some (r.setWidth 160)

theorem precompileSolved : Ethers.SolvesAs unchecked precompile where
  same digest v r s parity inRange := by
    have recovers : precompile.ecrecover digest v r s = r.setWidth 160 := if_pos ⟨parity,inRange⟩
    rw [Ethers.evmRecovery, recovers]
    rfl
  checked _ _ _ _ outside := if_neg outside

def sampleTyped : List UInt8 := signatureBytes (sampleMaker.setWidth 256) 1 27 ++ [1]

theorem sampleChecked : TypedSignature.ValidBy precompile 5 (signatureOf sampleTyped) sampleMaker ↔
    hashHasValidSignature unchecked precompile (Ethers.hexlify (Abi.word 5))
      (Ethers.hexlify sampleTyped) (sampleOrder 'a' 'b').maker = .ok true ∧
    (sampleTyped.getD 64 0 = 27 ∨ sampleTyped.getD 64 0 = 28) ∧
    Ethers.InRange (signatureOf sampleTyped).r (signatureOf sampleTyped).s :=
  checkedLikeOnChain precompileSolved (createdTyped _ _ _ _) sampleMakerText

theorem sampleSigned : ∃ signed text bytes data,
    getSignedOrder unchecked precompile (1 : Uint256).toNat NULL_ADDRESS sampleWallet (sampleOrder 'a' 'b')
      .Compatibility = .ok signed ∧
    orderHasValidSignature unchecked precompile (1 : Uint256).toNat NULL_ADDRESS signed = .ok true ∧
    signed.fillToTradeData precompile (.make false 4 0) ⟨.make false 5 0⟩ ⟨.zero true⟩ = .ok text ∧
    Ethers.arrayify text = .ok bytes ∧ Orders.decodeTradeData bytes = .ok data ∧
    ∀ c : OrdersContract, c.eip712DomainHash =
      (Orders.constructor precompile P1Orders.EIP712_DOMAIN_NAME 7 1 0).eip712DomainHash →
      c.status (Orders.getOrderHash precompile c.eip712DomainHash data.order) = .Open →
      Orders.verifyOrderStateAndSignature precompile c data
        (Orders.getOrderHash precompile c.eip712DomainHash data.order) = .ok () := by
  have spells : AddressText NULL_ADDRESS 0 := ⟨rfl,by decide +kernel,by decide +kernel⟩
  obtain ⟨solidityOrder,_,struct,_⟩ := SignedOrder.orderEncoded precompile (sampleFits sampleMakerText) ⟨0,0,0⟩
  have hashed := orderHashed spells 1 7 struct
  have recovers : (sampleMaker.setWidth 256 : Bytes32).setWidth 160 = sampleMaker := by decide +kernel
  have wallet (hash : Bytes32) : WalletSignature precompile true hash sampleMaker (sampleMaker.setWidth 256) 1 0 :=
    ⟨.inl rfl,by decide +kernel,recovers⟩
  refine signedOrderAccepted precompileSolved spells sampleFitsSigned (.inl (by decide +kernel))
    (.inl (by decide +kernel)) (fixed0Fits (by decide +kernel)) (solidityFits (by decide +kernel))
    (solidityFits (by decide +kernel)) hashed rfl (wallet _) trivial fun _ => ?_
  exact (by decide +kernel : (sampleMaker.setWidth 256 : Bytes32).setWidth 160 ≠ (0 : Address))

end Client
end Perpetual
