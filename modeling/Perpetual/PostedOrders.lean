import Perpetual.ClientSignatures

/-! The address normalizer of the server, and the orders that pass through it: what is posted, stored and
sent on stays the order that was signed. -/
namespace Perpetual

namespace Ethers

def isAddress (crypto : Crypto) (text : Text) : Bool := (getAddress crypto text).isOk

end Ethers

namespace Client

def normalized (crypto : Crypto) (value : Text) : Text :=
  if value ≠ [] ∧ Ethers.isAddress crypto value = true then value.map Char.toLower else value

def objectETHAddressNormalizer (crypto : Crypto) (obj : OrderJson) : OrderJson where
  isBuy := obj.isBuy
  isDecreaseOnly := obj.isDecreaseOnly
  amount := normalized crypto obj.amount
  limitPrice := normalized crypto obj.limitPrice
  triggerPrice := normalized crypto obj.triggerPrice
  limitFee := normalized crypto obj.limitFee
  maker := normalized crypto obj.maker
  taker := obj.taker.map (normalized crypto)
  expiration := normalized crypto obj.expiration
  typedSignature := normalized crypto obj.typedSignature
  salt := normalized crypto obj.salt

inductive Hop where
  | posted
  | carried (pass : Pass)

def Hop.rebuild (crypto : Crypto) : Hop → SignedOrder → Option SignedOrder
  | .posted,order => unmarshallOrder (objectETHAddressNormalizer crypto (jsonifyPerpetualOrder order))
  | .carried pass,order => pass.rebuild order

def delivered (crypto : Crypto) (hops : List Hop) (order : SignedOrder) : Option SignedOrder :=
  hops.foldlM (fun order hop => hop.rebuild crypto order) order

/-! Texts that the normalizer leaves as they are. -/

theorem digitLower {c : Char} (digit : c.isDigit = true) : c.toLower = c := by
  have small : c.val ≤ '9'.val := by
    simp only [Char.isDigit, Bool.and_eq_true, decide_eq_true_eq] at digit
    exact digit.2
  have below : ¬ 'A'.val ≤ '9'.val := by decide
  exact dif_neg fun upper => below (UInt32.le_trans upper.1 small)

def Lowered (text : Text) : Prop := ∀ c ∈ text, c.toLower = c

theorem Lowered.map {text : Text} (h : Lowered text) : text.map Char.toLower = text :=
  (List.map_congr_left h).trans (List.map_id' text)

theorem Lowered.append {first last : Text} (h : Lowered first) (h' : Lowered last) : Lowered (first ++ last) :=
  fun c mem => (List.mem_append.mp mem).elim (h c) (h' c)

theorem Lowered.normalized {text : Text} (h : Lowered text) (crypto : Crypto) : normalized crypto text = text := by
  rw [Client.normalized]
  split
  · exact h.map
  · rfl

theorem digitsLowered (n : Nat) : Lowered (Nat.toDigits 10 n) := fun c mem =>
  digitLower (Decimal.decimalDigits n c mem)

theorem signedLowered {text : Text} (h : Lowered text) (negative : Bool) : Lowered (Decimal.signed negative text) := by
  unfold Decimal.signed
  split
  · exact List.forall_mem_cons.mpr ⟨rfl,h⟩
  · exact h

theorem fixedLowered (x : Decimal) : Lowered x.toFixed0 := signedLowered (digitsLowered _) _

theorem textLowered (x : Decimal) : Lowered x.toText := by
  have digits := x.partsDigits
  refine signedLowered (Lowered.append (Lowered.append ?_ ?_) ?_) _
  · exact fun c mem => digitLower (digits.whole c mem)
  · split
    · exact List.forall_mem_nil _
    · exact List.forall_mem_cons.mpr ⟨rfl,fun c mem => digitLower (digits.fraction c mem)⟩
  · cases x.parts.exponent with
    | none => exact List.forall_mem_nil _
    | some e =>
      refine List.forall_mem_cons.mpr ⟨rfl,List.forall_mem_cons.mpr ⟨?_,digitsLowered _⟩⟩
      split <;> rfl

theorem longNotIcap {text : Text} (long : 36 ≤ text.length) : Ethers.isIcap text = false := by
  have sizes : ((text.drop 4).length == 30 || (text.drop 4).length == 31) = false := by
    rw [List.length_drop, Bool.or_eq_false_iff, beq_eq_false_iff_ne, beq_eq_false_iff_ne]
    omega
  simp only [Ethers.isIcap, sizes, Bool.and_false, Bool.false_and]

theorem longKept {text : Text} (long : (stripHexPrefix text).length = 132) (crypto : Crypto) :
    normalized crypto text = text := by
  have longer : (stripHexPrefix text).length ≤ text.length := by
    unfold stripHexPrefix
    split
    · exact (Nat.le_succ _).trans (Nat.le_succ _)
    · exact le_rfl
  have noIcap : Ethers.isIcap text = false := longNotIcap (by omega)
  rw [normalized, if_neg]
  rintro ⟨_,address⟩
  obtain ⟨a,read⟩ := Checked.okExists address
  rcases Ethers.hexOrIcap read with hex | icap
  · omega
  · exact Bool.false_ne_true (noIcap.symm.trans icap)

/-! An address is the same in lower case. -/

theorem lowerOnce (c : Char) : c.toLower.toLower = c.toLower := by
  by_cases upper : c.val ≥ 'A'.val ∧ c.val ≤ 'Z'.val
  · have small : 'A'.toNat ≤ c.toNat ∧ c.toNat ≤ 'Z'.toNat := upper
    have all : ∀ n < 91, (Char.ofNat n).toLower.toLower = (Char.ofNat n).toLower := by decide
    have found := all c.toNat (Nat.lt_succ_of_le small.2)
    rwa [Char.ofNat_toNat] at found
  · have same : c.toLower = c := dif_neg upper
    rw [same, same]

theorem lowerTwice (text : Text) : (text.map Char.toLower).map Char.toLower = text.map Char.toLower := by
  rw [List.map_map]
  exact List.map_congr_left fun c _ => lowerOnce c

structure Respelling (crypto : Crypto) (text other : Text) : Prop where
  packed : Ethers.packBytes32 (addressToBytes32 other) = Ethers.packBytes32 (addressToBytes32 text)
  encoded : Ethers.encodeAddress crypto other = Ethers.encodeAddress crypto text
  equal : ∀ signer, addressesAreEqual signer other = addressesAreEqual signer text

theorem Respelling.self (crypto : Crypto) (text : Text) : Respelling crypto text text :=
  ⟨rfl,rfl,fun _ => rfl⟩

theorem lowerEqual {text : Text} (strip : stripHexPrefix (text.map Char.toLower) =
    (stripHexPrefix text).map Char.toLower) (signer : Text) :
    addressesAreEqual signer (text.map Char.toLower) = addressesAreEqual signer text := by
  rw [addressesAreEqual, addressesAreEqual, strip, lowerTwice, List.length_map]

theorem lowerStrip {text : Text} (hex : HexText.IsHex (stripHexPrefix text)) :
    stripHexPrefix (text.map Char.toLower) = (stripHexPrefix text).map Char.toLower := by
  have cases' : (∃ rest, text = '0' :: 'x' :: rest) ∨ stripHexPrefix text = text := by
    unfold stripHexPrefix
    split
    · exact .inl ⟨_,rfl⟩
    · exact .inr rfl
  rcases cases' with ⟨rest,rfl⟩ | whole
  · rfl
  · rw [whole] at hex ⊢
    exact stripHex (HexText.hexToLower hex)

theorem hexRespelled {crypto : Crypto} {text : Text} {a : Address} (read : Ethers.getAddress crypto text = .ok a)
    (long : (stripHexPrefix text).length = 40) (hex : HexText.IsHex (stripHexPrefix text)) :
    Respelling crypto text (text.map Char.toLower) := by
  obtain ⟨letters,rfl⟩ := (Ethers.hexAddress long hex).mp read
  have small := HexText.valueLt (stripHexPrefix text)
  rw [long] at small
  have strip := lowerStrip hex
  have value : HexText.value (stripHexPrefix text) =
      (BitVec.ofNat 160 (HexText.value (stripHexPrefix text))).toNat := by
    rw [BitVec.toNat_ofNat, Nat.mod_eq_of_lt (small.trans_le (by norm_num))]
  have spells : AddressText text (BitVec.ofNat 160 (HexText.value (stripHexPrefix text))) := ⟨long,hex,value⟩
  have lower : AddressText (text.map Char.toLower) (BitVec.ofNat 160 (HexText.value (stripHexPrefix text))) := by
    refine ⟨?_,?_,?_⟩ <;> rw [strip]
    · rw [List.length_map, long]
    · exact HexText.hexToLower hex
    · rw [HexText.valueToLower hex, ← value]
  have noUpper : ∀ c : Char, (HexText.digit c).isSome → Ethers.isUpper c.toLower = false := fun c hexC =>
    HexText.digitCases (fun c => Ethers.isUpper c.toLower = false) (by decide) hexC
  have lowerCase : LetterCase crypto (text.map Char.toLower) := by
    refine .inl ?_
    rw [Ethers.mixedCase, strip, Bool.and_eq_false_iff]
    refine .inl (List.any_eq_false.mpr fun d mem => ?_)
    obtain ⟨c,inside,rfl⟩ := List.mem_map.mp mem
    rw [noUpper c (hex c inside)]
    exact Bool.false_ne_true
  exact ⟨by rw [addressPacked spells, addressPacked lower],
    by rw [addressEncoded spells letters, addressEncoded lower lowerCase],lowerEqual strip⟩

theorem lowerNotX (c : Char) : c.toLower ≠ 'X' := by
  intro same
  have fixed : c.toLower.toLower = 'x' := by rw [same]; rfl
  rw [lowerOnce, same] at fixed
  cases fixed

theorem lowerNotIcap (text : Text) : Ethers.isIcap (text.map Char.toLower) = false := by
  have unmarked : ((text.map Char.toLower).take 2 == ['X','E']) = false := by
    rw [beq_eq_false_iff_ne]
    intro marked
    cases text with
    | nil => cases marked
    | cons c rest => exact lowerNotX c (List.cons.inj marked).1
  simp only [Ethers.isIcap, unmarked, Bool.false_and]

theorem normalizedNotIcap {text : Text} (plain : Ethers.isIcap text = false) (crypto : Crypto) :
    Ethers.isIcap (normalized crypto text) = false := by
  rw [normalized]
  split
  · exact lowerNotIcap text
  · exact plain

/-- The normalizer makes of an address in the other format a text that is none. -/
theorem icapLost {crypto : Crypto} {text : Text} {a : Address} (icap : Ethers.isIcap text = true)
    (read : Ethers.getAddress crypto text = .ok a) :
    normalized crypto text = text.map Char.toLower ∧
      Ethers.getAddress crypto (normalized crypto text) = .error "invalid address" := by
  have marked := icap
  simp only [Ethers.isIcap, Bool.and_eq_true, beq_iff_eq] at marked
  obtain ⟨⟨⟨marked,_⟩,_⟩,_⟩ := marked
  obtain ⟨rest,rfl⟩ : ∃ rest, text = 'X' :: 'E' :: rest :=
    ⟨text.drop 2,(List.take_append_drop 2 text).symm.trans (by rw [marked]; rfl)⟩
  have lower : normalized crypto ('X' :: 'E' :: rest) = ('X' :: 'E' :: rest).map Char.toLower := by
    rw [normalized, if_pos]
    exact ⟨List.cons_ne_nil _ _,by rw [Ethers.isAddress, read]; rfl⟩
  have notHex : ¬HexText.IsHex (stripHexPrefix (('X' :: 'E' :: rest).map Char.toLower)) :=
    fun hex => absurd (hex 'x' List.mem_cons_self) (by decide)
  refine ⟨lower,?_⟩
  rw [lower, Ethers.getAddress]
  simp only [notHex, and_false, if_false, lowerNotIcap, Bool.false_eq_true]

theorem normalizedRespells (crypto : Crypto) {text : Text} (plain : Ethers.isIcap text = false) :
    Respelling crypto text (normalized crypto text) := by
  rw [normalized]
  split
  · rename_i address
    obtain ⟨a,read⟩ := Checked.okExists address.2
    rcases Ethers.hexOrIcap read with ⟨long,hex⟩ | icap
    · exact hexRespelled read long hex
    · exact absurd (plain.symm.trans icap) Bool.false_ne_true
  · exact .self crypto text

structure SameOrder (crypto : Crypto) (order read : SignedOrder) : Prop where
  hash : ∀ networkId p1Orders,
    read.getOrderHash crypto networkId p1Orders = order.getOrderHash crypto networkId p1Orders
  valid : ∀ recovery networkId p1Orders, orderHasValidSignature recovery crypto networkId p1Orders read =
    orderHasValidSignature recovery crypto networkId p1Orders order
  data : ∀ amount price fee,
    read.fillToTradeData crypto amount price fee = order.fillToTradeData crypto amount price fee

namespace SameOrder
variable {crypto : Crypto} {order read last : SignedOrder}

theorem self (crypto : Crypto) (order : SignedOrder) : SameOrder crypto order order :=
  ⟨fun _ _ => rfl,fun _ _ _ => rfl,fun _ _ _ => rfl⟩

theorem trans (first : SameOrder crypto order read) (second : SameOrder crypto read last) :
    SameOrder crypto order last where
  hash := fun networkId p1Orders => (second.hash networkId p1Orders).trans (first.hash networkId p1Orders)
  valid := fun recovery networkId p1Orders =>
    (second.valid recovery networkId p1Orders).trans (first.valid recovery networkId p1Orders)
  data := fun amount price fee => (second.data amount price fee).trans (first.data amount price fee)

theorem ofParts (struct : read.getStructHash crypto = order.getStructHash crypto)
    (bytes : read.orderToBytes crypto = order.orderToBytes crypto)
    (maker : ∀ signer, addressesAreEqual signer read.maker = addressesAreEqual signer order.maker)
    (signature : read.typedSignature = order.typedSignature) : SameOrder crypto order read where
  hash := fun _ _ => by rw [SignedOrder.getOrderHash, SignedOrder.getOrderHash, struct]
  valid := fun recovery networkId p1Orders => by
    have checked (hash : Text) : hashHasValidSignature recovery crypto hash order.typedSignature read.maker =
        hashHasValidSignature recovery crypto hash order.typedSignature order.maker := by
      rw [hashHasValidSignature, hashHasValidSignature]
      simp only [maker]
    rw [orderHasValidSignature, orderHasValidSignature, SignedOrder.getOrderHash, SignedOrder.getOrderHash, struct,
      signature]
    simp only [checked]
  data := fun _ _ _ => by rw [SignedOrder.fillToTradeData, SignedOrder.fillToTradeData, bytes, signature]

theorem reread (whole : order.salt.isInteger = true) (fee : order.reread.limitFee = order.limitFee) :
    SameOrder crypto order order.reread := by
  have same := (SameNumbers.reread whole).kept whole (congrArg BaseValue.isNegative fee)
  refine ⟨same.hash crypto,fun recovery networkId p1Orders => ?_,same.data crypto⟩
  rw [orderHasValidSignature, orderHasValidSignature, same.hash]
  rfl

theorem respelled {maker taker : Text} (whole : order.salt.isInteger = true)
    (makers : Respelling crypto order.maker maker) (takers : Respelling crypto order.taker taker) :
    SameOrder crypto order { order with maker := maker, taker := taker } := by
  have packed : SignedOrder.packedRest { order with maker := maker, taker := taker } = order.packedRest := by
    rw [SignedOrder.packedRest, SignedOrder.packedRest]
    simp only [makers.packed, takers.packed]
  have encoded : SignedOrder.encodedRest crypto { order with maker := maker, taker := taker } =
      order.encodedRest crypto := by
    rw [SignedOrder.encodedRest, SignedOrder.encodedRest]
    simp only [makers.encoded, takers.encoded]
  have wholeRead : (SignedOrder.salt { order with maker := maker, taker := taker }).isInteger = true := whole
  refine ofParts ?_ ?_ makers.equal rfl
  · rw [SignedOrder.structSplit crypto wholeRead, SignedOrder.structSplit crypto whole, packed]
    rfl
  · rw [SignedOrder.bytesSplit crypto wholeRead, SignedOrder.bytesSplit crypto whole, encoded]
    rfl

end SameOrder

theorem postedRead (crypto : Crypto) {order : SignedOrder}
    (long : (stripHexPrefix order.typedSignature).length = 132) :
    unmarshallOrder (objectETHAddressNormalizer crypto (jsonifyPerpetualOrder order)) = some { order.reread with
      maker := normalized crypto order.maker
      taker := normalized crypto order.taker } := by
  simp only [unmarshallOrder, objectETHAddressNormalizer, jsonifyPerpetualOrder, (fixedLowered _).normalized,
    (textLowered _).normalized, longKept long, readsFixed, readsText, Option.bind_eq_bind, Option.bind_some,
    Option.pure_def, Option.map_some]
  rfl

structure Deliverable (order : SignedOrder) : Prop where
  whole : order.salt.isInteger = true
  fee : order.limitFee.value ≠ .zero true
  long : (stripHexPrefix order.typedSignature).length = 132
  maker : Ethers.isIcap order.maker = false
  taker : Ethers.isIcap order.taker = false

theorem Deliverable.reread {order : SignedOrder} (h : Deliverable order) :
    order.reread.limitFee = order.limitFee ∧ Deliverable order.reread := by
  have fee : order.reread.limitFee = order.limitFee := congrArg BaseValue.mk (Decimal.plainZeroSelf.mpr h.fee)
  exact ⟨fee,(SameNumbers.reread h.whole).whole.trans h.whole,by rw [fee]; exact h.fee,h.long,h.maker,h.taker⟩

theorem hopRead (crypto : Crypto) (hop : Hop) {order : SignedOrder} (h : Deliverable order) :
    ∃ read, hop.rebuild crypto order = some read ∧ Deliverable read ∧ SameOrder crypto order read := by
  obtain ⟨fee,later⟩ := h.reread
  have same : SameOrder crypto order order.reread := .reread h.whole fee
  cases hop with
  | posted =>
    exact ⟨_,postedRead crypto h.long,⟨later.whole,later.fee,later.long,normalizedNotIcap h.maker crypto,
      normalizedNotIcap h.taker crypto⟩,same.trans
        (.respelled later.whole (normalizedRespells crypto h.maker) (normalizedRespells crypto h.taker))⟩
  | carried pass => exact ⟨_,passRead pass order,later,same⟩

/-- However often it is posted, stored and sent on, an order stays the order that was signed. -/
theorem deliveredUnchanged (crypto : Crypto) (hops : List Hop) {order : SignedOrder} (h : Deliverable order) :
    ∃ read, delivered crypto hops order = some read ∧ SameOrder crypto order read := by
  induction hops generalizing order with
  | nil => exact ⟨order,rfl,.self crypto order⟩
  | cons hop rest ih =>
    obtain ⟨next,rebuilt,kept,first⟩ := hopRead crypto hop h
    obtain ⟨read,reads,later⟩ := ih kept
    refine ⟨read,?_,first.trans later⟩
    rw [delivered, List.foldlM_cons, rebuilt]
    exact reads

theorem sampleDelivered : ∃ read, delivered .sample
    [.posted,.carried (.database ⟨['0','x'],.make false 4 0,none,.Approved⟩),.carried .json] (sampleOrder 'A' 'B') =
      some read ∧ SameOrder .sample (sampleOrder 'A' 'B') read :=
  deliveredUnchanged .sample _
    ⟨by decide +kernel,by decide +kernel,List.length_replicate,by decide +kernel,by decide +kernel⟩

end Client
end Perpetual
