import Mathlib.Tactic.Ring
import Perpetual.OrderRuns

/-! The bytes of `TradeData`: P1Orders decodes what the client encodes. -/
namespace Perpetual
namespace Abi

theorem natOfOnto (rest : List UInt8) (n v start : Nat) :
    (bytesOnto rest n v).foldl (fun n b => n * 256 + b.toNat) start =
      rest.foldl (fun n b => n * 256 + b.toNat) (start * 256 ^ n + v % 256 ^ n) := by
  induction n generalizing rest v with
  | zero => simp [bytesOnto, Nat.mod_one]
  | succ n ih =>
    have byte : (UInt8.ofNat v).toNat = v % 256 := UInt8.toNat_ofNat'
    have sum : (start * 256 ^ n + v / 256 % 256 ^ n) * 256 + v % 256 =
        start * 256 ^ (n + 1) + v % 256 ^ (n + 1) := by
      rw [Nat.pow_succ', Nat.mod_mul]
      ring
    rw [bytesOnto, ih, List.foldl_cons, byte, sum]

theorem natOfBytes (n v : Nat) : natOf (bytesOf n v) = v % 256 ^ n := by
  rw [natOf, bytesOf, natOfOnto, Nat.zero_mul, Nat.zero_add, List.foldl_nil]

theorem bytesOntoLength (rest : List UInt8) (n v : Nat) : (bytesOnto rest n v).length = n + rest.length := by
  induction n generalizing rest v with
  | zero => rw [bytesOnto, Nat.zero_add]
  | succ n ih =>
    rw [bytesOnto, ih, List.length_cons]
    omega

theorem wordLength (x : Uint256) : (word x).length = 32 := bytesOntoLength [] 32 x.toNat

theorem addressWordEq (a : Address) : addressWord a = word (a.setWidth 256) := by
  rw [addressWord, word, BitVec.toNat_setWidth, Nat.mod_eq_of_lt (a.isLt.trans (by decide))]

theorem wordAtHead (x : Uint256) (rest : List UInt8) : wordAt (word x ++ rest) 0 = x := by
  have head : (word x ++ rest).take 32 = word x := List.take_left' (wordLength x)
  rw [wordAt, Nat.mul_zero, List.drop_zero, head, word, natOfBytes]
  refine BitVec.eq_of_toNat_eq ?_
  have width : 256 ^ 32 = 2 ^ 256 := by norm_num
  rw [BitVec.toNat_ofNat, width, Nat.mod_mod, Nat.mod_eq_of_lt x.isLt]

theorem wordAtTail (x : Uint256) (rest : List UInt8) (i : Nat) :
    wordAt (word x ++ rest) (i + 1) = wordAt rest i := by
  have tail : (word x ++ rest).drop (32 * (i + 1)) = rest.drop (32 * i) := by
    have width := wordLength x
    rw [show 32 * (i + 1) = (word x).length + 32 * i by rw [width]; ring, List.drop_length_add_append]
  rw [wordAt, tail, wordAt]

theorem wordAtWords {words : List Uint256} {i : Nat} {x : Uint256} (at' : words[i]? = some x) :
    wordAt (words.flatMap word) i = x := by
  induction words generalizing i with
  | nil => cases at'
  | cons first rest ih =>
    rw [List.flatMap_cons]
    cases i with
    | zero => rw [wordAtHead, ← Option.some.inj at']
    | succ i => rw [wordAtTail, ih at']

theorem wordsLength (words : List Uint256) : (words.flatMap word).length = 32 * words.length := by
  induction words with
  | nil => rfl
  | cons first rest ih =>
    rw [List.flatMap_cons, List.length_append, ih, wordLength, List.length_cons]
    ring

end Abi

namespace TradeData

def words (data : TradeData) : List Uint256 :=
  [data.order.flags,data.order.amount,data.order.limitPrice,data.order.triggerPrice,data.order.limitFee,
    data.order.maker.setWidth 256,data.order.taker.setWidth 256,data.order.expiration,data.fill.amount,
    data.fill.price,data.fill.fee,if data.fill.isNegativeFee then 1 else 0,data.signature.r,
    data.signature.s,data.signature.vType.setWidth 256 <<< 240]

theorem encodeWords (data : TradeData) : encodeTradeData data = data.words.flatMap Abi.word := by
  simp only [encodeTradeData, Orders.encodeOrder, words, Abi.addressWordEq, List.flatMap_cons,
    List.flatMap_nil, List.append_nil, List.append_assoc]

theorem addressDecoded {data : List UInt8} {i : Nat} {a : Address}
    (at' : Abi.wordAt data i = a.setWidth 256) : Abi.addressAt data i = .ok a := by
  have low : (a.setWidth 256).toNat = a.toNat := by
    rw [BitVec.toNat_setWidth, Nat.mod_eq_of_lt (a.isLt.trans (by decide))]
  simp only [Abi.addressAt, at', Checked.bindOk, Checked.requireOk, exists_const, Checked.pureOk, low]
  refine ⟨a.isLt,?_⟩
  rw [BitVec.setWidth_setWidth_of_le a (by decide), BitVec.setWidth_eq]

theorem boolDecoded {data : List UInt8} {i : Nat} {b : Bool}
    (at' : Abi.wordAt data i = if b then 1 else 0) : Abi.boolAt data i = .ok b := by
  simp only [Abi.boolAt, at']
  cases b <;> rfl

theorem bytes2Decoded {data : List UInt8} {i : Nat} {v : BitVec 16}
    (at' : Abi.wordAt data i = v.setWidth 256 <<< 240) : Abi.bytes2At data i = .ok v := by
  simp only [Abi.bytes2At, at', Checked.bindOk, Checked.requireOk, exists_const, Checked.pureOk]
  constructor
  · ext j low
    simp
  · ext j low
    have inside : 240 + j < 256 ∧ j < 256 := by omega
    simp [inside.1, inside.2, BitVec.getLsbD_eq_getElem low]

theorem decodeEncode (data : TradeData) : Orders.decodeTradeData (encodeTradeData data) = .ok data := by
  have long : 32 * 15 ≤ (encodeTradeData data).length := by
    rw [encodeWords, Abi.wordsLength]
    rfl
  have at' {i : Nat} {x : Uint256} (here : data.words[i]? = some x) :
      Abi.wordAt (encodeTradeData data) i = x := by
    rw [encodeWords]
    exact Abi.wordAtWords here
  simp only [Orders.decodeTradeData, Checked.bindOk, Checked.requireOk, exists_const, Checked.pureOk]
  refine ⟨long,_,addressDecoded (at' rfl),_,addressDecoded (at' rfl),_,boolDecoded (at' rfl),_,
    bytes2Decoded (at' rfl),?_⟩
  rw [at' (i := 0) rfl, at' (i := 1) rfl, at' (i := 2) rfl, at' (i := 3) rfl, at' (i := 4) rfl,
    at' (i := 7) rfl, at' (i := 8) rfl, at' (i := 9) rfl, at' (i := 10) rfl, at' (i := 12) rfl,
    at' (i := 13) rfl]

end TradeData
end Perpetual
