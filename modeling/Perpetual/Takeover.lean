import Perpetual.Liquidation
import Perpetual.FinalBalances

/-! What a liquidation or a deleveraging does to the maker. Both traders hand over the same
part of its margin as of its position, rounded in favour of the maker. -/
namespace Perpetual
open Checked (FailsOnly)

namespace Balance

theorem positiveOfInts (b : Balance) (price : Nat) :
    b.positiveValue price = b.marginInt.toNat * 10 ^ 18 + b.positionInt.toNat * price := by
  obtain ⟨mp,pp,m,p⟩ := b
  cases mp <;> cases pp <;> simp [positiveValue, marginInt, positionInt]

theorem negativeOfInts (b : Balance) (price : Nat) :
    b.negativeValue price = (-b.marginInt).toNat * 10 ^ 18 + (-b.positionInt).toNat * price := by
  obtain ⟨mp,pp,m,p⟩ := b
  cases mp <;> cases pp <;> simp [negativeValue, marginInt, positionInt]

theorem oppositeValues {b : Balance} {s : Bool} {m p : Nat} (margin : b.marginInt = -signed s m)
    (position : b.positionInt = signed s p) (price : Nat) :
    b.positiveValue price = (if s then p * price else m * 10 ^ 18) ∧
    b.negativeValue price = (if s then m * 10 ^ 18 else p * price) := by
  rw [positiveOfInts, negativeOfInts, margin, position]
  cases s <;> simp

end Balance

structure Shrunk (b b' : Balance) (amount : Nat) : Prop where
  size : b'.position.toNat + amount = b.position.toNat
  sign : b'.positionInt = signed b.positionIsPositive b'.position.toNat

theorem shrunk {b b' : Balance} {amount : Nat} (bounded : amount ≤ b.position.toNat)
    (moved : b'.positionInt = b.positionInt - signed b.positionIsPositive amount) :
    Shrunk b b' amount := by
  have rest : b'.positionInt = signed b.positionIsPositive (b.position.toNat - amount) := by
    rw [moved, Balance.positionInt]
    cases b.positionIsPositive <;> simp only [Signed.positive, Signed.negative] <;> omega
  have size : b'.position.toNat = b.position.toNat - amount := by
    have abs := congrArg Int.natAbs rest
    rwa [Balance.positionInt, Signed.natAbs, Signed.natAbs] at abs
  exact ⟨by omega,by rw [rest, size]⟩

theorem Shrunk.flag {b b' : Balance} {amount : Nat} (h : Shrunk b b' amount)
    (left : 0 < b'.position.toNat) : b'.positionIsPositive = b.positionIsPositive := by
  have sign := h.sign
  rw [Balance.positionInt] at sign
  cases new : b'.positionIsPositive <;> cases old : b.positionIsPositive <;>
    simp only [new, old, Signed.positive, Signed.negative] at sign ⊢ <;> omega

structure Takeover (maker : Balance) (price : Nat) (result : TradeResult) : Prop where
  side : result.isBuy = maker.positionIsPositive
  owed : maker.negativeValue price ≠ 0
  margin : maker.marginIsPositive = true ∨ maker.margin = 0 ∨ maker.positionIsPositive = true ∨
    maker.position = 0
  bounded : result.positionAmount.toNat ≤ maker.position.toNat
  share : (if result.isBuy then Math.getFractionRoundUp else Math.getFraction) (widen maker.margin)
    result.positionAmount (widen maker.position) = .ok result.marginAmount

theorem smallerLong {share kept left amount : Nat} (up : (share + kept) * amount ≤ share * (left + amount))
    (price : Nat) :
    (left + amount) * price * (kept * 10 ^ 18) ≤ left * price * ((share + kept) * 10 ^ 18) := by
  rw [Nat.add_mul, Nat.mul_add] at up
  have fair : kept * amount ≤ share * left := by omega
  calc (left + amount) * price * (kept * 10 ^ 18)
      = price * 10 ^ 18 * (left * kept + kept * amount) := by ring
    _ ≤ price * 10 ^ 18 * (left * kept + share * left) :=
        Nat.mul_le_mul_left _ (Nat.add_le_add_left fair _)
    _ = left * price * ((share + kept) * 10 ^ 18) := by ring

theorem smallerShort {share kept left amount : Nat}
    (down : share * (left + amount) ≤ (share + kept) * amount) (price : Nat) :
    (share + kept) * 10 ^ 18 * (left * price) ≤ kept * 10 ^ 18 * ((left + amount) * price) := by
  rw [Nat.add_mul, Nat.mul_add] at down
  have fair : share * left ≤ kept * amount := by omega
  calc (share + kept) * 10 ^ 18 * (left * price)
      = price * 10 ^ 18 * (share * left + kept * left) := by ring
    _ ≤ price * 10 ^ 18 * (kept * amount + kept * left) :=
        Nat.mul_le_mul_left _ (Nat.add_le_add_right fair _)
    _ = kept * 10 ^ 18 * ((left + amount) * price) := by ring

namespace Takeover
variable {maker : Balance} {price : Nat} {result : TradeResult}

theorem rounded (h : Takeover maker price result) : 0 < maker.position.toNat ∧
    (result.isBuy = true → maker.margin.toNat * result.positionAmount.toNat ≤
      result.marginAmount.toNat * maker.position.toNat) ∧
    (result.isBuy = false → result.marginAmount.toNat * maker.position.toNat ≤
      maker.margin.toNat * result.positionAmount.toNat) ∧
    result.marginAmount.toNat * maker.position.toNat <
      maker.margin.toNat * result.positionAmount.toNat + maker.position.toNat ∧
    maker.margin.toNat * result.positionAmount.toNat <
      result.marginAmount.toNat * maker.position.toNat + maker.position.toNat := by
  have share := h.share
  cases buy : result.isBuy with
  | true =>
    rw [buy, if_pos rfl] at share
    obtain ⟨some,above,near⟩ := Math.getFractionRoundUpBounds share
    simp only [widenNat120] at some above near
    exact ⟨some,fun _ => above,fun no => by (cases no),near,by omega⟩
  | false =>
    rw [buy, if_neg Bool.false_ne_true] at share
    obtain ⟨some,below,near⟩ := Math.getFractionBounds share
    simp only [widenNat120] at some below near
    exact ⟨some,fun no => by (cases no),fun _ => below,by omega,near⟩

theorem within (h : Takeover maker price result) :
    result.marginAmount.toNat ≤ maker.margin.toNat := by
  obtain ⟨some,_,_,near,_⟩ := h.rounded
  have whole : maker.margin.toNat * result.positionAmount.toNat ≤
      maker.margin.toNat * maker.position.toNat := Nat.mul_le_mul_left _ h.bounded
  have less : result.marginAmount.toNat * maker.position.toNat <
      (maker.margin.toNat + 1) * maker.position.toNat := by
    rw [Nat.add_mul, Nat.one_mul]
    omega
  exact Nat.le_of_lt_succ (Nat.lt_of_mul_lt_mul_right less)

theorem whole (h : Takeover maker price result)
    (full : result.positionAmount.toNat = maker.position.toNat) :
    result.marginAmount.toNat = maker.margin.toNat := by
  obtain ⟨some,_,_,_,near⟩ := h.rounded
  have less : maker.margin.toNat * maker.position.toNat <
      (result.marginAmount.toNat + 1) * maker.position.toNat := by
    rw [Nat.add_mul, Nat.one_mul]
    rwa [full] at near
  exact Nat.le_antisymm h.within (Nat.le_of_lt_succ (Nat.lt_of_mul_lt_mul_right less))

theorem makerMargin (h : Takeover maker price result) :
    maker.marginInt = -signed maker.positionIsPositive maker.margin.toNat := by
  obtain ⟨some,_⟩ := h.rounded
  have owed := h.owed
  have margin := h.margin
  obtain ⟨mp,pp,m,p⟩ := maker
  cases pp with
  | true =>
    cases mp with
    | true => simp [Balance.negativeValue] at owed
    | false => rfl
  | false =>
    cases mp with
    | true => simp [Balance.marginInt]
    | false =>
      have nothing : m = 0 := by
        rcases margin with no | zero | no | zero
        · cases no
        · exact zero
        · cases no
        · rw [zero] at some; cases some
      simp [Balance.marginInt, nothing]

variable {taker maker' taker' : Balance}

theorem leftMargin (h : Takeover maker price result) (moved : Trade.Applied result maker taker maker' taker') :
    maker'.marginInt =
      -signed maker.positionIsPositive (maker.margin.toNat - result.marginAmount.toNat) := by
  have within := h.within
  rw [moved.makerMargin, h.makerMargin, h.side]
  cases maker.positionIsPositive <;> simp only [Signed.positive, Signed.negative] <;> omega

theorem leftPosition (h : Takeover maker price result)
    (moved : Trade.Applied result maker taker maker' taker') :
    Shrunk maker maker' result.positionAmount.toNat := by
  have position := moved.makerPosition
  rw [h.side] at position
  exact shrunk h.bounded position

theorem values (h : Takeover maker price result) (moved : Trade.Applied result maker taker maker' taker') :
    (maker.positiveValue price = (if maker.positionIsPositive then maker.position.toNat * price
      else maker.margin.toNat * 10 ^ 18) ∧
    maker.negativeValue price = (if maker.positionIsPositive then maker.margin.toNat * 10 ^ 18
      else maker.position.toNat * price)) ∧
    (maker'.positiveValue price = (if maker.positionIsPositive then maker'.position.toNat * price
      else (maker.margin.toNat - result.marginAmount.toNat) * 10 ^ 18) ∧
    maker'.negativeValue price = (if maker.positionIsPositive
      then (maker.margin.toNat - result.marginAmount.toNat) * 10 ^ 18
      else maker'.position.toNat * price)) :=
  ⟨Balance.oppositeValues h.makerMargin rfl price,
    Balance.oppositeValues (h.leftMargin moved) (h.leftPosition moved).sign price⟩

theorem ratio (h : Takeover maker price result) (moved : Trade.Applied result maker taker maker' taker') :
    maker.positiveValue price * maker'.negativeValue price ≤
      maker'.positiveValue price * maker.negativeValue price := by
  obtain ⟨⟨pos,neg⟩,pos',neg'⟩ := h.values moved
  obtain ⟨_,up,down,_⟩ := h.rounded
  obtain ⟨kept,margin⟩ := Nat.exists_eq_add_of_le h.within
  rw [pos, neg, pos', neg']
  rw [margin, ← (h.leftPosition moved).size] at up down ⊢
  rw [Nat.add_sub_cancel_left]
  cases side : maker.positionIsPositive with
  | true => exact smallerLong (up (h.side.trans side)) price
  | false => exact smallerShort (down (h.side.trans side)) price

end Takeover

structure Relieved (maker maker' : Balance) (price amount : Nat) : Prop where
  ratio : maker.positiveValue price * maker'.negativeValue price ≤
    maker'.positiveValue price * maker.negativeValue price
  position : Shrunk maker maker' amount
  whole : amount = maker.position.toNat → maker'.margin = 0 ∧ maker'.position = 0

theorem Takeover.relieved {maker taker maker' taker' : Balance} {price : Nat} {result : TradeResult}
    (h : Takeover maker price result) (moved : Trade.Applied result maker taker maker' taker') :
    Relieved maker maker' price result.positionAmount.toNat := by
  refine ⟨h.ratio moved,h.leftPosition moved,fun full => ?_⟩
  have margin := h.leftMargin moved
  have size := (h.leftPosition moved).size
  rw [h.whole full, Nat.sub_self, Signed.zero, neg_zero] at margin
  have empty := congrArg Int.natAbs margin
  rw [Balance.marginInt, Signed.natAbs] at empty
  exact ⟨BitVec.eq_of_toNat_eq empty,BitVec.eq_of_toNat_eq ((by omega : maker'.position.toNat = 0))⟩

namespace P1Liquidation

structure Liquidated (perpetual : Storage) (call : TraderCall) (data : TradeData) (result : TradeResult) :
    Prop where
  decoded : decodeTradeData call.data = .ok data
  amount : result.positionAmount.toNat =
    Nat.min data.amount.toNat (perpetual.balances call.maker).position.toNat
  allOrNothing : data.allOrNothing = true → result.positionAmount = data.amount
  takeover : Takeover (perpetual.balances call.maker) call.price.toNat result

theorem undercollateralized {balance : Balance} {perpetual : Storage} {price : Uint256}
    (ok : isUndercollateralized balance perpetual price = .ok true) :
    balance.negativeValue price.toNat ≠ 0 := by
  simp only [isUndercollateralized, Checked.bindOk, Prod.exists, SafeMath.mulOk, Checked.pureOk,
    decide_eq_true_eq] at ok
  obtain ⟨positive,negative,values,left,hl,right,hr,less⟩ := ok
  intro none
  rw [(Balance.valuesExact values).2, none, Nat.zero_mul] at hr
  omega

theorem liquidated {msg : Msg} {perpetual : Storage} {call : TraderCall} {s s' : LiquidationContract}
    {result : TradeResult} (ok : trade msg perpetual call s = .ok (result,s')) :
    ∃ data, Liquidated perpetual call data result := by
  simp only [trade, verifyTrade, Checked.bindOk, Checked.requireOk, exists_const, Checked.pureOk,
    Prod.mk.injEq] at ok
  obtain ⟨_,_,data,decoded,⟨_,under,rfl,all,side,margin⟩,marginAmount,share,rfl,_⟩ := ok
  have amount : (Math.min data.amount (widen (perpetual.balances call.maker).position)).toNat =
      Nat.min data.amount.toNat (perpetual.balances call.maker).position.toNat := by
    rw [Math.minNat, widenNat120]
  refine ⟨data,decoded,amount,fun whole => ?_,side,undercollateralized under,margin,?_,share⟩
  · refine BitVec.eq_of_toNat_eq ?_
    rw [amount]
    exact Nat.min_eq_left (all.resolve_left (by rw [whole]; decide))
  · rw [amount]
    exact Nat.min_le_right _ _

end P1Liquidation

namespace P1Deleveraging

structure Offset (perpetual : Storage) (call : TraderCall) (data : TradeData) (result : TradeResult) :
    Prop where
  decoded : decodeTradeData call.data = .ok data
  amount : result.positionAmount.toNat = Nat.min data.amount.toNat
    (Nat.min (perpetual.balances call.maker).position.toNat (perpetual.balances call.taker).position.toNat)
  allOrNothing : data.allOrNothing = true → result.positionAmount = data.amount
  opposite : (perpetual.balances call.taker).positionIsPositive = !result.isBuy
  takeover : Takeover (perpetual.balances call.maker) call.price.toNat result

theorem owing {balance : Balance} {price : Uint256} (ok : isUnderwater balance price = .ok true) :
    balance.negativeValue price.toNat ≠ 0 := by
  simp only [isUnderwater, Checked.bindOk, Prod.exists, Checked.pureOk, decide_eq_true_eq] at ok
  obtain ⟨positive,negative,values,less⟩ := ok
  rw [← (Balance.valuesExact values).2]
  omega

theorem offset {msg : Msg} {perpetual : Storage} {call : TraderCall} {s s' : DeleveragingContract}
    {result : TradeResult} (ok : trade msg perpetual call s = .ok (result,s')) :
    ∃ data, Offset perpetual call data result := by
  simp only [trade, verifyTrade, Checked.bindOk, Checked.requireOk, exists_const, Checked.pureOk,
    Prod.mk.injEq] at ok
  obtain ⟨_,_,_,_,data,decoded,⟨_,under,rfl,allMaker,opposite,allTaker,side,margin⟩,marginAmount,share,rfl,_⟩ := ok
  have amount : (Math.min data.amount (Math.min (widen (perpetual.balances call.maker).position)
      (widen (perpetual.balances call.taker).position))).toNat = Nat.min data.amount.toNat
      (Nat.min (perpetual.balances call.maker).position.toNat
        (perpetual.balances call.taker).position.toNat) := by
    rw [Math.minNat, Math.minNat, widenNat120, widenNat120]
  refine ⟨data,decoded,amount,fun whole => ?_,?_,side,owing under,margin,?_,share⟩
  · have partly : data.allOrNothing ≠ false := by rw [whole]; decide
    refine BitVec.eq_of_toNat_eq ?_
    rw [amount]
    exact Nat.min_eq_left (Nat.le_min.mpr ⟨allMaker.resolve_left partly,allTaker.resolve_left partly⟩)
  · rw [side]
    exact Bool.eq_not.mpr opposite
  · rw [amount]
    exact (Nat.min_le_right _ _).trans (Nat.min_le_left _ _)

theorem Offset.takerPosition {perpetual : Storage} {call : TraderCall} {data : TradeData}
    {result : TradeResult} (h : Offset perpetual call data result) {maker' taker' : Balance}
    (moved : Trade.Applied result (perpetual.balances call.maker) (perpetual.balances call.taker) maker' taker') :
    Shrunk (perpetual.balances call.taker) taker' result.positionAmount.toNat := by
  refine shrunk ?_ ?_
  · rw [h.amount]
    exact (Nat.min_le_right _ _).trans (Nat.min_le_right _ _)
  · rw [moved.takerPosition, h.opposite]
    cases result.isBuy <;> simp [sub_eq_add_neg]

end P1Deleveraging

/-- A takeover never lowers the ratio of the maker. It moves exactly the bounded amount, and a
takeover of the whole position leaves the maker with nothing. -/
theorem takeoverRelieves (msg : Msg) (perpetual : Storage) (call : TraderCall) (result : TradeResult)
    (maker' taker' : Balance) (applied : Trade.applyResult result (perpetual.balances call.maker)
      (perpetual.balances call.taker) = .ok (maker',taker')) :
    let maker := perpetual.balances call.maker
    let taker := perpetual.balances call.taker
    let amount := result.positionAmount.toNat
    (∀ s s', P1Liquidation.trade msg perpetual call s = .ok (result,s') →
      ∃ data, P1Liquidation.decodeTradeData call.data = .ok data ∧
        amount = Nat.min data.amount.toNat maker.position.toNat ∧
        (data.allOrNothing = true → result.positionAmount = data.amount) ∧
        Relieved maker maker' call.price.toNat amount) ∧
    (∀ s s', P1Deleveraging.trade msg perpetual call s = .ok (result,s') →
      ∃ data, P1Deleveraging.decodeTradeData call.data = .ok data ∧
        amount = Nat.min data.amount.toNat (Nat.min maker.position.toNat taker.position.toNat) ∧
        (data.allOrNothing = true → result.positionAmount = data.amount) ∧
        Relieved maker maker' call.price.toNat amount ∧ Shrunk taker taker' amount) := by
  have moved := Trade.applied applied
  constructor
  · intro s s' ok
    obtain ⟨data,done⟩ := P1Liquidation.liquidated ok
    exact ⟨data,done.decoded,done.amount,done.allOrNothing,done.takeover.relieved moved⟩
  · intro s s' ok
    obtain ⟨data,done⟩ := P1Deleveraging.offset ok
    exact ⟨data,done.decoded,done.amount,done.allOrNothing,done.takeover.relieved moved,
      done.takerPosition moved⟩

def sampleMakers : Storage :=
  { Storage.deployed 3 with
    initialized := true
    balances := Function.update (Function.update (fun _ => ⟨true,true,1000,4⟩) 1 ⟨true,false,100,7⟩)
      2 ⟨true,false,0,7⟩
    globalOperators := fun _ => true
    minCollateral := BaseMath.BASE }

def sampleRequest (maker : Address) (amount : Uint256) : TraderCall :=
  ⟨5,maker,3,20 * BaseMath.BASE,Abi.word amount ++ Abi.word 0 ++ Abi.word 0,0⟩

theorem sampleRelieves : ∃ result maker' taker' s' t',
    Trade.applyResult result (sampleMakers.balances 1) (sampleMakers.balances 3) = .ok (maker',taker') ∧
    P1Liquidation.trade ⟨7,150⟩ sampleMakers (sampleRequest 1 3) ⟨7,[]⟩ = .ok (result,s') ∧
    P1Deleveraging.trade ⟨7,150⟩ sampleMakers (sampleRequest 1 3) ⟨4,7,fun _ => 0,5,[]⟩ =
      .ok ({ result with traderFlags := 4 },t') ∧
    Relieved (sampleMakers.balances 1) maker' (20 * 10 ^ 18) 3 := by
  have ok : P1Liquidation.trade ⟨7,150⟩ sampleMakers (sampleRequest 1 3) ⟨7,[]⟩ =
      .ok (⟨42,3,false,2⟩,⟨7,[.liquidated 1 3 3 false (20 * BaseMath.BASE)]⟩) := by decide +kernel
  have applied : Trade.applyResult ⟨42,3,false,2⟩ (sampleMakers.balances 1) (sampleMakers.balances 3) =
      .ok (⟨true,false,58,4⟩,⟨true,true,1042,1⟩) := by decide +kernel
  obtain ⟨_,_,_,_,relieved⟩ := (takeoverRelieves _ _ _ _ _ _ applied).1 _ _ ok
  exact ⟨_,_,_,_,_,applied,ok,rfl,relieved⟩

inductive TakenOver (msg : Msg) (perpetual : Storage) (call : TraderCall) (result : TradeResult) : Prop where
  | liquidation {s s' : LiquidationContract}
      (ok : P1Liquidation.trade msg perpetual call s = .ok (result,s'))
  | deleveraging {s s' : DeleveragingContract}
      (ok : P1Deleveraging.trade msg perpetual call s = .ok (result,s'))

theorem TakenOver.takeover {msg : Msg} {perpetual : Storage} {call : TraderCall} {result : TradeResult}
    (h : TakenOver msg perpetual call result) :
    Takeover (perpetual.balances call.maker) call.price.toNat result := by
  cases h with
  | liquidation ok =>
    obtain ⟨_,done⟩ := P1Liquidation.liquidated ok
    exact done.takeover
  | deleveraging ok =>
    obtain ⟨_,done⟩ := P1Deleveraging.offset ok
    exact done.takeover

def Stranded (maker : Balance) (amount : Nat) : Prop :=
  maker.positionIsPositive = false ∧ maker.margin = 0 ∧ amount < maker.position.toNat

namespace Takeover
variable {maker maker' taker taker' : Balance} {context : Context} {result : TradeResult} {account : Address}

theorem strandedRefused (h : Takeover maker context.price.toNat result)
    (moved : Trade.Applied result maker taker maker' taker') (priced : 0 < context.price.toNat)
    (least : 0 < context.minCollateral.toNat) (stranded : Stranded maker result.positionAmount.toNat) :
    ¬ Trade.Accepted context (account,maker,maker') := by
  obtain ⟨short,empty,partly⟩ := stranded
  obtain ⟨_,pos',neg'⟩ := h.values moved
  have size := (h.leftPosition moved).size
  have none : maker.margin.toNat = 0 := by rw [empty]; rfl
  rw [short, if_neg Bool.false_ne_true, none, Nat.zero_sub, Nat.zero_mul] at pos'
  rw [short, if_neg Bool.false_ne_true] at neg'
  rintro (enough | kept)
  · have left : 0 < maker'.position.toNat := by omega
    have debt := Nat.mul_pos (Nat.mul_pos left priced) least
    unfold Trade.Collateralized at enough
    dsimp only at enough
    rw [pos', neg', Nat.zero_mul] at enough
    omega
  · exact kept.value pos'

theorem partlyKept (h : Takeover maker context.price.toNat result)
    (moved : Trade.Applied result maker taker maker' taker') (priced : 0 < context.price.toNat)
    (partly : result.positionAmount.toNat < maker.position.toNat)
    (free : ¬ Stranded maker result.positionAmount.toNat) :
    Trade.NotWorse maker maker' context.price.toNat := by
  obtain ⟨_,pos',_⟩ := h.values moved
  have shrink := h.leftPosition moved
  have size := shrink.size
  have left : 0 < maker'.position.toNat := by omega
  refine ⟨?_,by omega,shrink.flag left,h.owed,h.ratio moved⟩
  cases side : maker.positionIsPositive with
  | true =>
    rw [pos', side, if_pos rfl]
    exact (Nat.mul_pos left priced).ne'
  | false =>
    have margin : 0 < maker.margin.toNat := by
      refine Nat.pos_of_ne_zero fun none => free ⟨side,?_,partly⟩
      exact BitVec.eq_of_toNat_eq none
    obtain ⟨_,_,down,_⟩ := h.rounded
    have less : result.marginAmount.toNat * maker.position.toNat <
        maker.margin.toNat * maker.position.toNat :=
      (down (h.side.trans side)).trans_lt (Nat.mul_lt_mul_of_pos_left partly margin)
    have rest := Nat.lt_of_mul_lt_mul_right less
    rw [pos', side, if_neg Bool.false_ne_true]
    exact (Nat.mul_pos (Nat.sub_pos_of_lt rest) (by decide)).ne'

theorem accepted (h : Takeover maker context.price.toNat result)
    (moved : Trade.Applied result maker taker maker' taker') (priced : 0 < context.price.toNat)
    (free : ¬ Stranded maker result.positionAmount.toNat) :
    Trade.Accepted context (account,maker,maker') := by
  rcases h.bounded.lt_or_eq with partly | whole
  · exact .inr (h.partlyKept moved priced partly free)
  · obtain ⟨margin,position⟩ := (h.relieved moved).whole whole
    refine .inl ?_
    unfold Trade.Collateralized
    simp [Balance.negativeValue, margin, position]

end Takeover

/-- Overflow aside, PerpetualV1 refuses a takeover that a trader accepted in one case only: part
of the position of a short account without margin. What is left would have no positive value. -/
theorem takeoverCompletes (msg : Msg) (perpetual : Storage) (call : TraderCall) (result : TradeResult)
    (taken : TakenOver msg perpetual call result) (context : Context) (atPrice : context.price = call.price)
    (priced : 0 < context.price.toNat) (least : 10 ^ 18 ≤ context.minCollateral.toNat)
    (taker maker' taker' : Balance)
    (applied : Trade.applyResult result (perpetual.balances call.maker) taker = .ok (maker',taker'))
    (fits : ∀ reason,
      Trade.verifyAll context [(call.maker,perpetual.balances call.maker,maker')] = .error reason →
        reason ∉ SafeMath.overflows) :
    Trade.verifyAll context [(call.maker,perpetual.balances call.maker,maker')] = .ok () ↔
      ¬ Stranded (perpetual.balances call.maker) result.positionAmount.toNat := by
  have moved := Trade.applied applied
  have takeover := taken.takeover
  rw [← atPrice] at takeover
  constructor
  · intro passes stranded
    have positive : 0 < context.minCollateral.toNat := by omega
    exact takeover.strandedRefused moved priced positive stranded
      (Trade.verifiedAccepted passes _ List.mem_cons_self)
  · intro free
    have accepted : ∀ a ∈ [(call.maker,perpetual.balances call.maker,maker')], Trade.Accepted context a :=
      List.forall_mem_singleton.mpr (takeover.accepted moved priced free)
    obtain ⟨_,passes⟩ := (Trade.acceptedOnly accepted).succeeds fits
    exact passes

theorem sampleCompletes :
    Trade.verifyAll ⟨20 * BaseMath.BASE,BaseMath.BASE,Index.zero⟩
      [(1,sampleMakers.balances 1,⟨true,false,58,4⟩)] = .ok () ↔ ¬ Stranded (sampleMakers.balances 1) 3 := by
  have ok : P1Liquidation.trade ⟨7,150⟩ sampleMakers (sampleRequest 1 3) ⟨7,[]⟩ =
      .ok (⟨42,3,false,2⟩,⟨7,[.liquidated 1 3 3 false (20 * BaseMath.BASE)]⟩) := by decide +kernel
  have passes : Trade.verifyAll ⟨20 * BaseMath.BASE,BaseMath.BASE,Index.zero⟩
      [(1,sampleMakers.balances 1,⟨true,false,58,4⟩)] = .ok () := by decide +kernel
  exact takeoverCompletes _ _ (sampleRequest 1 3) ⟨42,3,false,2⟩ (.liquidation ok) _ rfl (by decide +kernel)
    (by decide +kernel) (sampleMakers.balances 3) ⟨true,false,58,4⟩ ⟨true,true,1042,1⟩ (by decide +kernel)
    fun reason failed => by cases failed.symm.trans passes

theorem sampleStranded :
    let context : Context := ⟨20 * BaseMath.BASE,BaseMath.BASE,Index.zero⟩
    let maker := sampleMakers.balances 2
    let refused : String := "account is undercollateralized and has no positive value" ++ Require.stringify 2
    (∃ result s' maker' taker',
      P1Liquidation.trade ⟨7,150⟩ sampleMakers (sampleRequest 2 3) ⟨7,[]⟩ = .ok (result,s') ∧
      Trade.applyResult result maker (sampleMakers.balances 3) = .ok (maker',taker') ∧
      Trade.verifyAll context [(2,maker,maker')] = .error refused) ∧
    ∃ result s' maker' taker',
      P1Deleveraging.trade ⟨7,150⟩ sampleMakers (sampleRequest 2 7) ⟨4,7,fun _ => 0,5,[]⟩ = .ok (result,s') ∧
      Trade.applyResult result maker (sampleMakers.balances 3) = .ok (maker',taker') ∧
      Trade.verifyAll context [(2,maker,maker')] = .error refused := by
  have liquidated : P1Liquidation.trade ⟨7,150⟩ sampleMakers (sampleRequest 2 3) ⟨7,[]⟩ =
      .ok (⟨0,3,false,2⟩,⟨7,[.liquidated 2 3 3 false (20 * BaseMath.BASE)]⟩) := by decide +kernel
  have partly : Trade.applyResult ⟨0,3,false,2⟩ (sampleMakers.balances 2) (sampleMakers.balances 3) =
      .ok (⟨false,false,0,4⟩,⟨true,true,1000,1⟩) := by decide +kernel
  have deleveraged : P1Deleveraging.trade ⟨7,150⟩ sampleMakers (sampleRequest 2 7)
      ⟨4,7,fun _ => 0,5,[]⟩ = .ok (⟨0,4,false,4⟩,
        ⟨4,7,fun _ => 0,5,[.deleveraged 2 3 4 false (20 * BaseMath.BASE)]⟩) := rfl
  have bounded : Trade.applyResult ⟨0,4,false,4⟩ (sampleMakers.balances 2) (sampleMakers.balances 3) =
      .ok (⟨false,false,0,3⟩,⟨true,false,1000,0⟩) := by decide +kernel
  exact ⟨⟨_,_,_,_,liquidated,partly,by decide +kernel⟩,⟨_,_,_,_,deleveraged,bounded,by decide +kernel⟩⟩

end Perpetual
