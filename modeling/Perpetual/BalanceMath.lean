import Perpetual.SignedMath
import Mathlib.Tactic.Ring

/-! `P1Types`, and the libraries over its balance and index structs. -/
namespace Perpetual

structure Index where
  timestamp : Uint32
  isPositive : Bool
  value : Uint128
  deriving DecidableEq, Repr

structure Balance where
  marginIsPositive : Bool
  positionIsPositive : Bool
  margin : Uint120
  position : Uint120
  deriving DecidableEq, Repr

structure Context where
  price : Uint256
  minCollateral : Uint256
  index : Index
  deriving DecidableEq, Repr

structure TradeResult where
  marginAmount : Uint256
  positionAmount : Uint256
  isBuy : Bool
  traderFlags : Bytes32
  deriving DecidableEq, Repr

namespace Index

def zero : Index := ⟨0,false,0⟩

def toInt (index : Index) : Int := signed index.isPositive index.value.toNat

def FLAG_IS_POSITIVE : Uint256 := 1#256 <<< 128

def toBytes32 (index : Index) : Bytes32 :=
  widen index.value ||| (if index.isPositive then FLAG_IS_POSITIVE else 0) |||
    (widen index.timestamp <<< 136)

end Index

namespace Balance

def zero : Balance := ⟨false,false,0,0⟩

def marginInt (b : Balance) : Int := signed b.marginIsPositive b.margin.toNat

def positionInt (b : Balance) : Int := signed b.positionIsPositive b.position.toNat

def getMargin (b : Balance) : SignedInt := ⟨widen b.margin,b.marginIsPositive⟩

def getPosition (b : Balance) : SignedInt := ⟨widen b.position,b.positionIsPositive⟩

def setMargin (b : Balance) (newMargin : SignedInt) : Checked Balance := do
  let margin ← SafeCast.toUint120 newMargin.value
  return { b with margin := margin, marginIsPositive := newMargin.isPositive }

def setPosition (b : Balance) (newPosition : SignedInt) : Checked Balance := do
  let position ← SafeCast.toUint120 newPosition.value
  return { b with position := position, positionIsPositive := newPosition.isPositive }

def addToMargin (b : Balance) (amount : Uint256) : Checked Balance := do
  b.setMargin (← SignedMath.add b.getMargin amount)

def subFromMargin (b : Balance) (amount : Uint256) : Checked Balance := do
  b.setMargin (← SignedMath.sub b.getMargin amount)

def addToPosition (b : Balance) (amount : Uint256) : Checked Balance := do
  b.setPosition (← SignedMath.add b.getPosition amount)

def subFromPosition (b : Balance) (amount : Uint256) : Checked Balance := do
  b.setPosition (← SignedMath.sub b.getPosition amount)

@[simp] theorem getMarginInt (b : Balance) : SignedMath.toInt b.getMargin = b.marginInt := by
  simp [SignedMath.toInt, getMargin, marginInt]

@[simp] theorem getPositionInt (b : Balance) : SignedMath.toInt b.getPosition = b.positionInt := by
  simp [SignedMath.toInt, getPosition, positionInt]

structure MarginMoved (b out : Balance) (amount : Int) : Prop where
  margin : out.marginInt = b.marginInt + amount
  position : out.position = b.position
  positionIsPositive : out.positionIsPositive = b.positionIsPositive

structure PositionMoved (b out : Balance) (amount : Int) : Prop where
  position : out.positionInt = b.positionInt + amount
  margin : out.margin = b.margin
  marginIsPositive : out.marginIsPositive = b.marginIsPositive

theorem MarginMoved.positionInt {b out : Balance} {amount : Int} (h : MarginMoved b out amount) :
    out.positionInt = b.positionInt := by
  rw [Balance.positionInt, Balance.positionInt, h.position, h.positionIsPositive]

theorem PositionMoved.marginInt {b out : Balance} {amount : Int} (h : PositionMoved b out amount) :
    out.marginInt = b.marginInt := by
  rw [Balance.marginInt, Balance.marginInt, h.margin, h.marginIsPositive]

theorem setMarginMoved {b out : Balance} {x : SignedInt} (ok : b.setMargin x = .ok out) :
    MarginMoved b out (SignedMath.toInt x - b.marginInt) := by
  simp only [setMargin, Checked.bindOk, SafeCast.toUint120, SafeCast.toUintOk, Checked.pureOk] at ok
  obtain ⟨m,hm,rfl⟩ := ok
  refine ⟨?_,rfl,rfl⟩
  simp only [marginInt, SignedMath.toInt, hm]
  omega

theorem setPositionMoved {b out : Balance} {x : SignedInt} (ok : b.setPosition x = .ok out) :
    PositionMoved b out (SignedMath.toInt x - b.positionInt) := by
  simp only [setPosition, Checked.bindOk, SafeCast.toUint120, SafeCast.toUintOk, Checked.pureOk] at ok
  obtain ⟨p,hp,rfl⟩ := ok
  refine ⟨?_,rfl,rfl⟩
  simp only [positionInt, SignedMath.toInt, hp]
  omega

theorem addToMarginMoved {b out : Balance} {amount : Uint256} (ok : b.addToMargin amount = .ok out) :
    MarginMoved b out amount.toNat := by
  simp only [addToMargin, Checked.bindOk] at ok
  obtain ⟨x,hx,set⟩ := ok
  have moved := setMarginMoved set
  rwa [SignedMath.addInt hx, getMarginInt, add_sub_cancel_left] at moved

theorem subFromMarginMoved {b out : Balance} {amount : Uint256}
    (ok : b.subFromMargin amount = .ok out) : MarginMoved b out (-amount.toNat) := by
  simp only [subFromMargin, Checked.bindOk] at ok
  obtain ⟨x,hx,set⟩ := ok
  have moved := setMarginMoved set
  rwa [SignedMath.subInt hx, getMarginInt, sub_sub_cancel_left] at moved

theorem addToPositionMoved {b out : Balance} {amount : Uint256}
    (ok : b.addToPosition amount = .ok out) : PositionMoved b out amount.toNat := by
  simp only [addToPosition, Checked.bindOk] at ok
  obtain ⟨x,hx,set⟩ := ok
  have moved := setPositionMoved set
  rwa [SignedMath.addInt hx, getPositionInt, add_sub_cancel_left] at moved

theorem subFromPositionMoved {b out : Balance} {amount : Uint256}
    (ok : b.subFromPosition amount = .ok out) : PositionMoved b out (-amount.toNat) := by
  simp only [subFromPosition, Checked.bindOk] at ok
  obtain ⟨x,hx,set⟩ := ok
  have moved := setPositionMoved set
  rwa [SignedMath.subInt hx, getPositionInt, sub_sub_cancel_left] at moved

def castOverflow : List String := ["SafeCast: value doesn't fit in 120 bits"]

theorem castComputes {toInt : Balance → Int} {x : SignedInt} {set : Uint120 → Balance}
    (same : ∀ value, toInt (set value) = signed x.isPositive value.toNat) :
    Computes toInt 120 castOverflow (do return set (← SafeCast.toUint120 x.value)) (SignedMath.toInt x) := by
  by_cases fits : x.value.toNat < 2 ^ 120
  · obtain ⟨value,cast⟩ : ∃ value, SafeCast.toUint120 x.value = .ok value := SafeCast.toUintFits fits
    have exact := SafeCast.toUintOk.mp cast
    rw [cast]
    exact .ok (by rw [same, exact, SignedMath.toInt]) (by rwa [SignedMath.toInt, Signed.natAbs])
  · rw [SafeCast.toUint120, SafeCast.toUint, if_neg fits]
    exact .error (List.mem_singleton_self _) (by rwa [SignedMath.toInt, Signed.natAbs, ← not_lt])

theorem setMarginComputes (b : Balance) (x : SignedInt) :
    Computes marginInt 120 castOverflow (b.setMargin x) (SignedMath.toInt x) :=
  castComputes fun _ => rfl

theorem setPositionComputes (b : Balance) (x : SignedInt) :
    Computes positionInt 120 castOverflow (b.setPosition x) (SignedMath.toInt x) :=
  castComputes fun _ => rfl

def overflow : List String := SignedMath.overflow ++ castOverflow

theorem addToMarginComputes (b : Balance) (amount : Uint256) :
    Computes marginInt 120 overflow (b.addToMargin amount) (b.marginInt + amount.toNat) := by
  rw [← getMarginInt]
  exact (SignedMath.addComputes b.getMargin amount).cast (by decide) b.setMarginComputes

theorem subFromMarginComputes (b : Balance) (amount : Uint256) :
    Computes marginInt 120 overflow (b.subFromMargin amount) (b.marginInt - amount.toNat) := by
  rw [← getMarginInt]
  exact (SignedMath.subComputes b.getMargin amount).cast (by decide) b.setMarginComputes

theorem addToPositionComputes (b : Balance) (amount : Uint256) :
    Computes positionInt 120 overflow (b.addToPosition amount) (b.positionInt + amount.toNat) := by
  rw [← getPositionInt]
  exact (SignedMath.addComputes b.getPosition amount).cast (by decide) b.setPositionComputes

theorem subFromPositionComputes (b : Balance) (amount : Uint256) :
    Computes positionInt 120 overflow (b.subFromPosition amount) (b.positionInt - amount.toNat) := by
  rw [← getPositionInt]
  exact (SignedMath.subComputes b.getPosition amount).cast (by decide) b.setPositionComputes

def getPositiveAndNegativeValue (b : Balance) (price : Uint256) : Checked (Uint256 × Uint256) := do
  let marginValue ← SafeMath.mul (widen b.margin) BaseMath.base
  let (positiveValue,negativeValue) : Uint256 × Uint256 :=
    if b.marginIsPositive then (marginValue,0) else (0,marginValue)
  let positionValue ← SafeMath.mul (widen b.position) price
  if b.positionIsPositive then
    return (← SafeMath.add positiveValue positionValue,negativeValue)
  else
    return (positiveValue,← SafeMath.add negativeValue positionValue)

def positiveValue (b : Balance) (price : Nat) : Nat :=
  (if b.marginIsPositive then b.margin.toNat * 10 ^ 18 else 0) +
    (if b.positionIsPositive then b.position.toNat * price else 0)

def negativeValue (b : Balance) (price : Nat) : Nat :=
  (if b.marginIsPositive then 0 else b.margin.toNat * 10 ^ 18) +
    (if b.positionIsPositive then 0 else b.position.toNat * price)

theorem valuesExact {b : Balance} {price positive negative : Uint256}
    (ok : b.getPositiveAndNegativeValue price = .ok (positive,negative)) :
    positive.toNat = b.positiveValue price.toNat ∧ negative.toNat = b.negativeValue price.toNat := by
  obtain ⟨mp,pp,m,p⟩ := b
  simp only [getPositiveAndNegativeValue, BaseMath.base, Checked.bindOk, SafeMath.mulOk, widenNat120,
    BaseMath.baseNat] at ok
  obtain ⟨mv,hm,pv,hp,last⟩ := ok
  have zeroNat : (0 : Uint256).toNat = 0 := rfl
  cases mp <;> cases pp <;>
    simp only [Bool.false_eq_true, if_true, if_false, Checked.bindOk, SafeMath.addOk, Checked.pureOk,
      Prod.mk.injEq] at last <;>
    obtain ⟨sum,hs,rfl,rfl⟩ := last <;>
    simp only [positiveValue, negativeValue, Bool.false_eq_true, if_true, if_false, hs, hm, hp, zeroNat,
      Nat.add_zero, Nat.zero_add, and_self]

/-- The net value of an account at a price, in units of `10^-18` tokens. -/
def netValue (b : Balance) (price : Int) : Int := 10 ^ 18 * b.marginInt + price * b.positionInt

theorem netOfValues (b : Balance) (price : Nat) :
    (b.positiveValue price : Int) - b.negativeValue price = b.netValue price := by
  obtain ⟨mp,pp,m,p⟩ := b
  cases mp <;> cases pp <;>
    simp only [positiveValue, negativeValue, netValue, marginInt, positionInt, Signed.positive,
      Signed.negative, Bool.false_eq_true, if_true, if_false] <;> push_cast <;> ring

def FLAG_MARGIN_IS_POSITIVE : Uint256 := 1#256 <<< (8 * 31)

def FLAG_POSITION_IS_POSITIVE : Uint256 := 1#256 <<< (8 * 15)

def toBytes32 (b : Balance) : Bytes32 :=
  widen b.position ||| (widen b.margin <<< 128) |||
    (if b.marginIsPositive then FLAG_MARGIN_IS_POSITIVE else 0) |||
    (if b.positionIsPositive then FLAG_POSITION_IS_POSITIVE else 0)

end Balance

structure MovesMargin (b : Balance) (x : Checked Balance) (amount : Int) : Prop where
  computes : Computes Balance.marginInt 120 Balance.overflow x (b.marginInt + amount)
  onlyMargin : ∀ out, x = .ok out → Balance.MarginMoved b out amount

structure MovesPosition (b : Balance) (x : Checked Balance) (amount : Int) : Prop where
  computes : Computes Balance.positionInt 120 Balance.overflow x (b.positionInt + amount)
  onlyPosition : ∀ out, x = .ok out → Balance.PositionMoved b out amount

open SignedMath in
theorem signMagnitudeExact :
    (∀ (a b : SignedInt) (value : Uint256),
      Computes toInt 256 overflow (add a value) (toInt a + value.toNat) ∧
      Computes toInt 256 overflow (sub a value) (toInt a - value.toNat) ∧
      Computes toInt 256 overflow (signedAdd a b) (toInt a + toInt b) ∧
      Computes toInt 256 overflow (signedSub a b) (toInt a - toInt b) ∧
      (gt a b = true ↔ toInt b < toInt a) ∧
      toInt (min a b) = Min.min (toInt a) (toInt b) ∧ toInt (max a b) = Max.max (toInt a) (toInt b)) ∧
    ∀ (b : Balance) (amount : Uint256),
      MovesMargin b (b.addToMargin amount) amount.toNat ∧
      MovesMargin b (b.subFromMargin amount) (-amount.toNat) ∧
      MovesPosition b (b.addToPosition amount) amount.toNat ∧
      MovesPosition b (b.subFromPosition amount) (-amount.toNat) := by
  refine ⟨fun a b value => ?_,fun b amount => ⟨?_,?_,?_,?_⟩⟩
  · exact ⟨addComputes a value,subComputes a value,signedAddComputes a b,signedSubComputes a b,gtInt,
      minInt a b,maxInt a b⟩
  · exact ⟨b.addToMarginComputes amount,fun _ => Balance.addToMarginMoved⟩
  · exact ⟨by simpa [sub_eq_add_neg] using b.subFromMarginComputes amount,fun _ => Balance.subFromMarginMoved⟩
  · exact ⟨b.addToPositionComputes amount,fun _ => Balance.addToPositionMoved⟩
  · exact ⟨by simpa [sub_eq_add_neg] using b.subFromPositionComputes amount,
      fun _ => Balance.subFromPositionMoved⟩

end Perpetual
