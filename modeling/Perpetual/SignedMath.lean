import Perpetual.SafeMath
import Perpetual.SignMagnitude

/-! The arithmetic libraries: signed integers, fixed-point numbers with 18
decimals, and plain fractions. -/
namespace Perpetual

/-- An operation that returns the integer `n`, and reverts exactly where its magnitude
does not fit in `w` bits. -/
structure Computes {α : Type} (toInt : α → Int) (w : Nat) (reasons : List String) (x : Checked α)
    (n : Int) : Prop where
  denotes : ∀ a, x = .ok a → toInt a = n
  reverts : (∃ reason, x = .error reason) ↔ 2 ^ w ≤ n.natAbs
  only : Checked.FailsOnly reasons x

namespace Computes
variable {α β : Type} {toInt : α → Int} {w : Nat} {reasons : List String} {n : Int}

theorem ok {a : α} (same : toInt a = n) (fits : n.natAbs < 2 ^ w) :
    Computes toInt w reasons (.ok a) n := by
  refine ⟨?_,iff_of_false ?_ (not_le.mpr fits),.ok a⟩
  · intro b ok
    cases ok
    exact same
  · rintro ⟨reason,failed⟩
    cases failed

theorem error {reason : String} (listed : reason ∈ reasons) (large : 2 ^ w ≤ n.natAbs) :
    Computes toInt w reasons (.error reason) n := by
  refine ⟨?_,iff_of_true ⟨reason,rfl⟩ large,?_⟩
  · intro a ok
    cases ok
  · intro other failed
    cases failed
    exact listed

theorem returns {x : Checked α} (h : Computes toInt w reasons x n) (fits : n.natAbs < 2 ^ w) :
    ∃ a, x = .ok a := by
  cases x with
  | error reason => exact absurd (h.reverts.mp ⟨reason,rfl⟩) (not_le.mpr fits)
  | ok a => exact ⟨a,rfl⟩

theorem cast {toInt' : β → Int} {v : Nat} {reasons' : List String} {x : Checked α} {f : α → Checked β}
    (h : Computes toInt w reasons x n) (narrower : v ≤ w)
    (next : ∀ a, Computes toInt' v reasons' (f a) (toInt a)) :
    Computes toInt' v (reasons ++ reasons') (x >>= f) n := by
  cases x with
  | error reason =>
    have large := h.reverts.mp ⟨reason,rfl⟩
    have wider : 2 ^ v ≤ 2 ^ w := Nat.pow_le_pow_right (by decide) narrower
    refine ⟨?_,iff_of_true ⟨reason,rfl⟩ (wider.trans large),?_⟩
    · intro b ok
      cases ok
    · intro other failed
      cases failed
      exact List.mem_append_left _ (h.only reason rfl)
  | ok a =>
    rw [Checked.okBind, ← h.denotes a rfl]
    refine ⟨(next a).denotes,(next a).reverts,?_⟩
    intro reason failed
    exact List.mem_append_right _ ((next a).only reason failed)

end Computes

structure SignedInt where
  value : Uint256
  isPositive : Bool
  deriving DecidableEq, Repr

namespace SignedMath

def toInt (x : SignedInt) : Int := signed x.isPositive x.value.toNat

def add (sint : SignedInt) (value : Uint256) : Checked SignedInt := do
  if sint.isPositive then
    return ⟨← SafeMath.add value sint.value,true⟩
  else if sint.value.toNat < value.toNat then
    return ⟨← SafeMath.sub value sint.value,true⟩
  else
    return ⟨← SafeMath.sub sint.value value,false⟩

def sub (sint : SignedInt) (value : Uint256) : Checked SignedInt := do
  if !sint.isPositive then
    return ⟨← SafeMath.add value sint.value,false⟩
  else if value.toNat < sint.value.toNat then
    return ⟨← SafeMath.sub sint.value value,true⟩
  else
    return ⟨← SafeMath.sub value sint.value,false⟩

def signedAdd (augend addend : SignedInt) : Checked SignedInt :=
  if addend.isPositive then add augend addend.value else sub augend addend.value

def signedSub (minuend subtrahend : SignedInt) : Checked SignedInt :=
  if subtrahend.isPositive then sub minuend subtrahend.value else add minuend subtrahend.value

def gt (a b : SignedInt) : Bool :=
  if a.isPositive then
    if b.isPositive then decide (b.value.toNat < a.value.toNat)
    else decide (a.value ≠ 0 ∨ b.value ≠ 0)
  else if b.isPositive then false
  else decide (a.value.toNat < b.value.toNat)

def min (a b : SignedInt) : SignedInt := if gt b a then a else b

def max (a b : SignedInt) : SignedInt := if gt a b then a else b

def overflow : List String := ["SafeMath: addition overflow"]

theorem sumComputes (s : Bool) (value v : Uint256) :
    Computes toInt 256 overflow (do return ⟨← SafeMath.add value v,s⟩) (signed s (v.toNat + value.toNat)) := by
  by_cases fits : value.toNat + v.toNat < 2 ^ 256
  · obtain ⟨sum,add⟩ := SafeMath.addFits fits
    have exact := SafeMath.addOk.mp add
    rw [add]
    exact .ok (by rw [toInt, exact, Nat.add_comm]) (by rw [Signed.natAbs]; omega)
  · rw [SafeMath.add, if_neg fits]
    exact .error (List.mem_singleton_self _) (by rw [Signed.natAbs]; omega)

theorem differenceComputes (s : Bool) {value v : Uint256} (enough : v.toNat ≤ value.toNat) :
    Computes toInt 256 overflow (do return ⟨← SafeMath.sub value v,s⟩) (signed s (value.toNat - v.toNat)) := by
  obtain ⟨difference,sub⟩ := SafeMath.subFits enough
  have exact : difference.toNat = value.toNat - v.toNat := Nat.eq_sub_of_add_eq (SafeMath.subOk.mp sub)
  rw [sub]
  exact .ok (by rw [toInt, exact]) (by rw [Signed.natAbs]; omega)

theorem addComputes (sint : SignedInt) (value : Uint256) :
    Computes toInt 256 overflow (add sint value) (toInt sint + value.toNat) := by
  obtain ⟨v,s⟩ := sint
  unfold add
  cases s with
  | true => exact sumComputes true value v
  | false =>
    simp only [Bool.false_eq_true, if_false, toInt, Signed.negative]
    split
    · rename_i less
      have exact := differenceComputes true less.le
      rwa [Signed.positive, Nat.cast_sub less.le, sub_eq_neg_add] at exact
    · rename_i enough
      have exact := differenceComputes false (not_lt.mp enough)
      rwa [Signed.negative, Nat.cast_sub (not_lt.mp enough), neg_sub, sub_eq_neg_add] at exact

theorem subComputes (sint : SignedInt) (value : Uint256) :
    Computes toInt 256 overflow (sub sint value) (toInt sint - value.toNat) := by
  obtain ⟨v,s⟩ := sint
  unfold sub
  cases s with
  | false =>
    have exact := sumComputes false value v
    rwa [Signed.negative, Nat.cast_add, neg_add, ← sub_eq_add_neg] at exact
  | true =>
    simp only [Bool.not_true, Bool.false_eq_true, if_false, toInt, Signed.positive]
    split
    · rename_i less
      have exact := differenceComputes true less.le
      rwa [Signed.positive, Nat.cast_sub less.le] at exact
    · rename_i enough
      have exact := differenceComputes false (not_lt.mp enough)
      rwa [Signed.negative, Nat.cast_sub (not_lt.mp enough), neg_sub] at exact

theorem signedAddComputes (augend addend : SignedInt) :
    Computes toInt 256 overflow (signedAdd augend addend) (toInt augend + toInt addend) := by
  obtain ⟨v,s⟩ := addend
  cases s with
  | true => exact addComputes augend v
  | false => exact subComputes augend v

theorem signedSubComputes (minuend subtrahend : SignedInt) :
    Computes toInt 256 overflow (signedSub minuend subtrahend) (toInt minuend - toInt subtrahend) := by
  obtain ⟨v,s⟩ := subtrahend
  cases s with
  | true => exact subComputes minuend v
  | false =>
    have exact := addComputes minuend v
    rwa [← sub_neg_eq_add] at exact

theorem addInt {sint out : SignedInt} {value : Uint256} (ok : add sint value = .ok out) :
    toInt out = toInt sint + value.toNat :=
  (addComputes sint value).denotes out ok

theorem subInt {sint out : SignedInt} {value : Uint256} (ok : sub sint value = .ok out) :
    toInt out = toInt sint - value.toNat :=
  (subComputes sint value).denotes out ok

theorem signedSubInt {a b out : SignedInt} (ok : signedSub a b = .ok out) :
    toInt out = toInt a - toInt b :=
  (signedSubComputes a b).denotes out ok

theorem gtInt {a b : SignedInt} : gt a b = true ↔ toInt b < toInt a := by
  obtain ⟨v,s⟩ := a
  obtain ⟨u,r⟩ := b
  have zero (x : Uint256) : x = 0 ↔ x.toNat = 0 := BitVec.toNat_inj.symm
  cases s <;> cases r <;>
    simp only [gt, toInt, Signed.positive, Signed.negative, Bool.false_eq_true, if_true, if_false,
      decide_eq_true_eq, ne_eq]
  · omega
  · exact ⟨False.elim,fun less => by omega⟩
  · rw [zero, zero]
    constructor <;> intro h <;> omega
  · omega

theorem minInt (a b : SignedInt) : toInt (min a b) = Min.min (toInt a) (toInt b) := by
  unfold min
  split
  · rename_i less
    exact (min_eq_left (gtInt.mp less).le).symm
  · rename_i notLess
    exact (min_eq_right (not_lt.mp (mt gtInt.mpr notLess))).symm

theorem maxInt (a b : SignedInt) : toInt (max a b) = Max.max (toInt a) (toInt b) := by
  unfold max
  split
  · rename_i greater
    exact (max_eq_left (gtInt.mp greater).le).symm
  · rename_i notGreater
    exact (max_eq_right (not_lt.mp (mt gtInt.mpr notGreater))).symm

end SignedMath

namespace BaseMath

def BASE : Uint256 := 1000000000000000000#256

@[simp] theorem baseNat : BASE.toNat = 10 ^ 18 := rfl

def base : Uint256 := BASE

def baseMul (value baseValue : Uint256) : Checked Uint256 := do
  SafeMath.div (← SafeMath.mul value baseValue) BASE

def baseDivMul (value baseValue : Uint256) : Checked Uint256 := do
  SafeMath.mul (← SafeMath.div value BASE) baseValue

def baseMulRoundUp (value baseValue : Uint256) : Checked Uint256 := do
  if value = 0 ∨ baseValue = 0 then
    return 0
  else
    let product ← SafeMath.mul value baseValue
    SafeMath.add (← SafeMath.div (← SafeMath.sub product 1) BASE) 1

def baseDiv (value baseValue : Uint256) : Checked Uint256 := do
  SafeMath.div (← SafeMath.mul value BASE) baseValue

def baseReciprocal (baseValue : Uint256) : Checked Uint256 := baseDiv BASE baseValue

theorem baseMulNat {value baseValue out : Uint256} (ok : baseMul value baseValue = .ok out) :
    out.toNat = value.toNat * baseValue.toNat / 10 ^ 18 := by
  simp only [baseMul, Checked.bindOk, SafeMath.mulOk, SafeMath.divOk] at ok
  obtain ⟨product,hp,_,ho⟩ := ok
  rw [ho,hp,baseNat]

theorem baseDivMulNat {value baseValue out : Uint256} (ok : baseDivMul value baseValue = .ok out) :
    out.toNat = value.toNat / 10 ^ 18 * baseValue.toNat := by
  simp only [baseDivMul, Checked.bindOk, SafeMath.mulOk, SafeMath.divOk] at ok
  obtain ⟨quotient,⟨_,hq⟩,ho⟩ := ok
  rw [ho,hq,baseNat]

theorem baseMulBounds {value baseValue out : Uint256} (ok : baseMul value baseValue = .ok out) :
    out.toNat * 10 ^ 18 ≤ value.toNat * baseValue.toNat ∧
    value.toNat * baseValue.toNat < out.toNat * 10 ^ 18 + 10 ^ 18 := by
  rw [baseMulNat ok]
  exact Rounding.down _ (by decide)

theorem baseMulRoundUpBounds {value baseValue out : Uint256}
    (ok : baseMulRoundUp value baseValue = .ok out) :
    value.toNat * baseValue.toNat ≤ out.toNat * 10 ^ 18 ∧
    out.toNat * 10 ^ 18 < value.toNat * baseValue.toNat + 10 ^ 18 := by
  unfold baseMulRoundUp at ok
  split at ok
  · rename_i none
    obtain rfl := Checked.pureOk.mp ok
    rcases none with rfl | rfl <;> simp
  · simp only [Checked.bindOk, SafeMath.mulOk, SafeMath.subOk, SafeMath.divOk, SafeMath.addOk] at ok
    obtain ⟨product,hp,rest,hr,quotient,⟨_,hq⟩,ho⟩ := ok
    have one : (1 : Uint256).toNat = 1 := rfl
    rw [one] at hr ho
    have exact := Rounding.up (n := product.toNat) (by omega) (d := 10 ^ 18) (by decide)
    rw [show product.toNat - 1 = rest.toNat by omega, ← baseNat, ← hq, ← ho, hp, baseNat] at exact
    exact exact

theorem baseMulFits {value baseValue : Uint256} (fits : value.toNat * baseValue.toNat < 2 ^ 256) :
    ∃ out, baseMul value baseValue = .ok out := by
  obtain ⟨product,hp⟩ := SafeMath.mulFits fits
  obtain ⟨quotient,hq⟩ := SafeMath.divFits (a := product) (b := BASE) (by decide)
  exact ⟨quotient,Checked.bindOk.mpr ⟨product,hp,hq⟩⟩

theorem baseMulRoundUpFits {value baseValue : Uint256}
    (fits : value.toNat * baseValue.toNat < 2 ^ 256) : ∃ out, baseMulRoundUp value baseValue = .ok out := by
  unfold baseMulRoundUp
  split
  · exact ⟨0,rfl⟩
  · rename_i nonzero
    rw [not_or] at nonzero
    have positive := Nat.mul_pos (nonzeroWord.mp nonzero.1) (nonzeroWord.mp nonzero.2)
    obtain ⟨product,hp⟩ := SafeMath.mulFits fits
    have exact := SafeMath.mulOk.mp hp
    obtain ⟨rest,hr⟩ := SafeMath.subFits (a := product) (b := 1)
      (show 1 ≤ product.toNat by omega)
    obtain ⟨quotient,hq⟩ := SafeMath.divFits (a := rest) (b := BASE) (by decide)
    have small : quotient.toNat ≤ rest.toNat := by
      rw [(SafeMath.divOk.mp hq).2]
      exact Nat.div_le_self _ _
    have one : (1 : Uint256).toNat = 1 := rfl
    have less := SafeMath.subOk.mp hr
    rw [one] at less
    obtain ⟨out,ho⟩ := SafeMath.addFits (a := quotient) (b := 1) (by rw [one]; omega)
    simp only [Checked.bindOk]
    exact ⟨out,product,hp,rest,hr,quotient,hq,ho⟩

end BaseMath

namespace Math

def getFraction (target numerator denominator : Uint256) : Checked Uint256 := do
  SafeMath.div (← SafeMath.mul target numerator) denominator

def getFractionRoundUp (target numerator denominator : Uint256) : Checked Uint256 := do
  if target = 0 ∨ numerator = 0 then
    SafeMath.div 0 denominator
  else
    let product ← SafeMath.mul target numerator
    SafeMath.add (← SafeMath.div (← SafeMath.sub product 1) denominator) 1

def min (a b : Uint256) : Uint256 := if a.toNat < b.toNat then a else b

theorem minNat (a b : Uint256) : (min a b).toNat = Nat.min a.toNat b.toNat := by
  unfold min
  split <;> simp only [Nat.min_def] <;> split <;> omega

theorem getFractionBounds {target numerator denominator out : Uint256}
    (ok : getFraction target numerator denominator = .ok out) : 0 < denominator.toNat ∧
    out.toNat * denominator.toNat ≤ target.toNat * numerator.toNat ∧
    target.toNat * numerator.toNat < out.toNat * denominator.toNat + denominator.toNat := by
  simp only [getFraction, Checked.bindOk, SafeMath.mulOk, SafeMath.divOk] at ok
  obtain ⟨product,hp,positive,ho⟩ := ok
  rw [ho, hp]
  exact ⟨positive,Rounding.down _ positive⟩

theorem getFractionRoundUpBounds {target numerator denominator out : Uint256}
    (ok : getFractionRoundUp target numerator denominator = .ok out) : 0 < denominator.toNat ∧
    target.toNat * numerator.toNat ≤ out.toNat * denominator.toNat ∧
    out.toNat * denominator.toNat < target.toNat * numerator.toNat + denominator.toNat := by
  unfold getFractionRoundUp at ok
  split at ok
  · rename_i none
    obtain ⟨positive,ho⟩ := SafeMath.divOk.mp ok
    have zeroNat : (0 : Uint256).toNat = 0 := rfl
    rw [zeroNat, Nat.zero_div] at ho
    have product : target.toNat * numerator.toNat = 0 := by
      rcases none with rfl | rfl
      · exact Nat.zero_mul _
      · exact Nat.mul_zero _
    rw [ho, product]
    omega
  · rename_i some
    simp only [Checked.bindOk, SafeMath.mulOk, SafeMath.subOk, SafeMath.divOk, SafeMath.addOk] at ok
    obtain ⟨product,hp,rest,hr,quotient,⟨positive,hq⟩,ho⟩ := ok
    have one : (1 : Uint256).toNat = 1 := rfl
    rw [one] at hr ho
    have less : rest.toNat = target.toNat * numerator.toNat - 1 := by omega
    rw [ho, hq, less]
    exact ⟨positive,Rounding.up (by omega) positive⟩

end Math
end Perpetual
