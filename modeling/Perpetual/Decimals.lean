import Mathlib.Algebra.Order.Floor.Ring
import Mathlib.Data.Rat.Floor
import Mathlib.Tactic.FieldSimp
import Mathlib.Tactic.Linarith
import Mathlib.Tactic.Ring

/-! Decimal numbers of any length with a signed zero, the texts they are written as, and how a text
is read. -/

structure Decimal where
  negative : Bool
  coefficient : Nat
  exponent : Int
  normal : coefficient % 10 = 0 → coefficient = 0 ∧ exponent = 0
  deriving DecidableEq

namespace Decimal

def stripped : Nat → Nat → Int → Nat × Int
  | 0,coefficient,exponent => (coefficient,exponent)
  | fuel + 1,coefficient,exponent =>
      if coefficient % 10 = 0 then stripped fuel (coefficient / 10) (exponent + 1)
      else (coefficient,exponent)

theorem strippedShifted {coefficient : Nat} (normal : coefficient % 10 ≠ 0) {fuel k : Nat} (enough : k ≤ fuel)
    (exponent : Int) : stripped fuel (coefficient * 10 ^ k) exponent = (coefficient,exponent + k) := by
  induction k generalizing fuel exponent with
  | zero =>
    rw [pow_zero, Nat.mul_one, Int.natCast_zero, Int.add_zero]
    cases fuel with
    | zero => rfl
    | succ fuel => rw [stripped, if_neg normal]
  | succ k ih =>
    obtain ⟨fuel,rfl⟩ := Nat.exists_eq_add_of_le' (Nat.one_le_of_lt enough)
    have last : coefficient * 10 ^ (k + 1) = coefficient * 10 ^ k * 10 := by rw [pow_succ, Nat.mul_assoc]
    rw [stripped, last, if_pos (Nat.mul_mod_left _ _), Nat.mul_div_cancel _ (by decide), ih (by omega)]
    congr 1
    omega

theorem strippedForm (fuel coefficient : Nat) (exponent : Int) :
    ∃ k : Nat, (stripped fuel coefficient exponent).1 * 10 ^ k = coefficient ∧
      (stripped fuel coefficient exponent).2 = exponent + k := by
  induction fuel generalizing coefficient exponent with
  | zero => exact ⟨0,by simp [stripped]⟩
  | succ fuel ih =>
    rw [stripped]
    split
    · rename_i zeros
      obtain ⟨k,whole,shift⟩ := ih (coefficient / 10) (exponent + 1)
      refine ⟨k + 1,?_,by rw [shift]; omega⟩
      rw [pow_succ, ← Nat.mul_assoc, whole]
      omega
    · exact ⟨0,by simp⟩

theorem strippedNormal {fuel coefficient : Nat} (some' : 0 < coefficient) (enough : coefficient ≤ fuel)
    (exponent : Int) : (stripped fuel coefficient exponent).1 % 10 ≠ 0 := by
  induction fuel generalizing coefficient exponent with
  | zero => omega
  | succ fuel ih =>
    rw [stripped]
    split
    · exact ih (by omega) (by omega) _
    · assumption

def make (negative : Bool) (coefficient : Nat) (exponent : Int) : Decimal :=
  if zero : coefficient = 0 then ⟨negative,0,0,fun _ => ⟨rfl,rfl⟩⟩
  else ⟨negative,(stripped coefficient coefficient exponent).1,(stripped coefficient coefficient exponent).2,
    fun zeros => absurd zeros (strippedNormal (Nat.pos_of_ne_zero zero) le_rfl exponent)⟩

def zero (negative : Bool) : Decimal := make negative 0 0

theorem makeZero (negative : Bool) (exponent : Int) : make negative 0 exponent = zero negative := rfl

def withSign (x : Decimal) (negative : Bool) : Decimal := { x with negative := negative }

theorem zeroWithSign {x : Decimal} (nothing : x.coefficient = 0) (negative : Bool) :
    x.withSign negative = zero negative := by
  obtain ⟨_,coefficient,exponent,normal⟩ := x
  subst nothing
  obtain ⟨_,rfl⟩ := normal rfl
  rfl

theorem makeSelf (x : Decimal) (negative : Bool) (k : Nat) :
    make negative (x.coefficient * 10 ^ k) (x.exponent - k) = x.withSign negative := by
  by_cases nothing : x.coefficient = 0
  · rw [nothing, Nat.zero_mul, makeZero, zeroWithSign nothing]
  · have normal : x.coefficient % 10 ≠ 0 := fun zeros => nothing (x.normal zeros).1
    have some' : x.coefficient * 10 ^ k ≠ 0 := Nat.mul_ne_zero nothing (by positivity)
    have enough : k ≤ x.coefficient * 10 ^ k :=
      (Nat.lt_pow_self (by decide)).le.trans (Nat.le_mul_of_pos_left _ (Nat.pos_of_ne_zero nothing))
    have form := strippedShifted normal enough (x.exponent - k)
    rw [make, dif_neg some']
    obtain ⟨negative,coefficient,exponent,_⟩ := x
    simp only [form, withSign, mk.injEq, true_and]
    omega

def isInteger (x : Decimal) : Bool := decide (0 ≤ x.exponent)

def abs (x : Decimal) : Decimal := x.withSign false

def shiftedBy (x : Decimal) (places : Nat) : Decimal :=
  if x.coefficient = 0 then x else make x.negative x.coefficient (x.exponent + places)

def rounded (x : Decimal) : Nat :=
  if 0 ≤ x.exponent then x.coefficient * 10 ^ x.exponent.toNat
  else (2 * x.coefficient + 10 ^ (-x.exponent).toNat) / (2 * 10 ^ (-x.exponent).toNat)

def signed (negative : Bool) (text : List Char) : List Char := if negative then '-' :: text else text

/-- Rounded to a whole number. A zero has no sign, but what is rounded to one keeps its own. -/
def toFixed0 (x : Decimal) : List Char :=
  signed (x.negative && x.coefficient != 0) (Nat.toDigits 10 x.rounded)

structure Parts where
  whole : List Char
  fraction : List Char
  exponent : Option Int

def exponentText : Option Int → List Char
  | none => []
  | some e => 'e' :: (if e < 0 then '-' else '+')::Nat.toDigits 10 e.natAbs

def Parts.text (p : Parts) : List Char :=
  p.whole ++ (if p.fraction = [] then [] else '.' :: p.fraction) ++ exponentText p.exponent

def TO_EXP_NEG : Int := -7

def TO_EXP_POS : Int := 21

/-- In plain notation, unless the first digit is too far from the point. -/
def parts (x : Decimal) : Parts :=
  let digits := Nat.toDigits 10 x.coefficient
  let e := x.exponent + digits.length - 1
  if e ≤ TO_EXP_NEG ∨ TO_EXP_POS ≤ e then ⟨digits.take 1,digits.drop 1,some e⟩
  else if 0 ≤ x.exponent then ⟨digits ++ List.replicate x.exponent.toNat '0',[],none⟩
  else if 0 ≤ e then ⟨digits.take (e + 1).toNat,digits.drop (e + 1).toNat,none⟩
  else ⟨['0'],List.replicate (-e - 1).toNat '0' ++ digits,none⟩

def toText (x : Decimal) : List Char := signed (x.negative && x.coefficient != 0) x.parts.text

def readExponent : List Char → Option Int
  | [] => some 0
  | _::text =>
      let (negative,digits) := match text with
        | '-' :: rest => (true,rest)
        | '+' :: rest => (false,rest)
        | _ => (false,text)
      if digits ≠ [] ∧ digits.all Char.isDigit then
        let magnitude : Int := Nat.ofDigitChars 10 digits 0
        some (if negative then -magnitude else magnitude)
      else none

def readInteger : List Char → Option Int
  | '-' :: digits =>
      if digits ≠ [] ∧ digits.all Char.isDigit then some (-(Nat.ofDigitChars 10 digits 0 : Int)) else none
  | digits => if digits ≠ [] ∧ digits.all Char.isDigit then some (Nat.ofDigitChars 10 digits 0) else none

def isExponentSign (c : Char) : Bool := c == 'e' || c == 'E'

def readUnsigned (negative : Bool) (text : List Char) : Option Decimal :=
  let mantissa := text.takeWhile fun c => !isExponentSign c
  let whole := mantissa.takeWhile fun c => c != '.'
  let fraction := (mantissa.dropWhile fun c => c != '.').drop 1
  if whole ++ fraction ≠ [] ∧ (whole ++ fraction).all Char.isDigit then
    (readExponent (text.dropWhile fun c => !isExponentSign c)).map fun exponent =>
      make negative (Nat.ofDigitChars 10 (whole ++ fraction) 0) (exponent - fraction.length)
  else none

def ofText : List Char → Option Decimal
  | '-' :: text => readUnsigned true text
  | text => readUnsigned false text

/-! Reading what was written. -/

theorem splitAppend {α : Type} {p : α → Bool} {left right : List α} (inside : ∀ c ∈ left, p c = true)
    (stops : ∀ c ∈ right.head?, p c = false) :
    (left ++ right).takeWhile p = left ∧ (left ++ right).dropWhile p = right := by
  rw [List.takeWhile_append_of_pos inside, List.dropWhile_append_of_pos inside]
  cases right with
  | nil => simp
  | cons c rest =>
    have outside : ¬p c = true := by rw [stops c rfl]; exact Bool.false_ne_true
    rw [List.takeWhile_cons_of_neg outside, List.dropWhile_cons_of_neg outside, List.append_nil]
    exact ⟨rfl,rfl⟩

theorem digitPlain {c : Char} (digit : c.isDigit = true) :
    isExponentSign c = false ∧ c ≠ '.' ∧ c ≠ '-' ∧ c ≠ '+' := by
  refine ⟨?_,?_,?_,?_⟩
  · rw [isExponentSign, Bool.or_eq_false_iff, beq_eq_false_iff_ne, beq_eq_false_iff_ne]
    constructor <;> rintro rfl <;> cases digit
  all_goals
    rintro rfl
    cases digit

structure Parts.Digits (p : Parts) : Prop where
  some' : p.whole ≠ []
  whole : ∀ c ∈ p.whole, c.isDigit = true
  fraction : ∀ c ∈ p.fraction, c.isDigit = true

theorem decimalDigits (n : Nat) : ∀ c ∈ Nat.toDigits 10 n, c.isDigit = true :=
  fun _ mem => Nat.isDigit_of_mem_toDigits (by decide) le_rfl mem

theorem readExponentText (exponent : Option Int) : readExponent (exponentText exponent) = some (exponent.getD 0) := by
  cases exponent with
  | none => rfl
  | some e =>
    have digits : Nat.toDigits 10 e.natAbs ≠ [] ∧ (Nat.toDigits 10 e.natAbs).all Char.isDigit :=
      ⟨Nat.toDigits_ne_nil,List.all_eq_true.mpr (decimalDigits _)⟩
    by_cases negative : e < 0
    · simp only [exponentText, if_pos negative, readExponent, if_pos digits, Nat.ofDigitChars_ten_toDigits,
        if_true, Option.getD_some, Option.some.injEq]
      omega
    · simp only [exponentText, if_neg negative, readExponent, if_pos digits, Nat.ofDigitChars_ten_toDigits,
        Bool.false_eq_true, if_false, Option.getD_some, Option.some.injEq]
      omega

theorem readParts {p : Parts} (digits : p.Digits) (negative : Bool) : readUnsigned negative p.text =
    some (make negative (Nat.ofDigitChars 10 (p.whole ++ p.fraction) 0)
      (p.exponent.getD 0 - p.fraction.length)) := by
  have mantissa : (∀ c ∈ p.whole ++ (if p.fraction = [] then [] else '.' :: p.fraction),
      (!isExponentSign c) = true) := by
    intro c mem
    rw [Bool.not_eq_true']
    rcases List.mem_append.mp mem with whole | rest
    · exact (digitPlain (digits.whole c whole)).1
    · split at rest
      · cases rest
      · rcases List.mem_cons.mp rest with rfl | fraction
        · rfl
        · exact (digitPlain (digits.fraction c fraction)).1
  have stops : ∀ c ∈ (exponentText p.exponent).head?, (!isExponentSign c) = false := by
    cases p.exponent with
    | none => exact fun c none' => by (cases none')
    | some e =>
      rintro c same
      cases same
      rfl
  obtain ⟨before,after⟩ := splitAppend mantissa stops
  have point : (∀ c ∈ p.whole, (c != '.') = true) := fun c mem =>
    bne_iff_ne.mpr (digitPlain (digits.whole c mem)).2.1
  have dot : ∀ c ∈ (if p.fraction = [] then [] else '.' :: p.fraction).head?, (c != '.') = false := by
    split
    · exact fun c none' => by (cases none')
    · rintro c same
      cases same
      rfl
  obtain ⟨whole,rest⟩ := splitAppend point dot
  have fraction : (if p.fraction = [] then [] else '.' :: p.fraction).drop 1 = p.fraction := by
    split
    · rename_i none'
      rw [none']
      rfl
    · rfl
  have proper : p.whole ++ p.fraction ≠ [] ∧ (p.whole ++ p.fraction).all Char.isDigit := by
    refine ⟨fun none' => digits.some' (List.append_eq_nil_iff.mp none').1,List.all_eq_true.mpr fun c mem => ?_⟩
    rcases List.mem_append.mp mem with inWhole | inFraction
    · exact digits.whole c inWhole
    · exact digits.fraction c inFraction
  simp only [readUnsigned, Parts.text, before, after, whole, rest, fraction, if_pos proper, readExponentText,
    Option.map_some]

theorem partsDigits (x : Decimal) : x.parts.Digits := by
  have digits := decimalDigits x.coefficient
  have some' : Nat.toDigits 10 x.coefficient ≠ [] := Nat.toDigits_ne_nil
  unfold parts
  simp only
  split
  · exact ⟨by simp [some'],fun c mem => digits c (List.mem_of_mem_take mem),
      fun c mem => digits c (List.mem_of_mem_drop mem)⟩
  · split
    · refine ⟨fun none' => some' (List.append_eq_nil_iff.mp none').1,fun c mem => ?_,List.forall_mem_nil _⟩
      rcases List.mem_append.mp mem with digit | zeros
      · exact digits c digit
      · rw [List.eq_of_mem_replicate zeros]
        rfl
    · split
      · refine ⟨?_,fun c mem => digits c (List.mem_of_mem_take mem),fun c mem => digits c (List.mem_of_mem_drop mem)⟩
        rw [Ne, List.take_eq_nil_iff, not_or]
        exact ⟨by omega,some'⟩
      · refine ⟨List.cons_ne_nil _ _,List.forall_mem_singleton.mpr rfl,fun c mem => ?_⟩
        rcases List.mem_append.mp mem with zeros | digit
        · rw [List.eq_of_mem_replicate zeros]
          rfl
        · exact digits c digit

theorem partsNumber (x : Decimal) (negative : Bool) :
    make negative (Nat.ofDigitChars 10 (x.parts.whole ++ x.parts.fraction) 0)
      (x.parts.exponent.getD 0 - x.parts.fraction.length) = x.withSign negative := by
  have number : Nat.ofDigitChars 10 (Nat.toDigits 10 x.coefficient) 0 = x.coefficient :=
    Nat.ofDigitChars_ten_toDigits
  have long : 0 < (Nat.toDigits 10 x.coefficient).length := Nat.length_toDigits_pos
  have self := makeSelf x negative 0
  rw [pow_zero, Nat.mul_one, Int.natCast_zero, Int.sub_zero] at self
  unfold parts
  simp only
  split
  · rw [List.take_append_drop, number, List.length_drop, Option.getD_some]
    rw [← self]
    congr 1
    omega
  · split
    · rename_i whole
      rw [List.append_nil, Nat.ofDigitChars_append, Nat.ofDigitChars_replicate_zero, number, Nat.mul_comm,
        List.length_nil, Option.getD_none]
      rw [← makeSelf x negative x.exponent.toNat]
      congr 1
      omega
    · split
      · rw [List.take_append_drop, number, List.length_drop, Option.getD_none]
        rw [← self]
        congr 1
        omega
      · rw [List.singleton_append, Nat.ofDigitChars_cons, Nat.ofDigitChars_append,
          Nat.ofDigitChars_replicate_zero, List.length_append, List.length_replicate, Option.getD_none]
        rw [← self]
        congr 1
        omega

theorem ofSigned {p : Parts} (digits : p.Digits) (negative : Bool) :
    ofText (signed negative p.text) = readUnsigned negative p.text := by
  cases negative with
  | true => rfl
  | false =>
    obtain ⟨c,rest,whole⟩ := List.exists_cons_of_ne_nil digits.some'
    have plain := (digitPlain (digits.whole c (by rw [whole]; exact List.mem_cons_self))).2.2.1
    rw [signed, if_neg Bool.false_ne_true, Parts.text, whole, List.cons_append, List.cons_append]
    unfold ofText
    split
    · rename_i same
      exact absurd (List.cons.inj same).1 plain
    · rfl

theorem ofToText (x : Decimal) : ofText x.toText = some (x.withSign (x.negative && x.coefficient != 0)) := by
  rw [toText, ofSigned (partsDigits x), readParts (partsDigits x), partsNumber]

theorem ofToFixed0 (x : Decimal) :
    ofText x.toFixed0 = some (make (x.negative && x.coefficient != 0) x.rounded 0) := by
  have digits : Parts.Digits ⟨Nat.toDigits 10 x.rounded,[],none⟩ :=
    ⟨Nat.toDigits_ne_nil,decimalDigits _,List.forall_mem_nil _⟩
  have text : Parts.text ⟨Nat.toDigits 10 x.rounded,[],none⟩ = Nat.toDigits 10 x.rounded := by
    simp [Parts.text, exponentText]
  have reads := (ofSigned digits (x.negative && x.coefficient != 0)).trans (readParts digits _)
  rw [text, List.append_nil, Nat.ofDigitChars_ten_toDigits] at reads
  exact reads

def plainZero (x : Decimal) : Decimal := x.withSign (x.negative && x.coefficient != 0)

def reread (x : Decimal) : Decimal := make (x.negative && x.coefficient != 0) x.rounded 0

theorem plainZeroSelf {x : Decimal} : x.plainZero = x ↔ x ≠ zero true := by
  by_cases nothing : x.coefficient = 0
  · have same : x = zero x.negative := zeroWithSign nothing x.negative
    rw [same]
    cases x.negative <;> decide
  · have sign : (x.negative && x.coefficient != 0) = x.negative := by
      rw [bne_iff_ne.mpr nothing, Bool.and_true]
    refine ⟨fun _ zero' => nothing (congrArg Decimal.coefficient zero'),fun _ => ?_⟩
    rw [plainZero, sign]
    rfl

theorem rereadInteger {x : Decimal} (whole : x.isInteger = true) : x.reread = x.plainZero := by
  have nonneg : 0 ≤ x.exponent := of_decide_eq_true whole
  have self := makeSelf x (x.negative && x.coefficient != 0) x.exponent.toNat
  rw [Int.toNat_of_nonneg nonneg, Int.sub_self] at self
  rw [reread, rounded, if_pos nonneg, self, plainZero]

theorem makeNegative (negative : Bool) (coefficient : Nat) (exponent : Int) :
    (make negative coefficient exponent).negative = negative := by
  unfold make
  split <;> rfl

def roundedInt (x : Decimal) : Int := if x.negative then -(x.rounded : Int) else x.rounded

theorem roundedZero {x : Decimal} (nothing : x.coefficient = 0) : x.rounded = 0 := by
  obtain ⟨_,whole⟩ := x.normal (by rw [nothing])
  rw [rounded, if_pos whole.ge, nothing, Nat.zero_mul]

theorem readDigits (n : Nat) : readInteger (Nat.toDigits 10 n) = some (n : Int) := by
  have digits : Nat.toDigits 10 n ≠ [] ∧ (Nat.toDigits 10 n).all Char.isDigit :=
    ⟨Nat.toDigits_ne_nil,List.all_eq_true.mpr (decimalDigits _)⟩
  obtain ⟨c,rest,first⟩ := List.exists_cons_of_ne_nil digits.1
  have plain := (digitPlain (decimalDigits n c (by rw [first]; exact List.mem_cons_self))).2.2.1
  unfold readInteger
  split
  · rename_i minus
    exact absurd (List.cons.inj (first.symm.trans minus)).1 plain
  · rw [if_pos digits, Nat.ofDigitChars_ten_toDigits]

theorem readFixed0 (x : Decimal) : readInteger x.toFixed0 = some x.roundedInt := by
  cases sign : x.negative && x.coefficient != 0 with
  | true =>
    have digits : Nat.toDigits 10 x.rounded ≠ [] ∧ (Nat.toDigits 10 x.rounded).all Char.isDigit :=
      ⟨Nat.toDigits_ne_nil,List.all_eq_true.mpr (decimalDigits _)⟩
    obtain ⟨negative,_⟩ := Bool.and_eq_true_iff.mp sign
    rw [toFixed0, sign, signed, if_pos rfl, readInteger, if_pos digits, Nat.ofDigitChars_ten_toDigits,
      roundedInt, if_pos negative]
  | false =>
    have same : x.roundedInt = x.rounded := by
      rw [roundedInt]
      split
      · rename_i negative
        rw [negative, Bool.true_and, bne_eq_false_iff_eq] at sign
        rw [roundedZero sign]
        rfl
      · rfl
    rw [toFixed0, sign, signed, if_neg Bool.false_ne_true, same, readDigits]

/-! What the numbers are. -/

def magnitude (x : Decimal) : ℚ := x.coefficient * 10 ^ x.exponent

def value (x : Decimal) : ℚ := if x.negative then -x.magnitude else x.magnitude

theorem magnitudeNonneg (x : Decimal) : 0 ≤ x.magnitude :=
  mul_nonneg (Nat.cast_nonneg _) (zpow_nonneg (by norm_num) _)

theorem magnitudeMake (negative : Bool) (coefficient : Nat) (exponent : Int) :
    (make negative coefficient exponent).magnitude = coefficient * 10 ^ exponent := by
  unfold make
  split
  · rename_i nothing
    simp [magnitude, nothing]
  · obtain ⟨k,whole,shift⟩ := strippedForm coefficient coefficient exponent
    simp only [magnitude, shift]
    rw [zpow_add₀ (by norm_num), zpow_natCast]
    conv_rhs => rw [← whole, Nat.cast_mul, Nat.cast_pow]
    push_cast
    ring

theorem shiftedMagnitude (x : Decimal) (places : Nat) :
    (x.shiftedBy places).magnitude = x.magnitude * 10 ^ places := by
  unfold shiftedBy
  split
  · rename_i nothing
    simp [magnitude, nothing]
  · rw [magnitudeMake, zpow_add₀ (by norm_num), zpow_natCast, magnitude]
    ring

theorem roundedFloor (x : Decimal) : (x.rounded : Int) = ⌊x.magnitude + 1 / 2⌋ := by
  unfold rounded magnitude
  split
  · rename_i whole
    obtain ⟨k,exponent⟩ := Int.eq_ofNat_of_zero_le whole
    rw [exponent, Int.toNat_natCast, zpow_natCast]
    refine (Int.floor_eq_iff.mpr ⟨?_,?_⟩).symm <;> push_cast <;> linarith
  · rename_i fractional
    obtain ⟨k,exponent⟩ := Int.eq_ofNat_of_zero_le (show 0 ≤ -x.exponent by omega)
    have negated : x.exponent = -(k : Int) := by omega
    rw [exponent, Int.toNat_natCast, negated, zpow_neg, zpow_natCast]
    have half : (x.coefficient : ℚ) * (10 ^ k)⁻¹ + 1 / 2 =
        ((2 * x.coefficient + 10 ^ k : Nat) : ℚ) / ((2 * 10 ^ k : Nat) : ℚ) := by
      push_cast
      field_simp
    rw [half, Rat.floor_natCast_div_natCast]
    norm_cast

theorem roundedMake (negative : Bool) (n : Nat) : (make negative n 0).rounded = n := by
  have floor := roundedFloor (make negative n 0)
  have half : ⌊(n : ℚ) + 1 / 2⌋ = (n : Int) :=
    Int.floor_eq_iff.mpr ⟨by push_cast; linarith,by push_cast; linarith⟩
  rw [magnitudeMake, zpow_zero, mul_one, half] at floor
  exact_mod_cast floor

theorem rereadRounded (x : Decimal) : x.reread.roundedInt = x.roundedInt := by
  unfold roundedInt reread
  rw [roundedMake, makeNegative]
  by_cases nothing : x.coefficient = 0
  · rw [roundedZero nothing]
    simp
  · rw [bne_iff_ne.mpr nothing, Bool.and_true]

end Decimal
