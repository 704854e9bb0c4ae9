import Mathlib.Data.List.Pairwise
import Mathlib.Logic.Basic

/-! Words packed from fields: each value is shifted to the offset of its field, and
the results are combined with OR. A field that is apart from the others is read back. -/
namespace PackedWord
variable {n : Nat}

structure Field (n : Nat) where
  offset : Nat
  width : Nat
  inside : offset + width ≤ n

namespace Field

def put (f : Field n) (x : BitVec f.width) : BitVec n := x.setWidth n <<< f.offset

def read (f : Field n) (word : BitVec n) : BitVec f.width := word.extractLsb' f.offset f.width

def Holds (f : Field n) (i : Nat) : Prop := f.offset ≤ i ∧ i < f.offset + f.width

def Apart (f g : Field n) : Prop := f.offset + f.width ≤ g.offset ∨ g.offset + g.width ≤ f.offset

theorem readBit (f : Field n) (word : BitVec n) {i : Nat} (inside : i < f.width) :
    (f.read word).getLsbD i = word.getLsbD (f.offset + i) := by
  simp only [read, BitVec.getLsbD_extractLsb', inside, decide_true, Bool.true_and]

theorem putBit (f : Field n) (x : BitVec f.width) (i : Nat) :
    (f.put x).getLsbD i = (decide (f.offset ≤ i) && x.getLsbD (i - f.offset)) := by
  have inside := f.inside
  have narrow : x.getLsbD (i - f.offset) → i - f.offset < f.width := BitVec.lt_of_getLsbD
  simp only [put, BitVec.getLsbD_shiftLeft, BitVec.getLsbD_setWidth]
  grind

theorem putOutside {f : Field n} {i : Nat} (outside : ¬f.Holds i) (x : BitVec f.width) :
    (f.put x).getLsbD i = false := by
  have narrow : x.getLsbD (i - f.offset) → i - f.offset < f.width := BitVec.lt_of_getLsbD
  rw [putBit]
  unfold Holds at outside
  grind

theorem Apart.bits {f g : Field n} (apart : f.Apart g) (i : Nat) : ¬(f.Holds i ∧ g.Holds i) := by
  unfold Apart at apart
  unfold Holds
  omega

@[simp] theorem readPut (f : Field n) (x : BitVec f.width) : f.read (f.put x) = x := by
  apply BitVec.eq_of_getLsbD_eq
  intro i inside
  rw [readBit f _ inside, putBit, Nat.add_sub_cancel_left]
  simp

theorem readApart {f g : Field n} (apart : f.Apart g) (x : BitVec g.width) : f.read (g.put x) = 0 := by
  apply BitVec.eq_of_getLsbD_eq
  intro i inside
  have wide : x.getLsbD (f.offset + i - g.offset) → f.offset + i - g.offset < g.width :=
    BitVec.lt_of_getLsbD
  rw [readBit f _ inside, putBit]
  unfold Apart at apart
  simp only [BitVec.ofNat_eq_ofNat, BitVec.getLsbD_zero]
  grind

@[simp] theorem readZero (f : Field n) : f.read 0 = 0 := by
  apply BitVec.eq_of_getLsbD_eq
  intro i inside
  rw [readBit f _ inside]
  simp

@[simp] theorem readOr (f : Field n) (v w : BitVec n) : f.read (v ||| w) = f.read v ||| f.read w := by
  apply BitVec.eq_of_getLsbD_eq
  intro i inside
  simp only [readBit f _ inside, BitVec.getLsbD_or]

end Field

structure Filled (n : Nat) where
  field : Field n
  value : BitVec field.width

def combine : List (Filled n) → BitVec n
  | [] => 0
  | f :: fields => f.field.put f.value ||| combine fields

structure Packing (n : Nat) where
  fields : List (Filled n)
  apart : fields.Pairwise fun f g => f.field.Apart g.field

namespace Packing

def word (p : Packing n) : BitVec n := combine p.fields

theorem readOthers {f : Field n} {fields : List (Filled n)} (apart : ∀ g ∈ fields, f.Apart g.field) :
    f.read (combine fields) = 0 := by
  induction fields with
  | nil => exact f.readZero
  | cons g fields ih =>
    rw [List.forall_mem_cons] at apart
    rw [combine, f.readOr, Field.readApart apart.1, ih apart.2]
    simp

theorem readBack (p : Packing n) {f : Filled n} (mem : f ∈ p.fields) : f.field.read p.word = f.value := by
  obtain ⟨fields,apart⟩ := p
  change f ∈ fields at mem
  change f.field.read (combine fields) = f.value
  induction fields with
  | nil => cases mem
  | cons g fields ih =>
    rw [List.pairwise_cons] at apart
    rw [combine, f.field.readOr]
    rcases List.mem_cons.mp mem with rfl | inside
    · rw [f.field.readPut, readOthers apart.1]
      simp
    · rw [Field.readApart (apart.1 f inside).symm, ih apart.2 inside]
      simp

theorem flagBack (p : Packing n) {offset : Nat} (inside : offset + 1 ≤ n) {flag : Bool}
    (mem : ⟨⟨offset,1,inside⟩,BitVec.ofBool flag⟩ ∈ p.fields) : p.word.getLsbD offset = flag := by
  have bit := congrArg (fun x => BitVec.getLsbD x 0) (p.readBack mem)
  change (Field.read ⟨offset,1,inside⟩ p.word).getLsbD 0 = (BitVec.ofBool flag).getLsbD 0 at bit
  rw [Field.readBit ⟨offset,1,inside⟩ p.word Nat.one_pos] at bit
  simpa using bit

end Packing
end PackedWord
