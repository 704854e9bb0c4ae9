import Mathlib.Data.BitVec
import Perpetual.Checked

/-! Machine words, and the checked arithmetic every contract uses on them.
Each operation has one law: it succeeds with the exact natural-number result,
or that result is not a word and it reverts. -/
namespace Perpetual

abbrev Uint32 := BitVec 32
abbrev Uint120 := BitVec 120
abbrev Uint128 := BitVec 128
abbrev Uint256 := BitVec 256
abbrev Bytes32 := BitVec 256
abbrev Address := BitVec 160

theorem nonzeroWord {x : Uint256} : x ≠ 0 ↔ 0 < x.toNat := by
  rw [Nat.pos_iff_ne_zero, ne_eq, ← BitVec.toNat_inj]
  rfl

namespace SafeMath

def add (a b : Uint256) : Checked Uint256 :=
  if a.toNat + b.toNat < 2 ^ 256 then .ok (a + b) else .error "SafeMath: addition overflow"

def sub (a b : Uint256) : Checked Uint256 :=
  if b.toNat ≤ a.toNat then .ok (a - b) else .error "SafeMath: subtraction overflow"

def mul (a b : Uint256) : Checked Uint256 :=
  if a.toNat * b.toNat < 2 ^ 256 then .ok (a * b)
  else .error "SafeMath: multiplication overflow"

def div (a b : Uint256) : Checked Uint256 :=
  if 0 < b.toNat then .ok (a / b) else .error "SafeMath: division by zero"

theorem addOk {a b c : Uint256} : add a b = .ok c ↔ c.toNat = a.toNat + b.toNat := by
  unfold add
  split
  · rename_i fits
    rw [Except.ok.injEq, ← BitVec.toNat_inj, BitVec.toNat_add, Nat.mod_eq_of_lt fits]
    exact eq_comm
  · have := c.isLt
    simp only [reduceCtorEq, false_iff]
    omega

theorem subOk {a b c : Uint256} : sub a b = .ok c ↔ c.toNat + b.toNat = a.toNat := by
  unfold sub
  split
  · rename_i fits
    rw [Except.ok.injEq, ← BitVec.toNat_inj, BitVec.toNat_sub_of_le (by simpa [BitVec.le_def])]
    omega
  · simp only [reduceCtorEq, false_iff]
    omega

theorem mulOk {a b c : Uint256} : mul a b = .ok c ↔ c.toNat = a.toNat * b.toNat := by
  unfold mul
  split
  · rename_i fits
    rw [Except.ok.injEq, ← BitVec.toNat_inj, BitVec.toNat_mul, Nat.mod_eq_of_lt fits]
    exact eq_comm
  · have := c.isLt
    simp only [reduceCtorEq, false_iff]
    omega

theorem divOk {a b c : Uint256} :
    div a b = .ok c ↔ 0 < b.toNat ∧ c.toNat = a.toNat / b.toNat := by
  unfold div
  split
  · rename_i positive
    rw [Except.ok.injEq, ← BitVec.toNat_inj, BitVec.toNat_udiv]
    exact ⟨fun h => ⟨positive, h.symm⟩, fun h => h.2.symm⟩
  · rename_i zero
    simp [zero]

theorem addFits {a b : Uint256} (fits : a.toNat + b.toNat < 2 ^ 256) : ∃ c, add a b = .ok c :=
  ⟨_,if_pos fits⟩

theorem subFits {a b : Uint256} (enough : b.toNat ≤ a.toNat) : ∃ c, sub a b = .ok c :=
  ⟨_,if_pos enough⟩

theorem mulFits {a b : Uint256} (fits : a.toNat * b.toNat < 2 ^ 256) : ∃ c, mul a b = .ok c :=
  ⟨_,if_pos fits⟩

theorem divFits {a b : Uint256} (positive : 0 < b.toNat) : ∃ c, div a b = .ok c :=
  ⟨_,if_pos positive⟩

def overflows : List String :=
  ["SafeMath: addition overflow","SafeMath: subtraction overflow","SafeMath: multiplication overflow"]

theorem addOnly (a b : Uint256) : Checked.FailsOnly overflows (add a b) := by
  unfold add
  split <;> simp [Checked.FailsOnly, overflows]

theorem mulOnly (a b : Uint256) : Checked.FailsOnly overflows (mul a b) := by
  unfold mul
  split <;> simp [Checked.FailsOnly, overflows]

end SafeMath

namespace SafeCast

/-- The narrowing casts share one check; each names the width in its message. -/
def toUint (w : Nat) (reason : String) (value : Uint256) : Checked (BitVec w) :=
  if value.toNat < 2 ^ w then .ok (value.setWidth w) else .error reason

def toUint128 : Uint256 → Checked Uint128 :=
  toUint 128 "SafeCast: value doesn't fit in 128 bits"

def toUint120 : Uint256 → Checked Uint120 :=
  toUint 120 "SafeCast: value doesn't fit in 120 bits"

def toUint32 : Uint256 → Checked Uint32 :=
  toUint 32 "SafeCast: value doesn't fit in 32 bits"

theorem toUintOk {w : Nat} {reason : String} {value : Uint256} {out : BitVec w} :
    toUint w reason value = .ok out ↔ out.toNat = value.toNat := by
  unfold toUint
  split
  · rename_i fits
    rw [Except.ok.injEq, ← BitVec.toNat_inj, BitVec.toNat_setWidth, Nat.mod_eq_of_lt fits]
    exact eq_comm
  · have := out.isLt
    simp only [reduceCtorEq, false_iff]
    omega

theorem toUintFits {w : Nat} {reason : String} {value : Uint256} (fits : value.toNat < 2 ^ w) :
    ∃ out, toUint w reason value = .ok out :=
  ⟨_,if_pos fits⟩

end SafeCast

def widen {w : Nat} (x : BitVec w) : Uint256 := x.setWidth 256

theorem widenNat {w : Nat} (narrow : w ≤ 256) (x : BitVec w) : (widen x).toNat = x.toNat :=
  BitVec.toNat_setWidth_of_le narrow

@[simp] theorem widenNat120 (x : Uint120) : (widen x).toNat = x.toNat := widenNat (by decide) x

@[simp] theorem widenNat128 (x : Uint128) : (widen x).toNat = x.toNat := widenNat (by decide) x

@[simp] theorem widenNat32 (x : Uint32) : (widen x).toNat = x.toNat := widenNat (by decide) x

end Perpetual
