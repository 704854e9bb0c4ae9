import Perpetual.Trade

/-! The checks on the final balances of a batch, decided exactly. The code divides the
margin side of each account by `10^18` before it compares two ratios. -/
namespace Perpetual
open Checked (FailsOnly)

theorem BaseMath.baseDivMulOnly (value baseValue : Uint256) :
    FailsOnly SafeMath.overflows (BaseMath.baseDivMul value baseValue) := by
  obtain ⟨quotient,divided⟩ := SafeMath.divFits (a := value) (b := BaseMath.BASE) (by decide)
  unfold BaseMath.baseDivMul
  rw [divided]
  exact SafeMath.mulOnly _ _

namespace Balance

theorem valuesOnly (b : Balance) (price : Uint256) :
    FailsOnly SafeMath.overflows (b.getPositiveAndNegativeValue price) := by
  unfold getPositiveAndNegativeValue
  refine (SafeMath.mulOnly _ _).bind fun marginValue _ => ?_
  refine (SafeMath.mulOnly _ _).bind fun positionValue _ => ?_
  split
  · exact (SafeMath.addOnly _ _).bind fun _ _ => .ok _
  · exact (SafeMath.addOnly _ _).bind fun _ _ => .ok _

theorem longDebtWhole {b : Balance} (long : b.positionIsPositive = true) (price : Nat) :
    10 ^ 18 ∣ b.negativeValue price := by
  rw [negativeValue, long, if_pos rfl, Nat.add_zero]
  split
  · exact Nat.dvd_zero _
  · exact Nat.dvd_mul_left _ _

theorem shortValueWhole {b : Balance} (short : b.positionIsPositive = false) (price : Nat) :
    10 ^ 18 ∣ b.positiveValue price := by
  rw [positiveValue, short, if_neg Bool.false_ne_true, Nat.add_zero]
  split
  · exact Nat.dvd_mul_left _ _
  · exact Nat.dvd_zero _

end Balance

namespace Trade
open Settlement

def Collateralized (context : Context) (b : Balance) : Prop :=
  b.negativeValue context.price.toNat * context.minCollateral.toNat ≤
    b.positiveValue context.price.toNat * 10 ^ 18

/-- The checks of an account that is not collateralized, as the code computes them. -/
structure Reduced (initial current : Balance) (price : Nat) : Prop where
  value : current.positiveValue price ≠ 0
  position : current.position.toNat ≤ initial.position.toNat
  sign : current.positionIsPositive = initial.positionIsPositive
  long : current.positionIsPositive = true → current.negativeValue price / 10 ^ 18 *
    initial.positiveValue price ≤ initial.negativeValue price / 10 ^ 18 * current.positiveValue price
  short : current.positionIsPositive = false → initial.positiveValue price / 10 ^ 18 *
    current.negativeValue price ≤ current.positiveValue price / 10 ^ 18 * initial.negativeValue price

structure NotWorse (initial current : Balance) (price : Nat) : Prop where
  value : current.positiveValue price ≠ 0
  position : current.position.toNat ≤ initial.position.toNat
  sign : current.positionIsPositive = initial.positionIsPositive
  debt : initial.negativeValue price ≠ 0
  ratio : initial.positiveValue price * current.negativeValue price ≤
    current.positiveValue price * initial.negativeValue price

theorem wholeRatio {a b c d : Nat} (ha : 10 ^ 18 ∣ a) (hc : 10 ^ 18 ∣ c) :
    a / 10 ^ 18 * b ≤ c / 10 ^ 18 * d ↔ a * b ≤ c * d := by
  obtain ⟨n,rfl⟩ := ha
  obtain ⟨m,rfl⟩ := hc
  rw [Nat.mul_div_cancel_left _ (by decide), Nat.mul_div_cancel_left _ (by decide), Nat.mul_assoc,
    Nat.mul_assoc, Nat.mul_le_mul_left_iff (by decide)]

theorem reducedExactly {initial current : Balance} {price : Nat} :
    Reduced initial current price ∧ initial.negativeValue price ≠ 0 ↔ NotWorse initial current price := by
  constructor
  · rintro ⟨reduced,debt⟩
    refine ⟨reduced.value,reduced.position,reduced.sign,debt,?_⟩
    cases side : current.positionIsPositive with
    | true =>
      have ratio := (wholeRatio (current.longDebtWhole side price)
        (initial.longDebtWhole (reduced.sign ▸ side) price)).mp (reduced.long side)
      rwa [Nat.mul_comm, Nat.mul_comm (Balance.positiveValue _ _)]
    | false =>
      exact (wholeRatio (initial.shortValueWhole (reduced.sign ▸ side) price)
        (current.shortValueWhole side price)).mp (reduced.short side)
  · intro kept
    refine ⟨⟨kept.value,kept.position,kept.sign,fun side => ?_,fun side => ?_⟩,kept.debt⟩
    · rw [wholeRatio (current.longDebtWhole side price)
        (initial.longDebtWhole (kept.sign ▸ side) price), Nat.mul_comm,
        Nat.mul_comm (Balance.negativeValue _ _)]
      exact kept.ratio
    · exact (wholeRatio (initial.shortValueWhole (kept.sign ▸ side) price)
        (current.shortValueWhole side price)).mpr kept.ratio

theorem verified {context : Context} {account : Address} {initial current : Balance} {u : Unit}
    (ok : verifyFinalBalance context account initial current = .ok u) :
    Collateralized context current ∨ NotWorse initial current context.price.toNat := by
  simp only [verifyFinalBalance, Checked.bindOk, Prod.exists, SafeMath.mulOk] at ok
  obtain ⟨pos,neg,values,left,hl,right,hr,last⟩ := ok
  obtain ⟨exactPos,exactNeg⟩ := Balance.valuesExact values
  have base : BaseMath.base.toNat = 10 ^ 18 := BaseMath.baseNat
  rw [base, exactPos] at hl
  rw [exactNeg] at hr
  split at last
  · rename_i enough
    rw [hl, hr] at enough
    exact .inl enough
  · simp only [Checked.bindOk, Prod.exists, Require.that, Checked.requireOk, exists_const] at last
    obtain ⟨pos₀,neg₀,values₀,some,smaller,sign,owed,last⟩ := last
    obtain ⟨exactPos₀,exactNeg₀⟩ := Balance.valuesExact values₀
    have value : current.positiveValue context.price.toNat ≠ 0 := by
      rw [← exactPos]
      exact fun none => some (BitVec.eq_of_toNat_eq none)
    have debt : initial.negativeValue context.price.toNat ≠ 0 := by
      rw [← exactNeg₀]
      exact fun none => owed (BitVec.eq_of_toNat_eq none)
    refine .inr (reducedExactly.mp ⟨?_,debt⟩)
    split at last
    · rename_i long
      simp only [Checked.bindOk, Checked.requireOk] at last
      obtain ⟨before,hb,after,ha,ratio⟩ := last
      rw [BaseMath.baseDivMulNat hb, BaseMath.baseDivMulNat ha, exactPos, exactNeg, exactPos₀,
        exactNeg₀] at ratio
      exact ⟨value,smaller,sign,fun _ => ratio,fun no => by rw [long] at no; cases no⟩
    · rename_i short
      simp only [Checked.bindOk, Checked.requireOk] at last
      obtain ⟨before,hb,after,ha,ratio⟩ := last
      rw [BaseMath.baseDivMulNat hb, BaseMath.baseDivMulNat ha, exactPos, exactNeg, exactPos₀,
        exactNeg₀] at ratio
      exact ⟨value,smaller,sign,fun yes => absurd yes short,fun _ => ratio⟩

theorem verifyOnly {context : Context} {account : Address} {initial current : Balance}
    (accepted : Collateralized context current ∨ NotWorse initial current context.price.toNat) :
    FailsOnly SafeMath.overflows (verifyFinalBalance context account initial current) := by
  unfold verifyFinalBalance
  refine (current.valuesOnly _).bind fun ⟨pos,neg⟩ values => ?_
  obtain ⟨exactPos,exactNeg⟩ := Balance.valuesExact values
  refine (SafeMath.mulOnly _ _).bind fun left hl => (SafeMath.mulOnly _ _).bind fun right hr => ?_
  have exactLeft := SafeMath.mulOk.mp hl
  have exactRight := SafeMath.mulOk.mp hr
  have base : BaseMath.base.toNat = 10 ^ 18 := BaseMath.baseNat
  rw [base, exactPos] at exactLeft
  rw [exactNeg] at exactRight
  split
  · exact .ok ()
  · rename_i short
    have kept : NotWorse initial current context.price.toNat := by
      refine accepted.resolve_left fun enough => short ?_
      rw [exactLeft, exactRight]
      exact enough
    have reduced := (reducedExactly.mpr kept).1
    refine (initial.valuesOnly _).bind fun ⟨pos₀,neg₀⟩ values₀ => ?_
    obtain ⟨exactPos₀,exactNeg₀⟩ := Balance.valuesExact values₀
    have value : pos ≠ 0 := fun none => kept.value (by rw [← exactPos, none]; rfl)
    have debt : neg₀ ≠ 0 := fun none => kept.debt (by rw [← exactNeg₀, none]; rfl)
    refine (FailsOnly.require value).bind fun _ _ => (FailsOnly.require kept.position).bind fun _ _ =>
      (FailsOnly.require kept.sign).bind fun _ _ => (FailsOnly.require debt).bind fun _ _ => ?_
    split
    · rename_i long
      refine (BaseMath.baseDivMulOnly _ _).bind fun before hb =>
        (BaseMath.baseDivMulOnly _ _).bind fun after ha => FailsOnly.require ?_
      rw [BaseMath.baseDivMulNat hb, BaseMath.baseDivMulNat ha, exactPos, exactNeg, exactPos₀, exactNeg₀]
      exact reduced.long long
    · rename_i side
      refine (BaseMath.baseDivMulOnly _ _).bind fun before hb =>
        (BaseMath.baseDivMulOnly _ _).bind fun after ha => FailsOnly.require ?_
      rw [BaseMath.baseDivMulNat hb, BaseMath.baseDivMulNat ha, exactPos, exactNeg, exactPos₀, exactNeg₀]
      exact reduced.short (Bool.eq_false_of_not_eq_true side)

abbrev Account := Address × Balance × Balance

def verifyAll (context : Context) (accounts : List Account) : Checked Unit :=
  verifyAccountsFinalBalances context (accounts.map fun a => a.1) (accounts.map fun a => a.2.1)
    (accounts.map fun a => a.2.2)

def Accepted (context : Context) (a : Account) : Prop :=
  Collateralized context a.2.2 ∨ NotWorse a.2.1 a.2.2 context.price.toNat

theorem verifiedAccepted {context : Context} {accounts : List Account} {u : Unit}
    (ok : verifyAll context accounts = .ok u) : ∀ a ∈ accounts, Accepted context a := by
  induction accounts with
  | nil => simp
  | cons a rest ih =>
    obtain ⟨_,first,others⟩ := Checked.bindOk.mp ok
    exact List.forall_mem_cons.mpr ⟨verified first,ih others⟩

theorem acceptedOnly {context : Context} {accounts : List Account}
    (accepted : ∀ a ∈ accounts, Accepted context a) :
    FailsOnly SafeMath.overflows (verifyAll context accounts) := by
  induction accounts with
  | nil => exact .ok ()
  | cons a rest ih =>
    obtain ⟨first,others⟩ := List.forall_mem_cons.mp accepted
    exact (verifyOnly first).bind fun _ _ => ih others

/-- Unless an operation overflows, the final balances pass exactly when every account is
collateralized or no worse off than before, ratios compared as exact integers. -/
theorem finalBalancesExact (context : Context) (accounts : List Account)
    (fits : ∀ reason, verifyAll context accounts = .error reason → reason ∉ SafeMath.overflows) :
    verifyAll context accounts = .ok () ↔ ∀ a ∈ accounts, Accepted context a := by
  constructor
  · exact verifiedAccepted
  · intro accepted
    obtain ⟨_,passes⟩ := (acceptedOnly accepted).succeeds fits
    exact passes

def sampleAccounts : List Account :=
  [(1,⟨false,true,90,10⟩,⟨false,true,45,5⟩),(2,⟨true,false,110,10⟩,⟨true,false,55,5⟩)]

def sampleContext : Context := ⟨10 ^ 19,12 * 10 ^ 17,Index.zero⟩

theorem sampleFinalBalances :
    verifyAll sampleContext sampleAccounts = .ok () ↔ ∀ a ∈ sampleAccounts, Accepted sampleContext a := by
  have passes : verifyAll sampleContext sampleAccounts = .ok () := by decide +kernel
  exact finalBalancesExact _ _ fun reason failed => by rw [passes] at failed; cases failed

end Trade
end Perpetual
