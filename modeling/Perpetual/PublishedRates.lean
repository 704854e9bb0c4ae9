import Perpetual.FundingOracle
import Perpetual.OrderIdentity

/-! The funding rate as the client publishes it and reads it (`funding_oracle.ts`, `types.ts`). -/
namespace Perpetual

namespace BaseValue

def negated (x : BaseValue) : BaseValue where
  value := -x.value
  isNegative := !x.isNegative
  signed := by
    intro some'
    rw [neg_ne_zero] at some'
    rw [x.signed some', ← decide_not, decide_eq_decide, not_lt, neg_lt_zero]
    exact ⟨fun nonneg => lt_of_le_of_ne nonneg some'.symm,le_of_lt⟩

def fromSolidity (solidityValue : Nat) (isPositive : Bool) : BaseValue :=
  let value := ofValue (solidityValue / 10 ^ BASE_DECIMALS)
  if isPositive then value else value.negated

def toSoliditySignedInt (x : BaseValue) : Checked SignedInt := do
  let value ← SignedOrder.uint256 x.toSolidity
  return ⟨value,!x.isNegative⟩

end BaseValue

namespace FundingClient

structure FundingRateBounds where
  maxAbsValue : BaseValue
  maxAbsDiffPerSecond : BaseValue

def getBounds : FundingRateBounds where
  maxAbsValue := .fromSolidity P1FundingOracle.MAX_ABS_VALUE.toNat true
  maxAbsDiffPerSecond := .fromSolidity P1FundingOracle.MAX_ABS_DIFF_PER_SECOND.toNat true

def getFunding (timeDeltaSeconds : ℚ) (s : FundingOracle) : Checked BaseValue := do
  let timeDelta ← SignedOrder.uint256 (BigNumber.toFixed0 timeDeltaSeconds)
  let (isPositive,funding) ← P1FundingOracle.getFunding timeDelta s
  return .fromSolidity funding.toNat isPositive

def getFundingRate (s : FundingOracle) : Checked BaseValue := getFunding 1 s

def setFunding (msg : Msg) (newFunding : BaseValue) (s : FundingOracle) : Checked FundingOracle := do
  let newRate ← newFunding.toSoliditySignedInt
  let (_,s') ← P1FundingOracle.setFundingRate msg newRate s
  return s'

def getBoundedFundingRate (msg : Msg) (fundingRate : BaseValue) (s : FundingOracle) : Checked BaseValue := do
  let newRate ← fundingRate.toSoliditySignedInt
  let (result,_) ← P1FundingOracle.setFundingRate msg newRate s
  return .fromSolidity result.value.toNat result.isPositive

/-! What is read of what was sent. -/

theorem fromValue (n : Nat) (isPositive : Bool) :
    (BaseValue.fromSolidity n isPositive).value * 10 ^ BaseValue.BASE_DECIMALS = (signed isPositive n : ℤ) := by
  have unit : (10 : ℚ) ^ BaseValue.BASE_DECIMALS ≠ 0 := by positivity
  have whole : (n : ℚ) / 10 ^ BaseValue.BASE_DECIMALS * 10 ^ BaseValue.BASE_DECIMALS = n := div_mul_cancel₀ _ unit
  cases isPositive with
  | true => exact whole
  | false =>
    change -((n : ℚ) / 10 ^ BaseValue.BASE_DECIMALS) * 10 ^ BaseValue.BASE_DECIMALS = ((-(n : ℤ) : ℤ) : ℚ)
    rw [neg_mul, whole, Int.cast_neg, Int.cast_natCast]

theorem sentInt {x : BaseValue} {sent : SignedInt} (ok : x.toSoliditySignedInt = .ok sent) :
    SignedMath.toInt sent = x.at18 := by
  simp only [BaseValue.toSoliditySignedInt, Checked.bindOk, SignedOrder.uint256Ok, Checked.pureOk] at ok
  obtain ⟨value,same,rfl⟩ := ok
  rw [BaseValue.at18Signed, SignedMath.toInt]
  cases x.isNegative with
  | true => rw [if_pos rfl, Bool.not_true, Signed.negative, same]
  | false => rw [if_neg Bool.false_ne_true, Bool.not_false, Signed.positive, same]

theorem rateRead (s : FundingOracle) :
    getFundingRate s = .ok (.fromSolidity s.fundingRate.value.toNat s.fundingRate.isPositive) := by
  have one : SignedOrder.uint256 (BigNumber.toFixed0 1) = .ok 1 :=
    SignedOrder.uint256Ok.mpr (BigNumber.toFixed0Int 1).symm
  have amount : SafeMath.mul (widen s.fundingRate.value) 1 = .ok (widen s.fundingRate.value) :=
    SafeMath.mulOk.mpr (Nat.mul_one _).symm
  rw [getFundingRate, getFunding, one, Checked.okBind, P1FundingOracle.getFunding, amount, Checked.okBind,
    pure_bind]
  change Except.ok (BaseValue.fromSolidity (widen s.fundingRate.value).toNat _) = _
  rw [widenNat128]

theorem readInt (s : FundingOracle) : ∃ rate, getFundingRate s = .ok rate ∧
    rate.value * 10 ^ BaseValue.BASE_DECIMALS = s.fundingRate.toInt ∧ rate.at18 = s.fundingRate.toInt := by
  have value := fromValue s.fundingRate.value.toNat s.fundingRate.isPositive
  refine ⟨_,rateRead s,value,?_⟩
  rw [BaseValue.at18, value, BigNumber.toFixed0Int]
  rfl

/-! The rate on its way to what is asked for. -/

theorem boundedTwice {old requested : Int} (inRange : |old| ≤ P1FundingOracle.MAX_ABS_VALUE.toNat) (first last : Nat) :
    P1FundingOracle.bounded (P1FundingOracle.bounded old first requested) last requested =
      P1FundingOracle.bounded old (first + last) requested := by
  rw [abs_le, P1FundingOracle.maxAbsValueNat] at inRange
  simp only [P1FundingOracle.bounded, P1FundingOracle.clamp, P1FundingOracle.maxAbsDiffNat,
    P1FundingOracle.maxAbsValueNat, Nat.cast_add]
  omega

theorem boundedNow {old : Int} (inRange : |old| ≤ P1FundingOracle.MAX_ABS_VALUE.toNat) (requested : Int) :
    P1FundingOracle.bounded old 0 requested = old := by
  rw [abs_le, P1FundingOracle.maxAbsValueNat] at inRange
  simp only [P1FundingOracle.bounded, P1FundingOracle.clamp, P1FundingOracle.maxAbsDiffNat,
    P1FundingOracle.maxAbsValueNat]
  omega

/-- The client publishes one rate, any number of times and from any address. The rest is done by others. -/
inductive Publishes (rate : BaseValue) (start : FundingOracle) : FundingOracle → Prop where
  | none : Publishes rate start start
  | funding {s s' : FundingOracle} (before : Publishes rate start s) (msg : Msg)
      (ok : setFunding msg rate s = .ok s') : Publishes rate start s'
  | provider {s s' : FundingOracle} (before : Publishes rate start s) (msg : Msg) (newProvider : Address)
      (ok : P1FundingOracle.setFundingRateProvider msg newProvider s = .ok s') : Publishes rate start s'
  | owner {s : FundingOracle} (before : Publishes rate start s) (owner : Address) :
      Publishes rate start { s with owner := owner }

def elapsed (start s : FundingOracle) : Nat := s.fundingRate.timestamp.toNat - start.fundingRate.timestamp.toNat

structure Tracks (rate : BaseValue) (start s : FundingOracle) : Prop where
  inRange : P1FundingOracle.InRange s.fundingRate
  later : start.fundingRate.timestamp.toNat ≤ s.fundingRate.timestamp.toNat
  reached : s.fundingRate.toInt = P1FundingOracle.bounded start.fundingRate.toInt (elapsed start s) rate.at18

theorem publishedTracks {rate : BaseValue} {start s : FundingOracle}
    (inRange : P1FundingOracle.InRange start.fundingRate) (run : Publishes rate start s) : Tracks rate start s := by
  induction run with
  | none => exact ⟨inRange,le_rfl,by rw [elapsed, Nat.sub_self, boundedNow inRange]⟩
  | @funding s _ before msg ok ih =>
    simp only [setFunding, Checked.bindOk, Prod.exists, Checked.pureOk] at ok
    obtain ⟨sent,encoded,stored,s',ok,rfl⟩ := ok
    obtain ⟨now,holds⟩ := P1FundingOracle.updated ih.inRange ok
    have time := now.time
    have near := now.near.time
    have clamped := now.clamped
    dsimp only at time near clamped
    refine ⟨holds ▸ now.inRange,ih.later.trans (holds ▸ near),?_⟩
    have total : elapsed start s + (msg.timestamp.toNat - s.fundingRate.timestamp.toNat) = elapsed start s' := by
      have later := ih.later
      rw [elapsed, elapsed, holds]
      omega
    rw [holds, clamped, P1FundingOracle.Update.elapsed, ih.reached, sentInt encoded, boundedTwice inRange, total]
  | provider before msg newProvider ok ih =>
    simp only [P1FundingOracle.setFundingRateProvider, Checked.bindOk, Checked.requireOk, exists_const,
      Checked.pureOk] at ok
    obtain ⟨_,rfl⟩ := ok
    exact ⟨ih.inRange,ih.later,ih.reached⟩
  | owner before owner ih => exact ⟨ih.inRange,ih.later,ih.reached⟩

theorem fixedBetween {x : ℚ} {low high : ℤ} (above : low ≤ x) (below : x ≤ high) :
    low ≤ BigNumber.toFixed0 x ∧ BigNumber.toFixed0 x ≤ high := by
  rw [← BigNumber.toFixed0Int low, ← BigNumber.toFixed0Int high]
  exact ⟨BigNumber.toFixed0Mono above,BigNumber.toFixed0Mono below⟩

theorem fixedNear (x : ℚ) : |(BigNumber.toFixed0 x : ℚ) - x| ≤ 1 / 2 := by
  rw [BigNumber.toFixed0, abs_le]
  split
  · have low := Int.floor_le (-x + 1 / 2)
    have high := Int.lt_floor_add_one (-x + 1 / 2)
    push_cast
    constructor <;> linarith
  · have low := Int.floor_le (x + 1 / 2)
    have high := Int.lt_floor_add_one (x + 1 / 2)
    constructor <;> linarith

theorem boundsRead : getBounds.maxAbsValue.value * 10 ^ BaseValue.BASE_DECIMALS = P1FundingOracle.MAX_ABS_VALUE.toNat ∧
    getBounds.maxAbsDiffPerSecond.value * 10 ^ BaseValue.BASE_DECIMALS =
      P1FundingOracle.MAX_ABS_DIFF_PER_SECOND.toNat :=
  ⟨fromValue _ true,fromValue _ true⟩

theorem boundedAdmitted {rate before : BaseValue} {old : ℤ} {seconds : Nat}
    (read : before.value * 10 ^ BaseValue.BASE_DECIMALS = old) (small : |rate.value| ≤ getBounds.maxAbsValue.value)
    (near : |rate.value - before.value| ≤ getBounds.maxAbsDiffPerSecond.value * seconds) :
    P1FundingOracle.bounded old seconds rate.at18 = rate.at18 := by
  obtain ⟨most,step⟩ := boundsRead
  have unit : (0 : ℚ) < 10 ^ BaseValue.BASE_DECIMALS := by positivity
  rw [abs_le] at small near
  have inside : -(P1FundingOracle.MAX_ABS_VALUE.toNat : ℤ) ≤ rate.at18 ∧
      rate.at18 ≤ P1FundingOracle.MAX_ABS_VALUE.toNat := by
    refine fixedBetween ?_ ?_ <;> push_cast <;> rw [← most]
    · rw [← neg_mul]
      exact mul_le_mul_of_nonneg_right small.1 unit.le
    · exact mul_le_mul_of_nonneg_right small.2 unit.le
  have close : old - P1FundingOracle.MAX_ABS_DIFF_PER_SECOND.toNat * seconds ≤ rate.at18 ∧
      rate.at18 ≤ old + P1FundingOracle.MAX_ABS_DIFF_PER_SECOND.toNat * seconds := by
    have low := mul_le_mul_of_nonneg_right near.1 unit.le
    have high := mul_le_mul_of_nonneg_right near.2 unit.le
    refine fixedBetween ?_ ?_ <;> push_cast <;> rw [← read, ← step] <;> linarith
  rw [P1FundingOracle.bounded]
  exact P1FundingOracle.clampInside (max_le close.1 inside.1) (le_min close.2 inside.2)

theorem predicted {msg : Msg} {rate result : BaseValue} {s : FundingOracle}
    (ok : getBoundedFundingRate msg rate s = .ok result) :
    ∃ s', setFunding msg rate s = .ok s' ∧ getFundingRate s' = .ok result := by
  simp only [getBoundedFundingRate, Checked.bindOk, Prod.exists, Checked.pureOk] at ok
  obtain ⟨sent,encoded,stored,s',ok,rfl⟩ := ok
  have holds : s'.fundingRate = stored := by
    simp only [P1FundingOracle.setFundingRate, Checked.bindOk, Checked.requireOk, exists_const, Checked.pureOk,
      Prod.mk.injEq] at ok
    obtain ⟨_,_,_,_,_,_,_,rfl,rfl⟩ := ok
    rfl
  refine ⟨s',?_,by rw [rateRead, holds]⟩
  rw [setFunding, encoded, Checked.okBind, ok]
  rfl

theorem republished {msg : Msg} {now : BaseValue} {s s' : FundingOracle}
    (inRange : P1FundingOracle.InRange s.fundingRate) (read : now.at18 = s.fundingRate.toInt)
    (ok : setFunding msg now s = .ok s') : s'.fundingRate.toInt = s.fundingRate.toInt := by
  simp only [setFunding, Checked.bindOk, Prod.exists, Checked.pureOk] at ok
  obtain ⟨sent,encoded,stored,s',ok,rfl⟩ := ok
  obtain ⟨now',holds⟩ := P1FundingOracle.updated inRange ok
  have clamped := now'.clamped
  rw [P1FundingOracle.InRange, abs_le] at inRange
  dsimp only at clamped
  have forward (seconds : Nat) : (0 : ℤ) ≤ P1FundingOracle.MAX_ABS_DIFF_PER_SECOND.toNat * seconds :=
    mul_nonneg (Int.natCast_nonneg _) (Int.natCast_nonneg _)
  rw [holds, clamped, sentInt encoded, read, P1FundingOracle.bounded]
  exact P1FundingOracle.clampInside (max_le (sub_le_self _ (forward _)) inRange.1)
    (le_min (le_add_of_nonneg_right (forward _)) inRange.2)

end FundingClient
end Perpetual
