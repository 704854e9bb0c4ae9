import Mathlib.Algebra.Order.Ring.Abs
import Mathlib.Data.List.Defs
import Mathlib.Tactic.Linarith
import Perpetual.Checked
import Perpetual.Quote

/-! The funding rate that is computed from the quotes of an hour, and how it depends on them. -/
namespace Perpetual
namespace FundingRate

def HOURS_PER_EPOCH : ℚ := 8

def SECONDS_PER_HOUR : ℚ := 3600

def interestRate : ℚ := 125 / 10 ^ 7

def premium (avg_ask_price avg_bid_price index_price : ℚ) : ℚ :=
  max 0 (avg_ask_price - index_price) - max 0 (index_price - avg_bid_price)

def premiums (avg_ask_prices avg_bid_prices index_prices : List ℚ) : List ℚ :=
  List.zipWith3 premium avg_ask_prices avg_bid_prices index_prices

/-- `div` divides by a number other than zero. No data points give a NaN, the rate `none`. -/
def calculateFundingrate (div : ℚ → ℚ → ℚ) (avg_ask_prices avg_bid_prices index_prices : List ℚ) :
    Checked (Option ℚ) := do
  let NUM_OF_DATAPOINTS := avg_ask_prices.length
  Checked.require (avg_bid_prices.length = NUM_OF_DATAPOINTS) "num of data points in bid prices is not 60"
  Checked.require (index_prices.length = NUM_OF_DATAPOINTS) "num of data points in index prices is not 60"
  if NUM_OF_DATAPOINTS = 0 then
    return none
  else
    let premiumLastHour :=
      div ((premiums avg_ask_prices avg_bid_prices index_prices).foldl (· + ·) 0) NUM_OF_DATAPOINTS
    return some (div (div premiumLastHour HOURS_PER_EPOCH + interestRate) SECONDS_PER_HOUR)

def rateOf (div : ℚ → ℚ → ℚ) (total points : ℚ) : ℚ :=
  div (div (div total points) HOURS_PER_EPOCH + interestRate) SECONDS_PER_HOUR

theorem calculated (div : ℚ → ℚ → ℚ) {asks bids indexes : List ℚ} (nonempty : asks ≠ [])
    (sameBids : bids.length = asks.length) (sameIndexes : indexes.length = asks.length) :
    calculateFundingrate div asks bids indexes =
      .ok (some (rateOf div (premiums asks bids indexes).sum asks.length)) := by
  have points : asks.length ≠ 0 := by simpa using nonempty
  rw [calculateFundingrate, Checked.requireThen sameBids, Checked.requireThen sameIndexes, if_neg points,
    ← List.sum_eq_foldl]
  rfl

theorem rateMono {div : ℚ → ℚ → ℚ} (mono : ∀ x x' y, x ≤ x' → 0 < y → div x y ≤ div x' y)
    {total total' points : ℚ} (le : total ≤ total') (some : 0 < points) :
    rateOf div total points ≤ rateOf div total' points := by
  have hourly := mono _ _ HOURS_PER_EPOCH (mono _ _ points le some) (by norm_num [HOURS_PER_EPOCH])
  exact mono _ _ SECONDS_PER_HOUR (add_le_add_left hourly interestRate) (by norm_num [SECONDS_PER_HOUR])

theorem rateInjective {total total' points : ℚ} (some : 0 < points) :
    rateOf (· / ·) total points = rateOf (· / ·) total' points ↔ total = total' := by
  constructor
  · intro same
    simp only [rateOf, HOURS_PER_EPOCH, SECONDS_PER_HOUR] at same
    field_simp at same
    linarith
  · exact congrArg fun total => rateOf (· / ·) total points

theorem premiumMono {ask ask' bid bid' index : ℚ} (asked : ask ≤ ask') (wanted : bid ≤ bid') :
    premium ask bid index ≤ premium ask' bid' index := by
  unfold premium
  gcongr

theorem premiumScaled {c : ℚ} (factor : 0 ≤ c) (ask bid index : ℚ) :
    premium (c * ask) (c * bid) (c * index) = c * premium ask bid index := by
  simp only [premium, ← mul_sub, mul_sub c (max _ _), mul_max_of_nonneg _ _ factor, mul_zero]

theorem totalMono {asks asks' bids bids' : List ℚ} (asked : List.Forall₂ (· ≤ ·) asks asks')
    (wanted : List.Forall₂ (· ≤ ·) bids bids') (indexes : List ℚ) :
    (premiums asks bids indexes).sum ≤ (premiums asks' bids' indexes).sum := by
  induction asked generalizing bids bids' indexes with
  | nil => rfl
  | cons ask _ ih =>
    cases wanted with
    | nil => rfl
    | cons bid wanted =>
      cases indexes with
      | nil => rfl
      | cons index indexes =>
        exact add_le_add (premiumMono ask bid) (ih wanted indexes)

theorem totalScaled {c : ℚ} (factor : 0 ≤ c) (asks bids indexes : List ℚ) :
    (premiums (asks.map (c * ·)) (bids.map (c * ·)) (indexes.map (c * ·))).sum =
      c * (premiums asks bids indexes).sum := by
  induction asks generalizing bids indexes with
  | nil => simp [premiums, List.zipWith3]
  | cons ask asks ih =>
    cases bids with
    | nil => simp [premiums, List.zipWith3]
    | cons bid bids =>
      cases indexes with
      | nil => simp [premiums, List.zipWith3]
      | cons index indexes =>
        have head := premiumScaled factor ask bid index
        have tail := ih bids indexes
        simp only [premiums] at tail
        simp only [premiums, List.map_cons, List.zipWith3, List.sum_cons, head, tail, mul_add]

def above (asks indexes : List ℚ) : ℚ := (List.zipWith (fun ask index => max 0 (ask - index)) asks indexes).sum

def below (bids indexes : List ℚ) : ℚ := (List.zipWith (fun bid index => max 0 (index - bid)) bids indexes).sum

theorem totalSplit {asks bids indexes : List ℚ} (sameBids : bids.length = asks.length)
    (sameIndexes : indexes.length = asks.length) :
    (premiums asks bids indexes).sum = above asks indexes - below bids indexes := by
  induction asks generalizing bids indexes with
  | nil =>
    rw [List.length_nil, List.length_eq_zero_iff] at sameBids
    simp [sameBids, premiums, List.zipWith3, above, below]
  | cons ask asks ih =>
    obtain ⟨bid,bids,rfl⟩ := List.exists_cons_of_length_eq_add_one sameBids
    obtain ⟨index,indexes,rfl⟩ := List.exists_cons_of_length_eq_add_one sameIndexes
    have rest := ih (Nat.succ.inj sameBids) (Nat.succ.inj sameIndexes)
    simp only [premiums, above, below] at rest
    simp only [premiums, above, below, List.zipWith3, List.zipWith_cons_cons, List.sum_cons, rest, premium]
    ring

/-- All prices in a unit `c` times smaller give the same rate. -/
def Unitless (c : ℚ) (asks bids indexes : List ℚ) : Prop :=
  calculateFundingrate (· / ·) (asks.map (c * ·)) (bids.map (c * ·)) (indexes.map (c * ·)) =
    calculateFundingrate (· / ·) asks bids indexes

instance (c : ℚ) (asks bids indexes : List ℚ) : Decidable (Unitless c asks bids indexes) :=
  inferInstanceAs (Decidable (_ = _))

def Rises (div : ℚ → ℚ → ℚ) (asks bids indexes : List ℚ) : Prop :=
  ∀ asks' bids', List.Forall₂ (· ≤ ·) asks asks' → List.Forall₂ (· ≤ ·) bids bids' →
    ∃ rate rate', calculateFundingrate div asks bids indexes = .ok (some rate) ∧
      calculateFundingrate div asks' bids' indexes = .ok (some rate') ∧ rate ≤ rate'

theorem rises {div : ℚ → ℚ → ℚ} (mono : ∀ x x' y, x ≤ x' → 0 < y → div x y ≤ div x' y)
    {asks bids indexes : List ℚ} (nonempty : asks ≠ []) (sameBids : bids.length = asks.length)
    (sameIndexes : indexes.length = asks.length) : Rises div asks bids indexes := by
  intro asks' bids' asked wanted
  have points : (0 : ℚ) < asks.length := by exact_mod_cast List.length_pos_iff.mpr nonempty
  have same := asked.length_eq
  have nonempty' : asks' ≠ [] := by
    rw [← List.length_pos_iff, ← same]
    exact List.length_pos_iff.mpr nonempty
  have before := calculated div nonempty sameBids sameIndexes
  have after := calculated div nonempty'
    (wanted.length_eq.symm.trans (sameBids.trans same)) (sameIndexes.trans same)
  rw [← same] at after
  exact ⟨_,_,before,after,rateMono mono (totalMono asked wanted indexes) points⟩

theorem fundingRateUnitless {asks bids indexes : List ℚ} {c : ℚ} (nonempty : asks ≠ [])
    (sameBids : bids.length = asks.length) (sameIndexes : indexes.length = asks.length) (factor : 0 < c) :
    (Unitless c asks bids indexes ∧ Rises (· / ·) asks bids indexes ↔
      c = 1 ∨ above asks indexes = below bids indexes) ∧ Rises BigNumber.div asks bids indexes := by
  have exactRises : Rises (· / ·) asks bids indexes :=
    rises (fun _ _ _ le some => (div_le_div_iff_of_pos_right some).mpr le) nonempty sameBids sameIndexes
  have rounded : Rises BigNumber.div asks bids indexes :=
    rises (fun _ _ _ => BigNumber.divMono) nonempty sameBids sameIndexes
  have points : (0 : ℚ) < asks.length := by exact_mod_cast List.length_pos_iff.mpr nonempty
  refine ⟨?_,rounded⟩
  rw [and_iff_left exactRises, Unitless, calculated _ nonempty sameBids sameIndexes,
    calculated _ (by simpa using nonempty) (by simpa using sameBids) (by simpa using sameIndexes),
    List.length_map, totalScaled factor.le, Except.ok.injEq, Option.some.injEq, rateInjective points,
    totalSplit sameBids sameIndexes, mul_left_eq_self₀, sub_eq_zero]

theorem sampleUnitless : Unitless 2 [110] [90] [100] := by
  have sample := fundingRateUnitless (c := 2) (show ([110] : List ℚ) ≠ [] by decide)
    (show ([90] : List ℚ).length = 1 from rfl) (show ([100] : List ℚ).length = 1 from rfl) (by norm_num)
  exact (sample.1.mpr (.inr (by norm_num [above, below]))).1

theorem scaledQuotesChangeRate :
    ¬∀ (asks bids indexes : List ℚ) (c : ℚ), asks ≠ [] → bids.length = asks.length →
      indexes.length = asks.length → (∀ index ∈ indexes, 0 < index) → 0 < c →
      Unitless c asks bids indexes ∧ Rises (· / ·) asks bids indexes := by
  intro claim
  have same := (claim [110] [105] [100] 2 (by decide) rfl rfl (by norm_num) (by norm_num)).1
  revert same
  decide +kernel

end FundingRate
end Perpetual
