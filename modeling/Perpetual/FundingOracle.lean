import Mathlib.Algebra.Order.Group.Unbundled.Abs
import Mathlib.Data.List.Pairwise
import Perpetual.Storage

/-! `P1FundingOracle`: the rate that its provider sets, moved towards the requested one as
far as the time since the last update allows. -/
namespace Perpetual

inductive FundingLog where
  | fundingRateUpdated (fundingRate : Bytes32)
  | fundingRateProviderSet (fundingRateProvider : Address)
  deriving DecidableEq, Repr

structure FundingOracle where
  owner : Address
  fundingRate : Index
  fundingRateProvider : Address
  logs : List FundingLog
  deriving DecidableEq, Repr

namespace P1FundingOracle

def BASE : Uint128 := 1000000000000000000#128

def MAX_ABS_VALUE : Uint128 := BASE * 75 / 10000 / 28800

def MAX_ABS_DIFF_PER_SECOND : Uint128 := MAX_ABS_VALUE * 2 / 2700

@[simp] theorem maxAbsValueNat : MAX_ABS_VALUE.toNat = 260416666666 := rfl

@[simp] theorem maxAbsDiffNat : MAX_ABS_DIFF_PER_SECOND.toNat = 192901234 := rfl

def constructor (msg : Msg) (fundingRateProvider : Address) : Checked FundingOracle := do
  let timestamp ← SafeCast.toUint32 msg.timestamp
  let fundingRate : Index := ⟨timestamp,true,0⟩
  return ⟨msg.sender,fundingRate,fundingRateProvider,
    [.fundingRateUpdated fundingRate.toBytes32,.fundingRateProviderSet fundingRateProvider]⟩

def boundRate (timestamp : Uint256) (oldRateWithTimestamp : Index) (newRate : SignedInt) :
    Checked SignedInt := do
  let oldRate : SignedInt := ⟨widen oldRateWithTimestamp.value,oldRateWithTimestamp.isPositive⟩
  let timeDelta ← SafeMath.sub timestamp (widen oldRateWithTimestamp.timestamp)
  let maxDiff ← SafeMath.mul (widen MAX_ABS_DIFF_PER_SECOND) timeDelta
  if SignedMath.gt newRate oldRate then
    let upperBound := SignedMath.min (← SignedMath.add oldRate maxDiff) ⟨widen MAX_ABS_VALUE,true⟩
    return SignedMath.min newRate upperBound
  else
    let lowerBound := SignedMath.max (← SignedMath.sub oldRate maxDiff) ⟨widen MAX_ABS_VALUE,false⟩
    return SignedMath.max newRate lowerBound

def setFundingRate (msg : Msg) (newRate : SignedInt) (s : FundingOracle) :
    Checked (Index × FundingOracle) := do
  Checked.require (msg.sender = s.fundingRateProvider)
    "The funding rate can only be set by the funding rate provider"
  let boundedNewRate ← boundRate msg.timestamp s.fundingRate newRate
  let timestamp ← SafeCast.toUint32 msg.timestamp
  let value ← SafeCast.toUint128 boundedNewRate.value
  let boundedNewRateWithTimestamp : Index := ⟨timestamp,boundedNewRate.isPositive,value⟩
  return (boundedNewRateWithTimestamp,{ s with
    fundingRate := boundedNewRateWithTimestamp
    logs := s.logs ++ [.fundingRateUpdated boundedNewRateWithTimestamp.toBytes32] })

def setFundingRateProvider (msg : Msg) (newProvider : Address) (s : FundingOracle) :
    Checked FundingOracle := do
  Checked.require (msg.sender = s.owner) "Ownable: caller is not the owner"
  return { s with
    fundingRateProvider := newProvider
    logs := s.logs ++ [.fundingRateProviderSet newProvider] }

def getFunding (timeDelta : Uint256) (s : FundingOracle) : Checked (Bool × Uint256) := do
  let fundingAmount ← SafeMath.mul (widen s.fundingRate.value) timeDelta
  return (s.fundingRate.isPositive,fundingAmount)

/-! The rate as an integer, and how far it can have moved between two updates. -/

def clamp (lower upper x : Int) : Int := max lower (min x upper)

theorem clampInside {lower upper x : Int} (above : lower ≤ x) (below : x ≤ upper) :
    clamp lower upper x = x := by
  rw [clamp, min_eq_left below, max_eq_right above]

def InRange (rate : Index) : Prop := |rate.toInt| ≤ MAX_ABS_VALUE.toNat

def bounded (old : Int) (elapsed : Nat) (requested : Int) : Int :=
  let d : Int := MAX_ABS_DIFF_PER_SECOND.toNat * elapsed
  clamp (max (old - d) (-MAX_ABS_VALUE.toNat)) (min (old + d) MAX_ABS_VALUE.toNat) requested

structure Near (earlier later : Index) : Prop where
  time : earlier.timestamp.toNat ≤ later.timestamp.toNat
  rate : |later.toInt - earlier.toInt| ≤ MAX_ABS_DIFF_PER_SECOND.toNat *
    ((later.timestamp.toNat : Int) - earlier.timestamp.toNat)

theorem Near.refl (rate : Index) : Near rate rate := ⟨le_rfl,by simp⟩

theorem Near.trans {a b c : Index} (first : Near a b) (last : Near b c) : Near a c := by
  refine ⟨first.time.trans last.time,?_⟩
  have near := first.rate
  have near' := last.rate
  rw [abs_le] at near near' ⊢
  rw [maxAbsDiffNat] at near near' ⊢
  constructor <;> omega

theorem boundedRate {timestamp : Uint256} {old : Index} {newRate out : SignedInt}
    (inRange : InRange old) (ok : boundRate timestamp old newRate = .ok out) :
    old.timestamp.toNat ≤ timestamp.toNat ∧
    SignedMath.toInt out = bounded old.toInt (timestamp.toNat - old.timestamp.toNat)
      (SignedMath.toInt newRate) := by
  have oldInt : SignedMath.toInt ⟨widen old.value,old.isPositive⟩ = old.toInt := by
    simp [SignedMath.toInt, Index.toInt]
  have maxInt (s : Bool) : SignedMath.toInt ⟨widen MAX_ABS_VALUE,s⟩ = signed s 260416666666 := rfl
  rw [InRange, abs_le, maxAbsValueNat] at inRange
  simp only [boundRate, Checked.bindOk, SafeMath.subOk, SafeMath.mulOk, widenNat32, widenNat128,
    maxAbsDiffNat] at ok
  obtain ⟨timeDelta,elapsed,maxDiff,product,ok⟩ := ok
  refine ⟨by omega,?_⟩
  rw [show timestamp.toNat - old.timestamp.toNat = timeDelta.toNat by omega]
  split at ok
  · rename_i greater
    simp only [Checked.bindOk, Checked.pureOk] at ok
    obtain ⟨sum,add,rfl⟩ := ok
    rw [SignedMath.gtInt, oldInt] at greater
    rw [SignedMath.minInt, SignedMath.minInt, SignedMath.addInt add, oldInt, maxInt, Signed.positive]
    simp only [bounded, clamp, maxAbsDiffNat, maxAbsValueNat]
    omega
  · rename_i notGreater
    simp only [Checked.bindOk, Checked.pureOk] at ok
    obtain ⟨difference,sub,rfl⟩ := ok
    rw [SignedMath.gtInt, oldInt, not_lt] at notGreater
    rw [SignedMath.maxInt, SignedMath.maxInt, SignedMath.subInt sub, oldInt, maxInt, Signed.negative]
    simp only [bounded, clamp, maxAbsDiffNat, maxAbsValueNat]
    omega

theorem boundRateFits {timestamp : Uint256} {old : Index} (newRate : SignedInt)
    (later : old.timestamp.toNat ≤ timestamp.toNat) (fits : timestamp.toNat < 2 ^ 32) :
    ∃ out, boundRate timestamp old newRate = .ok out := by
  have timeDelta : SafeMath.sub timestamp (widen old.timestamp) =
      .ok (timestamp - widen old.timestamp) := by
    rw [SafeMath.sub, if_pos (by rw [widenNat32]; exact later)]
  have elapsed := SafeMath.subOk.mp timeDelta
  rw [widenNat32] at elapsed
  generalize timestamp - widen old.timestamp = delta at timeDelta elapsed
  have maxDiff : SafeMath.mul (widen MAX_ABS_DIFF_PER_SECOND) delta =
      .ok (widen MAX_ABS_DIFF_PER_SECOND * delta) := by
    rw [SafeMath.mul, if_pos (by rw [widenNat128, maxAbsDiffNat]; omega)]
  have product := SafeMath.mulOk.mp maxDiff
  rw [widenNat128, maxAbsDiffNat] at product
  generalize widen MAX_ABS_DIFF_PER_SECOND * delta = diff at maxDiff product
  have small : (SignedMath.toInt ⟨widen old.value,old.isPositive⟩).natAbs < 2 ^ 128 := by
    rw [SignedMath.toInt, Signed.natAbs, widenNat128]
    exact old.value.isLt
  simp only [boundRate, Checked.bindOk, timeDelta, maxDiff, Except.ok.injEq, exists_eq_left']
  split
  · obtain ⟨sum,add⟩ := (SignedMath.addComputes ⟨widen old.value,old.isPositive⟩ diff).returns (by omega)
    exact ⟨_,by rw [add]; rfl⟩
  · obtain ⟨difference,sub⟩ := (SignedMath.subComputes ⟨widen old.value,old.isPositive⟩ diff).returns (by omega)
    exact ⟨_,by rw [sub]; rfl⟩

theorem boundedInRange {old : Int} (inRange : |old| ≤ MAX_ABS_VALUE.toNat) (elapsed : Nat)
    (requested : Int) : |bounded old elapsed requested| ≤ MAX_ABS_VALUE.toNat := by
  rw [abs_le, maxAbsValueNat] at inRange ⊢
  simp only [bounded, clamp, maxAbsDiffNat, maxAbsValueNat]
  omega

theorem boundedNear {old : Int} (inRange : |old| ≤ MAX_ABS_VALUE.toNat) (elapsed : Nat)
    (requested : Int) : |bounded old elapsed requested - old| ≤ MAX_ABS_DIFF_PER_SECOND.toNat * elapsed := by
  rw [abs_le, maxAbsValueNat] at inRange
  rw [abs_le, maxAbsDiffNat]
  simp only [bounded, clamp, maxAbsDiffNat, maxAbsValueNat]
  omega

/-! One update, and runs of them. -/

structure Update where
  time : Uint256
  requested : SignedInt
  before : Index
  stored : Index
  deriving DecidableEq, Repr

def Update.elapsed (u : Update) : Nat := u.time.toNat - u.before.timestamp.toNat

structure Updated (u : Update) : Prop where
  time : u.stored.timestamp.toNat = u.time.toNat
  clamped : u.stored.toInt = bounded u.before.toInt u.elapsed (SignedMath.toInt u.requested)
  inRange : InRange u.stored
  near : Near u.before u.stored

theorem updated {msg : Msg} {newRate : SignedInt} {s s' : FundingOracle} {stored : Index}
    (inRange : InRange s.fundingRate) (ok : setFundingRate msg newRate s = .ok (stored,s')) :
    Updated ⟨msg.timestamp,newRate,s.fundingRate,stored⟩ ∧ s'.fundingRate = stored := by
  simp only [setFundingRate, Checked.bindOk, Checked.requireOk, exists_const, SafeCast.toUint32,
    SafeCast.toUint128, SafeCast.toUintOk, Checked.pureOk, Prod.mk.injEq] at ok
  obtain ⟨_,rate,bound,timestamp,time,value,same,rfl,rfl⟩ := ok
  obtain ⟨later,clamped⟩ := boundedRate inRange bound
  have stored : Index.toInt ⟨timestamp,rate.isPositive,value⟩ = SignedMath.toInt rate := by
    rw [Index.toInt, SignedMath.toInt, same]
  have later' : s.fundingRate.timestamp.toNat ≤ timestamp.toNat := by omega
  refine ⟨⟨time,stored.trans clamped,?_,later',?_⟩,rfl⟩
  · rw [InRange, stored, clamped]
    exact boundedInRange inRange _ _
  · have near := boundedNear inRange (msg.timestamp.toNat - s.fundingRate.timestamp.toNat)
      (SignedMath.toInt newRate)
    rw [Nat.cast_sub later] at near
    rw [stored, clamped]
    dsimp only
    rw [time]
    exact near

/-- Any calls by anyone. A call that reverts changes nothing, and the owner moves as `Ownable`
moves it. -/
inductive Run (start : FundingOracle) : List Update → FundingOracle → Prop where
  | none : Run start [] start
  | update {us : List Update} {s s' : FundingOracle} (before : Run start us s) (msg : Msg)
      (newRate : SignedInt) (stored : Index) (ok : setFundingRate msg newRate s = .ok (stored,s')) :
      Run start (us ++ [⟨msg.timestamp,newRate,s.fundingRate,stored⟩]) s'
  | provider {us : List Update} {s s' : FundingOracle} (before : Run start us s) (msg : Msg)
      (newProvider : Address) (ok : setFundingRateProvider msg newProvider s = .ok s') : Run start us s'
  | owner {us : List Update} {s : FundingOracle} (before : Run start us s) (owner : Address) :
      Run start us { s with owner := owner }

def rates (start : FundingOracle) (us : List Update) : List Index := start.fundingRate::us.map Update.stored

structure Kept (start : FundingOracle) (us : List Update) (s : FundingOracle) : Prop where
  inRange : InRange s.fundingRate
  updated : ∀ u ∈ us, Updated u
  apart : (rates start us).Pairwise Near
  last : ∀ rate ∈ rates start us, Near rate s.fundingRate

theorem runKept {start s : FundingOracle} {us : List Update} (inRange : InRange start.fundingRate)
    (run : Run start us s) : Kept start us s := by
  induction run with
  | none =>
    refine ⟨inRange,fun u mem => (List.not_mem_nil mem).elim,List.pairwise_singleton _ _,?_⟩
    intro rate mem
    rw [List.mem_singleton.mp mem]
    exact .refl _
  | @update us s s' before msg newRate stored ok ih =>
    obtain ⟨now,holds⟩ := updated ih.inRange ok
    have split : rates start (us ++ [⟨msg.timestamp,newRate,s.fundingRate,stored⟩]) =
        rates start us ++ [stored] := by
      simp only [rates, List.map_append, List.map_cons, List.map_nil, List.cons_append]
    have later : ∀ rate ∈ rates start us, Near rate stored :=
      fun rate mem => (ih.last rate mem).trans now.near
    refine ⟨holds ▸ now.inRange,?_,?_,?_⟩
    · intro u mem
      rcases List.mem_append.mp mem with earlier | last
      · exact ih.updated u earlier
      · rw [List.mem_singleton.mp last]
        exact now
    · rw [split, List.pairwise_append]
      refine ⟨ih.apart,List.pairwise_singleton _ _,fun rate mem last inside => ?_⟩
      rw [List.mem_singleton.mp inside]
      exact later rate mem
    · rw [split, holds]
      intro rate mem
      rcases List.mem_append.mp mem with earlier | last
      · exact later rate earlier
      · rw [List.mem_singleton.mp last]
        exact .refl _
  | provider before msg newProvider ok ih =>
    simp only [setFundingRateProvider, Checked.bindOk, Checked.requireOk, exists_const,
      Checked.pureOk] at ok
    obtain ⟨_,rfl⟩ := ok
    exact ⟨ih.inRange,ih.updated,ih.apart,ih.last⟩
  | owner before owner ih => exact ⟨ih.inRange,ih.updated,ih.apart,ih.last⟩

theorem setFundingRateFits {msg : Msg} {s : FundingOracle} (inRange : InRange s.fundingRate)
    (newRate : SignedInt) (sender : msg.sender = s.fundingRateProvider)
    (later : s.fundingRate.timestamp.toNat ≤ msg.timestamp.toNat) (fits : msg.timestamp.toNat < 2 ^ 32) :
    ∃ out, setFundingRate msg newRate s = .ok out := by
  obtain ⟨rate,bound⟩ := boundRateFits newRate later fits
  have stored := boundedInRange inRange (msg.timestamp.toNat - s.fundingRate.timestamp.toNat)
    (SignedMath.toInt newRate)
  rw [← (boundedRate inRange bound).2] at stored
  have small : rate.value.toNat < 2 ^ 128 := by
    rw [SignedMath.toInt, ← Int.natCast_natAbs, Signed.natAbs, maxAbsValueNat] at stored
    omega
  have timestamp : (msg.timestamp.setWidth 32).toNat = msg.timestamp.toNat := by
    rw [BitVec.toNat_setWidth, Nat.mod_eq_of_lt fits]
  have value : (rate.value.setWidth 128).toNat = rate.value.toNat := by
    rw [BitVec.toNat_setWidth, Nat.mod_eq_of_lt small]
  simp only [setFundingRate, Checked.bindOk, Checked.requireOk, exists_const, SafeCast.toUint32,
    SafeCast.toUint128, SafeCast.toUintOk, Checked.pureOk]
  exact ⟨_,sender,rate,bound,_,timestamp,_,value,rfl⟩

/-- In every run from the deployment on: each stored rate is the requested one clamped around
the rate before it, an admissible request is stored as it is, every rate is in range, and any
two rates are as near as the time between them allows. The provider's next call succeeds. -/
theorem fundingRateBounded {msg₀ : Msg} {provider : Address} {start s : FundingOracle}
    {us : List Update} (deployed : constructor msg₀ provider = .ok start) (run : Run start us s) :
    (∀ u ∈ us, u.stored.timestamp.toNat = u.time.toNat ∧
      u.stored.toInt = bounded u.before.toInt u.elapsed (SignedMath.toInt u.requested) ∧
      (|SignedMath.toInt u.requested| ≤ MAX_ABS_VALUE.toNat →
        |SignedMath.toInt u.requested - u.before.toInt| ≤ MAX_ABS_DIFF_PER_SECOND.toNat * u.elapsed →
        u.stored.toInt = SignedMath.toInt u.requested)) ∧
    (∀ rate ∈ rates start us, |rate.toInt| ≤ MAX_ABS_VALUE.toNat) ∧
    (rates start us).Pairwise Near ∧
    ∀ (msg : Msg) (newRate : SignedInt), msg.sender = s.fundingRateProvider →
      s.fundingRate.timestamp.toNat ≤ msg.timestamp.toNat → msg.timestamp.toNat < 2 ^ 32 →
      ∃ out, setFundingRate msg newRate s = .ok out := by
  simp only [constructor, Checked.bindOk, Checked.pureOk] at deployed
  obtain ⟨timestamp,_,rfl⟩ := deployed
  have zero : InRange ⟨timestamp,true,0⟩ := by
    change |(0 : Int)| ≤ 260416666666
    decide
  have kept := runKept zero run
  refine ⟨fun u mem => ?_,fun rate mem => ?_,kept.apart,fun msg newRate sender later fits => ?_⟩
  · have now := kept.updated u mem
    refine ⟨now.time,now.clamped,fun small near => ?_⟩
    rw [now.clamped, bounded]
    rw [abs_le] at small near
    exact clampInside (by omega) (by omega)
  · rcases List.mem_cons.mp mem with rfl | later
    · exact zero
    · obtain ⟨u,inside,rfl⟩ := List.mem_map.mp later
      exact (kept.updated u inside).inRange
  · exact setFundingRateFits kept.inRange newRate sender later fits

def sampleOracle (rates : List Index) : FundingOracle where
  owner := 1
  fundingRate := rates.getLastD ⟨100,true,0⟩
  fundingRateProvider := 2
  logs := [.fundingRateUpdated (Index.toBytes32 ⟨100,true,0⟩),.fundingRateProviderSet 2] ++
    rates.map fun rate => .fundingRateUpdated rate.toBytes32

theorem sampleRatesBounded : ∃ us : List Update,
    us.map (fun u => u.stored.toInt) = [1929012340,-260416666666] ∧
    (rates (sampleOracle []) us).Pairwise Near := by
  have deployed : constructor ⟨1,100⟩ 2 = .ok (sampleOracle []) := by decide +kernel
  have rises : setFundingRate ⟨2,110⟩ ⟨10 ^ 30,true⟩ (sampleOracle []) =
      .ok (⟨110,true,1929012340⟩,sampleOracle [⟨110,true,1929012340⟩]) := by decide +kernel
  have falls : setFundingRate ⟨2,10000⟩ ⟨10 ^ 30,false⟩ (sampleOracle [⟨110,true,1929012340⟩]) =
      .ok (⟨10000,false,260416666666⟩,
        sampleOracle [⟨110,true,1929012340⟩,⟨10000,false,260416666666⟩]) := by decide +kernel
  have run := Run.update (.update .none _ _ _ rises) _ _ _ falls
  exact ⟨_,by decide +kernel,(fundingRateBounded deployed run).2.2.1⟩

end P1FundingOracle
end Perpetual
