import Mathlib.Data.List.Pairwise
import Mathlib.Data.Rat.Floor
import Perpetual.FloorSums
import Perpetual.Settlement

/-! How often an account is settled matters by less than one unit for each settlement, and
never in favour of the account. -/
namespace Perpetual
namespace Settlement
variable {σ : Type}

/-- The global index moves on, the account is settled at some of its values, and in between
anything else happens that keeps its position: the margin may change as well. Lists the values
of the index, those at which the account was settled, and what settling has added to its margin. -/
inductive FundingRun (account : Address) (start : World σ) :
    List Index → List Index → Int → World σ → Prop where
  | start : FundingRun account start [start.perpetual.localIndexes account] [] 0 start
  | index {indexes moments : List Index} {change : Int} {w : World σ}
      (before : FundingRun account start indexes moments change w) (index : Index)
      (later : ∀ g ∈ indexes, g.timestamp.toNat < index.timestamp.toNat) :
      FundingRun account start (indexes ++ [index]) moments change w
  | settle {indexes moments : List Index} {change : Int} {w w' : World σ}
      (before : FundingRun account start indexes moments change w) (context : Context)
      (now : indexes.getLast? = some context.index) (balance : Balance)
      (ok : settleAccount context account w = .ok (balance,w')) :
      FundingRun account start indexes (moments ++ [context.index])
        (change + (balance.marginInt - (w.perpetual.balances account).marginInt)) w'
  | other {indexes moments : List Index} {change : Int} {w w' : World σ}
      (before : FundingRun account start indexes moments change w)
      (position : (w'.perpetual.balances account).positionInt = (w.perpetual.balances account).positionInt)
      (localIndex : w'.perpetual.localIndexes account = w.perpetual.localIndexes account) :
      FundingRun account start indexes moments change w'

def credit (position : Int) (index : Index) : Int := -(index.toInt * position)

def credited (position : Int) (start : Index) (moments : List Index) : Int :=
  floors (10 ^ 18) (credit position start) (moments.map (credit position))

theorem getLastDMap (position : Int) (start : Index) (moments : List Index) :
    (moments.map (credit position)).getLastD (credit position start) =
      credit position (moments.getLastD start) := by
  rw [List.getLastD_eq_getLast?, List.getLastD_eq_getLast?, List.getLast?_map]
  cases moments.getLast? <;> rfl

theorem creditedBounds (position : Int) (start : Index) {moments : List Index} {last : Index}
    (settledLast : moments.getLast? = some last) :
    10 ^ 18 * credited position start moments ≤ -((last.toInt - start.toInt) * position) ∧
    -((last.toInt - start.toInt) * position) <
      10 ^ 18 * (credited position start moments + moments.length) := by
  have some' : moments.map (credit position) ≠ [] := by
    rw [ne_eq, List.map_eq_nil_iff]
    rintro rfl
    cases settledLast
  have upper := Floors.atMost (d := 10 ^ 18) (by decide) (credit position start)
    (moments.map (credit position))
  have lower := Floors.atLeast (d := 10 ^ 18) (by decide) (credit position start) some'
  rw [getLastDMap, List.getLastD_eq_getLast?, settledLast, Option.getD_some] at upper lower
  rw [List.length_map] at lower
  have total : credit position last - credit position start =
      -((last.toInt - start.toInt) * position) := by
    rw [credit, credit, Int.sub_mul]
    omega
  rw [total] at upper lower
  exact ⟨upper,lower⟩

theorem creditedSublist (position : Int) (start : Index) {fewer moments : List Index}
    (sub : fewer.Sublist moments) (last : fewer.getLast? = moments.getLast?) :
    credited position start moments ≤ credited position start fewer := by
  refine Floors.sublist (by decide) (sub.map _) _ ?_
  rw [getLastDMap, getLastDMap, List.getLastD_eq_getLast?, List.getLastD_eq_getLast?, last]

theorem settledChange {context : Context} {account : Address} {w w' : World σ} {b : Balance}
    (h : Settled context account w b w')
    (same : (w.perpetual.localIndexes account).timestamp = context.index.timestamp →
      w.perpetual.localIndexes account = context.index) :
    w'.perpetual.localIndexes account = context.index ∧
    b.positionInt = (w.perpetual.balances account).positionInt ∧
    b.marginInt - (w.perpetual.balances account).marginInt =
      (credit (w.perpetual.balances account).positionInt context.index -
        credit (w.perpetual.balances account).positionInt (w.perpetual.localIndexes account)) / 10 ^ 18 := by
  obtain ⟨index,stored,_,how⟩ := h.storage
  have localIndex : w'.perpetual.localIndexes account = index := by
    rw [stored]
    exact Function.update_self _ _ _
  refine ⟨?_,by rw [Balance.positionInt, Balance.positionInt, h.position, h.positionIsPositive],?_⟩
  · rcases how with ⟨now,rfl,_⟩ | ⟨_,rfl⟩
    · exact localIndex.trans (same now)
    · exact localIndex
  · rcases how with ⟨now,_,rfl⟩ | ⟨later,_⟩
    · rw [same now, Int.sub_self, Int.sub_self, Int.zero_ediv]
    · obtain ⟨most,least⟩ := h.funding later
      rw [Int.sub_mul] at most least
      simp only [credit]
      omega

theorem indexDiffFits (new old : Index) : ∃ d, indexDiff new old = .ok d := by
  have newSmall : (SignedMath.toInt ⟨widen new.value,new.isPositive⟩).natAbs < 2 ^ 128 := by
    rw [SignedMath.toInt, Signed.natAbs, widenNat128]
    exact new.value.isLt
  have oldSmall : (widen old.value).toNat < 2 ^ 128 := by
    rw [widenNat128]
    exact old.value.isLt
  unfold indexDiff
  split
  · exact (SignedMath.subComputes _ _).returns (by omega)
  · exact (SignedMath.addComputes _ _).returns (by omega)

theorem indexDiffSmall {new old : Index} {d : SignedInt} (ok : indexDiff new old = .ok d) :
    d.value.toNat < 2 ^ 129 := by
  have difference := congrArg Int.natAbs (indexDiffInt ok)
  have newSmall := new.value.isLt
  have oldSmall := old.value.isLt
  rw [SignedMath.toInt, Signed.natAbs] at difference
  rw [← Signed.natAbs new.isPositive new.value.toNat, ← Index.toInt] at newSmall
  rw [← Signed.natAbs old.isPositive old.value.toNat, ← Index.toInt] at oldSmall
  omega

theorem applyFundingFits {d : SignedInt} {b : Balance} (small : d.value.toNat < 2 ^ 129)
    (fits : (b.marginInt + -(SignedMath.toInt d * b.positionInt) / 10 ^ 18).natAbs < 2 ^ 120) :
    ∃ out, applyFunding d b = .ok out := by
  have product : SignedMath.toInt d * b.positionInt =
      signed (d.isPositive == b.positionIsPositive) (d.value.toNat * b.position.toNat) :=
    Signed.mul _ _ _ _
  have word : d.value.toNat * (widen b.position).toNat < 2 ^ 249 := by
    have bound := Nat.mul_lt_mul'' small b.position.isLt
    rwa [← Nat.pow_add, ← widenNat120] at bound
  have short : (2 : Nat) ^ 249 < 2 ^ 256 := by decide
  rw [product] at fits
  unfold applyFunding
  cases sign : d.isPositive == b.positionIsPositive with
  | false =>
    have differ : (d.isPositive != b.positionIsPositive) = true := by rw [bne, sign]; rfl
    obtain ⟨a,ha⟩ := BaseMath.baseMulFits (word.trans short)
    have exact := BaseMath.baseMulBounds ha
    rw [widenNat120] at exact word
    rw [sign, Signed.negative, neg_neg] at fits
    obtain ⟨out,add⟩ : ∃ out, b.addToMargin a = .ok out :=
      (b.addToMarginComputes a).returns (by omega)
    simp only [differ, if_true, Checked.bindOk]
    exact ⟨_,a,ha,out,add,rfl⟩
  | true =>
    have agree : (d.isPositive != b.positionIsPositive) = false := by rw [bne, sign]; rfl
    obtain ⟨a,ha⟩ := BaseMath.baseMulRoundUpFits (word.trans short)
    have exact := BaseMath.baseMulRoundUpBounds ha
    rw [widenNat120] at exact word
    rw [sign, Signed.positive] at fits
    obtain ⟨out,sub⟩ : ∃ out, b.subFromMargin a = .ok out :=
      (b.subFromMarginComputes a).returns (by omega)
    simp only [agree, Bool.false_eq_true, if_false, Checked.bindOk]
    exact ⟨_,a,ha,out,sub,rfl⟩

theorem settlesUnlessOverflow {context : Context} {account : Address} {w : World σ} :
    (∃ out, settleAccount context account w = .ok out) ↔
      (w.perpetual.localIndexes account).timestamp = context.index.timestamp ∨
      ((w.perpetual.balances account).marginInt +
        (credit (w.perpetual.balances account).positionInt context.index -
          credit (w.perpetual.balances account).positionInt (w.perpetual.localIndexes account)) /
            10 ^ 18).natAbs < 2 ^ 120 := by
  constructor
  · rintro ⟨⟨b,w'⟩,ok⟩
    by_cases now : (w.perpetual.localIndexes account).timestamp = context.index.timestamp
    · exact .inl now
    · have changed := (settledChange (settled ok) fun same => absurd same now).2.2
      right
      rw [← changed, add_sub_cancel, Balance.marginInt, Signed.natAbs]
      exact b.margin.isLt
  · intro fits
    simp only [settleAccount]
    split
    · exact ⟨_,rfl⟩
    · rename_i later
      split
      · exact ⟨_,rfl⟩
      · obtain ⟨d,hd⟩ := indexDiffFits context.index (w.perpetual.localIndexes account)
        have exact := fits.resolve_left later
        rw [credit, credit, neg_sub_neg, ← Int.sub_mul, ← Int.neg_sub, Int.neg_mul, ← indexDiffInt hd]
          at exact
        obtain ⟨⟨isPositive,amount,out⟩,applied⟩ := applyFundingFits (indexDiffSmall hd) exact
        simp only [Checked.bindOk]
        exact ⟨_,d,hd,_,applied,rfl⟩

structure Followed (account : Address) (start : World σ) (indexes moments : List Index) (change : Int)
    (w : World σ) : Prop where
  ordered : indexes.Pairwise fun g h => g.timestamp.toNat < h.timestamp.toNat
  begin : indexes.head? = some (start.perpetual.localIndexes account)
  listed : ∀ g ∈ moments, g ∈ indexes
  localIndex : w.perpetual.localIndexes account = moments.getLastD (start.perpetual.localIndexes account)
  position : (w.perpetual.balances account).positionInt = (start.perpetual.balances account).positionInt
  change : change = credited (start.perpetual.balances account).positionInt
    (start.perpetual.localIndexes account) moments

theorem Followed.inside {account : Address} {start w : World σ} {indexes moments : List Index} {change : Int}
    (h : Followed account start indexes moments change w) :
    moments.getLastD (start.perpetual.localIndexes account) ∈ indexes := by
  rw [List.getLastD_eq_getLast?]
  cases last : moments.getLast? with
  | none => exact List.mem_of_head? h.begin
  | some g => exact h.listed g (List.mem_of_getLast? last)

theorem Followed.unique {account : Address} {start w : World σ} {indexes moments : List Index} {change : Int}
    (h : Followed account start indexes moments change w) {g g' : Index} (mem : g ∈ indexes)
    (mem' : g' ∈ indexes) (same : g.timestamp = g'.timestamp) : g = g' := by
  have apart : indexes.Pairwise fun g g' => g.timestamp = g'.timestamp → g = g' :=
    h.ordered.imp fun less equal => by
      rw [equal] at less
      exact absurd less (lt_irrefl _)
  have symm : Std.Symm fun g g' : Index => g.timestamp = g'.timestamp → g = g' :=
    ⟨fun _ _ equal same => (equal same.symm).symm⟩
  exact apart.forall_of_forall (fun _ _ _ => rfl) mem mem' same

theorem followed {account : Address} {start w : World σ} {indexes moments : List Index} {change : Int}
    (run : FundingRun account start indexes moments change w) :
    Followed account start indexes moments change w := by
  induction run with
  | start => exact ⟨List.pairwise_singleton _ _,rfl,fun g mem => (List.not_mem_nil mem).elim,rfl,rfl,rfl⟩
  | @index indexes moments change w before index later ih =>
    refine ⟨?_,?_,fun g mem => List.mem_append_left _ (ih.listed g mem),ih.localIndex,ih.position,ih.change⟩
    · rw [List.pairwise_append]
      refine ⟨ih.ordered,List.pairwise_singleton _ _,fun g mem last inside => ?_⟩
      rw [List.mem_singleton.mp inside]
      exact later g mem
    · rw [List.head?_append, ih.begin]
      rfl
  | @settle indexes moments change w w' before context now balance ok ih =>
    have done := settled ok
    have present := List.mem_of_getLast? now
    obtain ⟨localIndex,position,changed⟩ := settledChange done fun same =>
      ih.unique (ih.localIndex ▸ ih.inside) present same
    refine ⟨ih.ordered,ih.begin,fun g mem => ?_,?_,?_,?_⟩
    · rcases List.mem_append.mp mem with earlier | last
      · exact ih.listed g earlier
      · rw [List.mem_singleton.mp last]
        exact present
    · rw [localIndex, List.getLastD_concat]
    · rw [done.here.1, position, ih.position]
    · rw [changed, ih.position, ih.localIndex, ih.change]
      simp only [credited]
      rw [List.map_append, List.map_singleton, Floors.snoc, getLastDMap]
  | other before position localIndex ih =>
    exact ⟨ih.ordered,ih.begin,ih.listed,localIndex.trans ih.localIndex,position.trans ih.position,ih.change⟩

/-- Settled at any of the values of the index, the account is credited what it would be without
rounding, less than one unit for each settlement below it. A single settlement credits the floor,
and leaving out settlements before the last never loses any of it. -/
theorem fundingFrequencyFair {account : Address} {start w : World σ} {indexes moments : List Index}
    {change : Int} {last : Index} (run : FundingRun account start indexes moments change w)
    (settledLast : moments.getLast? = some last) :
    let G₀ := (start.perpetual.localIndexes account).toInt
    let exact : ℚ :=
      -((last.toInt - G₀) * (start.perpetual.balances account).positionInt : Int) / 10 ^ 18
    exact - moments.length < change ∧ (change : ℚ) ≤ exact ∧
    (moments.length = 1 → change = ⌊exact⌋) ∧
    ∀ {fewer : List Index} {change' : Int} {w' : World σ},
      FundingRun account start indexes fewer change' w' → fewer.Sublist moments →
      fewer.getLast? = some last → change ≤ change' := by
  intro G₀ exact
  have paid := (followed run).change
  obtain ⟨most,least⟩ := creditedBounds (start.perpetual.balances account).positionInt
    (start.perpetual.localIndexes account) settledLast
  rw [← paid] at most least
  have upper : (change : ℚ) ≤ exact := by
    rw [le_div_iff₀ (by norm_num), mul_comm]
    exact_mod_cast most
  have lower : exact - moments.length < change := by
    rw [sub_lt_iff_lt_add, div_lt_iff₀ (by norm_num), mul_comm _ ((10 : ℚ) ^ 18)]
    exact_mod_cast least
  refine ⟨lower,upper,fun once => ?_,fun fewerRun sub fewerLast => ?_⟩
  · rw [once, Nat.cast_one] at lower
    exact (Int.floor_eq_iff.mpr ⟨upper,by linarith⟩).symm
  · rw [paid, (followed fewerRun).change]
    exact creditedSublist _ _ sub (fewerLast.trans settledLast.symm)

def sampleShort : World Unit where
  perpetual := { Storage.deployed 3 with
    balances := fun _ => ⟨true,false,1000,7⟩
    localIndexes := fun _ => ⟨100,true,0⟩ }
  logs := []
  ext := ()

def sampleContext (timestamp : Uint32) (value : Uint128) : Context :=
  ⟨BaseMath.BASE,BaseMath.BASE,⟨timestamp,true,value⟩⟩

def sampleSettlements : Checked (Balance × Balance) := do
  let (first,w) ← settleAccount (sampleContext 110 100000000000000000) 5 sampleShort
  let (second,_) ← settleAccount (sampleContext 120 300000000000000000) 5 w
  return (first,second)

theorem sampleSettlementsFair : ∃ change : Int, (2.1 - 2 : ℚ) < change ∧ (change : ℚ) ≤ 2.1 := by
  have settles : sampleSettlements = .ok (⟨true,false,1000,7⟩,⟨true,false,1001,7⟩) := by decide +kernel
  simp only [sampleSettlements, Checked.bindOk, Prod.exists, Checked.pureOk, Prod.mk.injEq] at settles
  obtain ⟨first,w,firstOk,second,w',secondOk,rfl,rfl⟩ := settles
  have begin : FundingRun 5 sampleShort [⟨100,true,0⟩] [] 0 sampleShort := .start
  have once := (begin.index (sampleContext 110 100000000000000000).index (by decide +kernel)).settle _ rfl _
    firstOk
  have twice := (once.index (sampleContext 120 300000000000000000).index (by decide +kernel)).settle _ rfl _
    secondOk
  obtain ⟨lower,upper,_⟩ := fundingFrequencyFair twice
    (show _ = some (sampleContext 120 300000000000000000).index from rfl)
  rw [show ((sampleContext 120 300000000000000000).index.toInt -
    (sampleShort.perpetual.localIndexes 5).toInt) * (sampleShort.perpetual.balances 5).positionInt =
      -2100000000000000000 by decide +kernel] at lower upper
  refine ⟨_,lt_of_le_of_lt ?_ lower,upper.trans ?_⟩ <;> norm_num

end Settlement
end Perpetual
