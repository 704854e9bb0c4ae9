import Mathlib.Data.Finset.Dedup
import Mathlib.Data.Finset.Order
import Perpetual.Greedy
import Perpetual.Matching

/-! `quoteAsync`, and the match of an incoming order of the same amount on the other side. -/
namespace Perpetual

namespace BigNumber

def DECIMAL_PLACES : Nat := 20

def div (x y : ℚ) : ℚ := toFixed0 (x / y * 10 ^ DECIMAL_PLACES) / 10 ^ DECIMAL_PLACES

theorem divMono {x x' y : ℚ} (le : x ≤ x') (pos : 0 < y) : div x y ≤ div x' y := by
  unfold div
  gcongr
  exact toFixed0Mono (by gcongr)

end BigNumber

namespace OrderBook
open Greedy

structure Quote where
  price : ℚ
  filledAmount : ℚ
  fulfilled : Bool
  deriving DecidableEq

def quotable (now : ℚ) (rows : List SignedOrderEntity) : List SRAOrder :=
  (filterIndexed (isFreshOrder now) (rows.map deserializeOrderToSRAOrder)).filter
    fun apiOrder => apiOrder.metaData.filledAmount < apiOrder.order.amount

def quoteLoop : List SRAOrder → ℚ → ℚ → ℚ × ℚ
  | [],totalVolume,remainingAmount => (totalVolume,remainingAmount)
  | apiOrder::rest,totalVolume,remainingAmount =>
      if remainingAmount ≤ 0 then (totalVolume,remainingAmount)
      else
        let tradedAmount := min remainingAmount (apiOrder.order.amount - apiOrder.metaData.filledAmount)
        quoteLoop rest (totalVolume + tradedAmount * apiOrder.order.limitPrice.value)
          (remainingAmount - tradedAmount)

/-- `rows` is what `findBy` returned for the side. Asks are sorted as bids are. -/
def quote (env : Environment) (now : ℚ) (rows : List SignedOrderEntity) (amount : ℚ) (isBuy : Bool) :
    Quote :=
  let allOrders :=
    if isBuy then
      env.sort (fun orderA orderB => compareBidOrder orderA.order orderB.order) (quotable now rows)
    else
      env.sort (fun orderA orderB => compareBidOrder orderA.order orderB.order) (quotable now rows)
  let (totalVolume,remainingAmount) := quoteLoop allOrders 0 amount
  let totalTradedAmount := amount - remainingAmount
  { price := if totalTradedAmount = 0 then 0 else BigNumber.div totalVolume totalTradedAmount
    filledAmount := totalTradedAmount
    fulfilled := remainingAmount = 0 }

def priceOf (apiOrder : SRAOrder) : ℚ := apiOrder.order.limitPrice.value

def averagePrice (fills : List (SRAOrder × ℚ)) : ℚ :=
  if taken fills = 0 then 0 else BigNumber.div (volume priceOf fills) (taken fills)

theorem quoteLoopMatches (orders : List SRAOrder) (totalVolume remainingAmount : ℚ) :
    quoteLoop orders totalVolume remainingAmount =
      (totalVolume + volume priceOf (matchLoop orders remainingAmount).2,
        (matchLoop orders remainingAmount).1) := by
  fun_induction quoteLoop orders totalVolume remainingAmount with
  | case1 => simp [matchLoop]
  | case2 apiOrder rest totalVolume remainingAmount done => simp [matchLoop, done]
  | case3 apiOrder rest totalVolume remainingAmount some' tradedAmount ih =>
    have traded : min remainingAmount (remainingOf apiOrder) = tradedAmount := rfl
    rw [ih, matchLoopCons some', traded, volumeCons, priceOf, mul_comm, add_assoc]

theorem matchLoopGreedy {orders : List SRAOrder} {amount : ℚ} (open' : ∀ o ∈ orders, 0 ≤ remainingOf o)
    (some' : 0 ≤ amount) : ∃ rest, greedy remainingOf orders amount = (matchLoop orders amount).2 ++ rest ∧
      ∀ f ∈ rest, f.2 = 0 := by
  induction orders generalizing amount with
  | nil => exact ⟨[],rfl,fun f mem => (List.not_mem_nil mem).elim⟩
  | cons o rest ih =>
    rcases some'.eq_or_lt with rfl | more
    · rw [matchLoopNone _ le_rfl]
      exact ⟨_,rfl,greedyZero open'⟩
    · rw [List.forall_mem_cons] at open'
      obtain ⟨idle,same,nothing⟩ := ih open'.2 (sub_nonneg.mpr (min_le_left amount (remainingOf o)))
      rw [matchLoopCons (not_le.mpr more), greedy, same]
      exact ⟨idle,rfl,nothing⟩

theorem totalsGreedy {orders : List SRAOrder} {amount : ℚ} (open' : ∀ o ∈ orders, 0 ≤ remainingOf o)
    (some' : 0 ≤ amount) :
    averagePrice (matchLoop orders amount).2 = averagePrice (greedy remainingOf orders amount) ∧
      taken (matchLoop orders amount).2 = taken (greedy remainingOf orders amount) := by
  obtain ⟨rest,same,idle⟩ := matchLoopGreedy open' some'
  rw [same, averagePrice, averagePrice, volumeIdle priceOf idle, takenIdle idle]
  exact ⟨rfl,rfl⟩

section
variable {env : Environment} {now amount : ℚ} {rows : List SignedOrderEntity} {isBuy : Bool}
  {signedOrder : SignedOrder}

theorem quotableOpen {apiOrder : SRAOrder} (mem : apiOrder ∈ quotable now rows) : 0 < remainingOf apiOrder :=
  sub_pos.mpr (of_decide_eq_true (List.mem_filter.mp mem).2)

theorem sortedOpen {orders : List SRAOrder} (perm : orders.Perm (quotable now rows)) :
    ∀ o ∈ orders, 0 ≤ remainingOf o := fun _ mem => (quotableOpen (perm.subset mem)).le

theorem quoteMatches (env : Environment) (now : ℚ) (rows : List SignedOrderEntity) (amount : ℚ)
    (isBuy : Bool) {orders : List SRAOrder}
    (sorted : env.sort (fun orderA orderB => compareBidOrder orderA.order orderB.order)
      (quotable now rows) = orders) :
    (quote env now rows amount isBuy).price = averagePrice (matchLoop orders amount).2 ∧
      (quote env now rows amount isBuy).filledAmount = taken (matchLoop orders amount).2 := by
  have total : amount - (matchLoop orders amount).1 = taken (matchLoop orders amount).2 :=
    (matchLoopTotal orders amount).symm
  simp only [quote, ite_self, sorted, quoteLoopMatches, zero_add, total]
  exact ⟨rfl,trivial⟩

def Accepts (signedOrder : SignedOrder) (rows : List SignedOrderEntity) : Prop :=
  ∀ row ∈ rows, if signedOrder.isBuy then row.limitPrice ≤ signedOrder.limitPrice.value
    else signedOrder.limitPrice.value ≤ row.limitPrice

theorem fillableAll (accepts : Accepts signedOrder rows) :
    fillable now rows signedOrder = quotable now rows := by
  refine List.filter_eq_self.mpr fun apiOrder mem => ?_
  obtain ⟨row,inside,rfl⟩ := List.mem_map.mp
    ((List.filter_sublist.trans (filterIndexedSublist _ _)).subset mem)
  have accepted := accepts row inside
  split at accepted <;> rename_i side <;> simp only [side, if_true, Bool.false_eq_true, if_false]
  · exact decide_eq_true accepted
  · exact decide_eq_true accepted

def Quote.Matches (q : Quote) (amount : ℚ) (matched : ℚ × List (SRAOrder × ℚ)) : Prop :=
  q.filledAmount = amount - matched.1 ∧ q.price = averagePrice matched.2

/-- A quote is what any order of its amount on the other side gets, also where the fills of the
order cannot be encoded for the chain. -/
def Quoted (env : Environment) (now : ℚ) (rows : List SignedOrderEntity) (amount : ℚ) (isBuy : Bool) :
    Prop :=
  ∀ signedOrder : SignedOrder, signedOrder.isBuy = !isBuy → signedOrder.amount = amount →
    Accepts signedOrder rows →
      (quote env now rows amount isBuy).Matches amount (matchOrders env now rows signedOrder) ∧
        ∀ plan, fulfillOrder env now rows signedOrder = .ok plan →
          (quote env now rows amount isBuy).Matches amount (plan.remainingAmount,plan.fills)

def OnePrice (now : ℚ) (rows : List SignedOrderEntity) (amount : ℚ) : Prop :=
  ∀ fills fills', Allocation remainingOf (quotable now rows) amount fills →
    Allocation remainingOf (quotable now rows) amount fills' → averagePrice fills = averagePrice fills'

theorem averageMono {fills fills' : List (SRAOrder × ℚ)} (same : taken fills = taken fills')
    (some' : 0 ≤ taken fills) (le : volume priceOf fills ≤ volume priceOf fills') :
    averagePrice fills ≤ averagePrice fills' := by
  unfold averagePrice
  rw [← same]
  split
  · exact le_rfl
  · rename_i other
    exact BigNumber.divMono le (lt_of_le_of_ne some' (Ne.symm other))

theorem compareAskLess {orderA orderB : SignedOrder} :
    compareAskOrder orderA orderB < 0 ↔ orderA.limitPrice.value < orderB.limitPrice.value := by
  unfold compareAskOrder comparedTo
  grind

theorem compareBidLess {orderA orderB : SignedOrder} :
    compareBidOrder orderA orderB < 0 ↔ orderB.limitPrice.value < orderA.limitPrice.value := by
  unfold compareBidOrder comparedTo
  grind

def Environment.Sorts (env : Environment) : Prop :=
  ∀ (compare : SRAOrder → SRAOrder → ℤ) (key : SRAOrder → ℚ),
    (∀ orderA orderB, compare orderA orderB < 0 ↔ key orderA < key orderB) →
      ∀ orders, (env.sort compare orders).Pairwise fun orderA orderB => key orderA ≤ key orderB

theorem sampleSorts : Environment.sample.Sorts := by
  intro compare key compares orders
  have order (a b : SRAOrder) : ¬compare b a < 0 ↔ key a ≤ key b := by rw [compares, not_lt]
  have total : Std.Total fun a b => ¬compare b a < 0 :=
    ⟨fun a b => by simpa only [order] using le_total (key a) (key b)⟩
  have trans : IsTrans SRAOrder fun a b => ¬compare b a < 0 :=
    ⟨fun a b c => by simpa only [order] using le_trans⟩
  exact (List.pairwise_insertionSort _ orders).imp fun sorted => (order _ _).mp sorted

theorem someBuyer (rows : List SignedOrderEntity) (amount : ℚ) :
    ∃ signedOrder : SignedOrder, signedOrder.isBuy = true ∧ signedOrder.amount = amount ∧
      Accepts signedOrder rows := by
  obtain ⟨most,above⟩ := (rows.map SignedOrderEntity.limitPrice).toFinset.exists_le
  refine ⟨{ sampleSigned true amount 0 with limitPrice := .ofValue most },rfl,rfl,fun row mem => ?_⟩
  exact above _ (List.mem_toFinset.mpr (List.mem_map_of_mem mem))

theorem allocatedBetween (sorts : env.Sorts) (some' : 0 < amount) {fills : List (SRAOrder × ℚ)}
    (allocated : Allocation remainingOf (quotable now rows) amount fills) :
    averagePrice (matchLoop (env.sort (fun orderA orderB => compareAskOrder orderA.order orderB.order)
        (quotable now rows)) amount).2 ≤ averagePrice fills ∧
      averagePrice fills ≤ averagePrice (matchLoop (env.sort
        (fun orderA orderB => compareBidOrder orderA.order orderB.order) (quotable now rows)) amount).2 := by
  have asks := env.sorted (fun orderA orderB => compareAskOrder orderA.order orderB.order)
    (quotable now rows)
  have bids := env.sorted (fun orderA orderB => compareBidOrder orderA.order orderB.order)
    (quotable now rows)
  have rising := sorts (fun orderA orderB => compareAskOrder orderA.order orderB.order) priceOf
    (fun _ _ => compareAskLess) (quotable now rows)
  have falling := sorts (fun orderA orderB => compareBidOrder orderA.order orderB.order)
    (fun o => -priceOf o) (fun _ _ => compareBidLess.trans neg_lt_neg_iff.symm) (quotable now rows)
  have openAsks := sortedOpen asks
  have openBids := sortedOpen bids
  have fromAsks := allocated.perm asks.symm
  have fromBids := allocated.perm bids.symm
  have least := greedyLeast priceOf openAsks some'.le rising fromAsks
  have most := greedyMost openBids some'.le (falling.imp neg_le_neg_iff.mp) fromBids
  have lower := takenLe (greedyWithin openAsks some'.le)
  have upper := takenLe allocated.within
  rw [(totalsGreedy openAsks some'.le).1, (totalsGreedy openBids some'.le).1]
  constructor
  · exact averageMono ((greedyTaken openAsks some'.le).trans fromAsks.total.symm) lower.1 least
  · exact averageMono (fromBids.total.trans (greedyTaken openBids some'.le).symm) upper.1 most

theorem matchAllocation (env : Environment) (compare : SRAOrder → SRAOrder → ℤ) (some' : 0 < amount) :
    ∃ fills, Allocation remainingOf (quotable now rows) amount fills ∧
      averagePrice fills = averagePrice (matchLoop (env.sort compare (quotable now rows)) amount).2 ∧
      taken fills = taken (matchLoop (env.sort compare (quotable now rows)) amount).2 := by
  have perm := env.sorted compare (quotable now rows)
  have open' := sortedOpen perm
  have totals := totalsGreedy open' some'.le
  exact ⟨_,(greedyAllocation open' some'.le).perm perm,totals.1.symm,totals.2.symm⟩

theorem quotesExecution (sorts : env.Sorts) (some' : 0 < amount) :
    Quoted env now rows amount isBuy ↔ isBuy = true ∨ OnePrice now rows amount := by
  obtain ⟨price,filled⟩ := quoteMatches env now rows amount isBuy rfl
  constructor
  · intro quoted
    cases isBuy with
    | true => exact .inl rfl
    | false =>
      obtain ⟨signedOrder,buy,rfl,accepts⟩ := someBuyer rows amount
      obtain ⟨⟨_,same⟩,_⟩ := quoted signedOrder buy rfl accepts
      simp only [matchOrders, apiOrders, fillableAll accepts, buy, if_true, price] at same
      refine .inr fun fills fills' allocated allocated' => ?_
      have between := allocatedBetween sorts some' allocated
      have between' := allocatedBetween sorts some' allocated'
      rw [same] at between between'
      exact (between.2.antisymm between.1).trans (between'.2.antisymm between'.1).symm
  · rintro good signedOrder side rfl accepts
    have matched : (quote env now rows signedOrder.amount isBuy).Matches signedOrder.amount
        (matchOrders env now rows signedOrder) := by
      rw [Quote.Matches, price, filled, matchOrders, ← matchLoopTotal, apiOrders, fillableAll accepts, side]
      cases isBuy with
      | true => exact ⟨rfl,rfl⟩
      | false =>
        obtain ⟨fills,allocated,average,sum⟩ := matchAllocation env
          (fun orderA orderB => compareBidOrder orderA.order orderB.order) some'
        obtain ⟨fills',allocated',average',sum'⟩ := matchAllocation env
          (fun orderA orderB => compareAskOrder orderA.order orderB.order) some'
        have onePrice := good.resolve_left (by decide)
        constructor
        · exact (sum.symm.trans (allocated.total.trans allocated'.total.symm)).trans sum'
        · exact (average.symm.trans (onePrice _ _ allocated allocated')).trans average'
    refine ⟨matched,fun plan ok => ?_⟩
    rwa [fulfillMatches ok]

end

theorem onePrice {now amount : ℚ} {rows : List SignedOrderEntity}
    (alike : (∃ price, ∀ o ∈ quotable now rows, priceOf o = price) ∨
      ((quotable now rows).map remainingOf).sum ≤ amount) : OnePrice now rows amount := by
  intro fills fills' allocated allocated'
  have total := allocated.total.trans allocated'.total.symm
  have volumes : volume priceOf fills = volume priceOf fills' := by
    rcases alike with ⟨price,same⟩ | all
    · have priced : ∀ {fills}, Allocation remainingOf (quotable now rows) amount fills →
          volume priceOf fills = price * taken fills := fun allocated =>
        volumeEqual fun f mem => same f.1 (allocated.each.subset (List.mem_map_of_mem mem))
      rw [priced allocated, priced allocated', total]
    · have whole : ∀ {fills}, Allocation remainingOf (quotable now rows) amount fills →
          volume priceOf fills = ((quotable now rows).map fun o => priceOf o * remainingOf o).sum := by
        intro fills allocated
        have offered := (allocated.each.map remainingOf).sum_eq
        have used := takenWhole allocated.within (by rw [offered, allocated.total, min_eq_right all])
        rw [volumeWhole priceOf used, (allocated.each.map _).sum_eq]
      rw [whole allocated, whole allocated']
  rw [averagePrice, averagePrice, total, volumes]

def sampleAsks : List SignedOrderEntity :=
  [sampleMaker 0,{ sampleMaker 0 with hash := 101, limitPrice := 6 }]

def sampleBids : List SignedOrderEntity := sampleAsks.map fun row => { row with isBuy := true }

def sampleBuyer : SignedOrder := { sampleSigned true 1 100 with limitPrice := .ofValue 6 }

theorem sampleQuotesExecution : (quote .sample 0 sampleBids 12 true).filledAmount = 12 ∧
    Quoted .sample 0 sampleBids 12 true :=
  ⟨by decide +kernel,(quotesExecution sampleSorts (by norm_num)).mpr (.inl rfl)⟩

theorem worstAskQuoted : ¬Quoted .sample 0 sampleAsks 1 false ∧
    (quote .sample 0 sampleAsks 1 false).price = 6 ∧
    (fulfillOrder .sample 0 sampleAsks sampleBuyer).map (fun plan => averagePrice plan.fills) = .ok 5 := by
  have quoted : (quote .sample 0 sampleAsks 1 false).price = 6 := by decide +kernel
  have traded : (fulfillOrder .sample 0 sampleAsks sampleBuyer).map
      (fun plan => averagePrice plan.fills) = .ok 5 := by decide +kernel
  have accepts : ∀ row ∈ sampleAsks, row.limitPrice ≤ sampleBuyer.limitPrice.value := by decide +kernel
  refine ⟨fun good => ?_,quoted,traded⟩
  cases ok : fulfillOrder .sample 0 sampleAsks sampleBuyer with
  | error reason =>
    rw [ok] at traded
    cases traded
  | ok plan =>
    rw [ok] at traded
    have same := ((good sampleBuyer rfl rfl accepts).2 plan ok).2
    have average : averagePrice plan.fills = 5 := Except.ok.inj traded
    rw [quoted, average] at same
    exact absurd same (by norm_num)

end OrderBook
end Perpetual
