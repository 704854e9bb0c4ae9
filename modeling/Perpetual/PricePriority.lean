import Perpetual.Quote
import Perpetual.UncrossedBook

/-! Whether an incoming order is matched as far as the book goes, and with the best prices first. -/
namespace Perpetual
namespace OrderBook

section
variable {orders : List SRAOrder} {amount : ℚ} {key : SRAOrder → ℚ}

theorem matchLoopBounded (orders : List SRAOrder) (amount : ℚ) :
    ∀ fill ∈ (matchLoop orders amount).2, fill.2 ≤ remainingOf fill.1 := by
  fun_induction matchLoop orders amount with
  | case1 | case2 => simp
  | case3 apiOrder rest remainingAmount some' tradedAmount left fills same ih =>
    rw [same] at ih
    exact List.forall_mem_cons.mpr ⟨min_le_right _ _,ih⟩

theorem matchLoopLeft (orders : List SRAOrder) (some' : 0 ≤ amount) : 0 ≤ (matchLoop orders amount).1 := by
  fun_induction matchLoop orders amount with
  | case1 | case2 => exact some'
  | case3 apiOrder rest remainingAmount more tradedAmount left fills same ih =>
    rw [same] at ih
    exact ih (sub_nonneg.mpr (min_le_left _ _))

theorem matchLoopFills (open' : ∀ o ∈ orders, 0 ≤ remainingOf o) (some' : 0 ≤ amount)
    (sorted : orders.Pairwise fun a b => key a ≤ key b) {o : SRAOrder} (mem : o ∈ orders) :
    (o,remainingOf o) ∈ (matchLoop orders amount).2 ∨
      (matchLoop orders amount).1 = 0 ∧ ∀ fill ∈ (matchLoop orders amount).2, key fill.1 ≤ key o := by
  induction orders generalizing amount with
  | nil => cases mem
  | cons first rest ih =>
    rcases some'.eq_or_lt with rfl | more
    · right
      simp [matchLoopNone]
    · rw [List.forall_mem_cons] at open'
      rw [List.pairwise_cons] at sorted
      have later : 0 ≤ amount - min amount (remainingOf first) := sub_nonneg.mpr (min_le_left _ _)
      rw [matchLoopCons (not_le.mpr more)]
      rcases List.mem_cons.mp mem with rfl | inside
      · rcases le_total (remainingOf o) amount with whole | part
        · left
          simp [min_eq_right whole]
        · right
          simp [min_eq_left part, matchLoopNone]
      · rcases ih open'.2 later sorted.2 inside with taken | ⟨done,better⟩
        · exact .inl (List.mem_cons_of_mem _ taken)
        · exact .inr ⟨done,List.forall_mem_cons.mpr ⟨sorted.1 o inside,better⟩⟩

def upTo (key : SRAOrder → ℚ) (level : ℚ) (orders : List SRAOrder) : ℚ :=
  ((orders.filter fun o => key o ≤ level).map remainingOf).sum

theorem upToNonneg (open' : ∀ o ∈ orders, 0 ≤ remainingOf o) (level : ℚ) : 0 ≤ upTo key level orders := by
  refine sumOpen fun o mem => ?_
  exact open' o (List.mem_filter.mp mem).1

theorem upToPerm {orders' : List SRAOrder} (same : orders.Perm orders') (key : SRAOrder → ℚ) (level : ℚ) :
    upTo key level orders = upTo key level orders' := ((same.filter _).map remainingOf).sum_eq

theorem matchLoopStops (open' : ∀ o ∈ orders, 0 ≤ remainingOf o) (some' : 0 ≤ amount)
    (sorted : orders.Pairwise fun a b => key a ≤ key b) (level : ℚ) :
    amount ≤ upTo key level orders ↔
      (matchLoop orders amount).1 = 0 ∧ ∀ fill ∈ (matchLoop orders amount).2, key fill.1 ≤ level := by
  induction orders generalizing amount with
  | nil => simp [upTo, matchLoop, some'.ge_iff_eq']
  | cons first rest ih =>
    have all := open'
    rw [List.forall_mem_cons] at open'
    rw [List.pairwise_cons] at sorted
    rcases some'.eq_or_lt with rfl | more
    · simp [matchLoopNone, upToNonneg all]
    · have later : 0 ≤ amount - min amount (remainingOf first) := sub_nonneg.mpr (min_le_left _ _)
      rw [matchLoopCons (not_le.mpr more)]
      simp only [List.forall_mem_cons]
      by_cases within : key first ≤ level
      · have split : upTo key level (first::rest) = remainingOf first + upTo key level rest := by
          simp [upTo, within]
        have rest' : 0 ≤ upTo key level rest := upToNonneg open'.2 level
        have step : amount ≤ upTo key level (first::rest) ↔
            amount - min amount (remainingOf first) ≤ upTo key level rest := by
          rw [split]
          rcases le_total amount (remainingOf first) with part | whole
          · rw [min_eq_left part]
            constructor <;> intro <;> linarith
          · rw [min_eq_right whole]
            exact sub_le_iff_le_add'.symm
        rw [step, ih open'.2 later sorted.2]
        simp only [within, true_and]
      · have nothing : upTo key level (first::rest) = 0 := by
          have worse : ∀ o ∈ first::rest, ¬key o ≤ level := by
            refine List.forall_mem_cons.mpr ⟨within,fun o inside => ?_⟩
            exact fun le => within ((sorted.1 o inside).trans le)
          have empty : (first::rest).filter (fun o => key o ≤ level) = [] :=
            List.filter_eq_nil_iff.mpr fun o inside => by simpa using worse o inside
          rw [upTo, empty]
          rfl
        rw [nothing]
        simp only [within, false_and, and_false, iff_false, not_le]
        exact more

end

def rank (signedOrder : SignedOrder) (price : ℚ) : ℚ := if signedOrder.isBuy then price else -price

def Crosses (signedOrder : SignedOrder) (price : ℚ) : Prop :=
  rank signedOrder price ≤ rank signedOrder signedOrder.limitPrice.value

structure Fulfillment where
  filledAmount : ℚ
  isFullfilled : Bool
  deriving DecidableEq

def Plan.returned (plan : Plan) (signedOrder : SignedOrder) : Fulfillment where
  filledAmount := signedOrder.amount - plan.remainingAmount
  isFullfilled := plan.remainingAmount = 0

structure InPriority (fresh : SignedOrderEntity → Prop) (rows : List SignedOrderEntity)
    (signedOrder : SignedOrder) (matched : ℚ × List (SRAOrder × ℚ)) : Prop where
  resting : ∀ fill ∈ matched.2, ∃ row ∈ rows, fill.1 = deserializeOrderToSRAOrder row
  bounded : ∀ fill ∈ matched.2, 0 < fill.2 ∧ fill.2 ≤ remainingOf fill.1
  distinct : (matched.2.map fun fill => fill.1.metaData.orderHash).Nodup
  total : (matched.2.map Prod.snd).sum = signedOrder.amount - matched.1
  nonneg : 0 ≤ matched.1
  priced : ∀ fill ∈ matched.2, Crosses signedOrder (priceOf fill.1)
  maximal : 0 < matched.1 → ∀ row ∈ rows, fresh row → Crosses signedOrder row.limitPrice →
    tradedOf row.hash matched.2 = row.amount - row.filledAmount
  priority : ∀ fill ∈ matched.2, ∀ row ∈ rows, fresh row → Crosses signedOrder row.limitPrice →
    rank signedOrder row.limitPrice < rank signedOrder (priceOf fill.1) →
    tradedOf row.hash matched.2 = row.amount - row.filledAmount

structure MatchedInPriority (env : Environment) (fresh : SignedOrderEntity → Prop) (now : ℚ)
    (rows : List SignedOrderEntity) (signedOrder : SignedOrder) : Prop where
  chosen : InPriority fresh rows signedOrder (matchOrders env now rows signedOrder)
  returned : ∀ plan, fulfillOrder env now rows signedOrder = .ok plan →
    (plan.remainingAmount,plan.fills) = matchOrders env now rows signedOrder ∧
      Trades env signedOrder plan.fills (plan.trades.map TradeArg.data) ∧
      ((plan.returned signedOrder).isFullfilled = true ↔ plan.remainingAmount = 0)

section
variable {env : Environment} {now : ℚ} {rows : List SignedOrderEntity} {signedOrder : SignedOrder}
  {fresh : SignedOrderEntity → Prop}

theorem crossesIff {price : ℚ} : Crosses signedOrder price ↔
    if signedOrder.isBuy then price ≤ signedOrder.limitPrice.value
    else signedOrder.limitPrice.value ≤ price := by
  unfold Crosses rank
  cases signedOrder.isBuy <;> simp

theorem fillableCrosses {o : SRAOrder} (mem : o ∈ fillable now rows signedOrder) :
    Crosses signedOrder (priceOf o) := by
  have kept := (List.mem_filter.mp mem).2
  rw [crossesIff]
  split at kept <;> rename_i side
  · rw [if_pos side]
    exact of_decide_eq_true kept
  · rw [if_neg side]
    exact of_decide_eq_true kept

theorem apiOrdersSorted (sorts : env.Sorts) (now : ℚ) (rows : List SignedOrderEntity)
    (signedOrder : SignedOrder) : (apiOrders env now rows signedOrder).Pairwise
      fun a b => rank signedOrder (priceOf a) ≤ rank signedOrder (priceOf b) := by
  refine sorts _ (fun o => rank signedOrder (priceOf o)) (fun orderA orderB => ?_) _
  unfold rank
  cases signedOrder.isBuy with
  | false =>
    simp only [Bool.false_eq_true, if_false, neg_lt_neg_iff]
    exact compareBidLess
  | true => exact compareAskLess

def offeredUpTo (now : ℚ) (rows : List SignedOrderEntity) (signedOrder : SignedOrder) (price : ℚ) : ℚ :=
  upTo (fun o => rank signedOrder (priceOf o)) (rank signedOrder price) (fillable now rows signedOrder)

theorem matchStops (sorts : env.Sorts) (some' : 0 < signedOrder.amount) (price : ℚ) :
    signedOrder.amount ≤ offeredUpTo now rows signedOrder price ↔
      (matchOrders env now rows signedOrder).1 = 0 ∧ ∀ fill ∈ (matchOrders env now rows signedOrder).2,
        rank signedOrder (priceOf fill.1) ≤ rank signedOrder price := by
  rw [offeredUpTo, ← upToPerm (apiOrdersPerm env now rows signedOrder)]
  exact matchLoopStops apiOrdersOpen some'.le (apiOrdersSorted sorts now rows signedOrder) _

theorem matchRead {fill : SRAOrder × ℚ} (mem : fill ∈ (matchOrders env now rows signedOrder).2) :
    fill.1 ∈ fillable now rows signedOrder :=
  (apiOrdersPerm env now rows signedOrder).subset ((matchLoopSublist _ _).subset (List.mem_map_of_mem mem))

theorem untraded (keys : (rows.map SignedOrderEntity.hash).Nodup) {row : SignedOrderEntity} (inside : row ∈ rows)
    (away : deserializeOrderToSRAOrder row ∉ fillable now rows signedOrder) :
    tradedOf row.hash (matchOrders env now rows signedOrder).2 = 0 := by
  refine tradedOfNone fun fill mem same => away ?_
  have read := matchRead mem
  obtain ⟨other,listed,is⟩ := List.mem_map.mp (fillableSublist.subset read)
  rw [← is] at same read
  rwa [← List.inj_on_of_nodup_map keys listed inside same]

theorem matchedInPriority (sorts : env.Sorts) (keys : (rows.map SignedOrderEntity.hash).Nodup)
    (bounded : ∀ row ∈ rows, row.filledAmount ≤ row.amount) (some' : 0 < signedOrder.amount) :
    InPriority fresh rows signedOrder (matchOrders env now rows signedOrder) ↔
      ∀ row ∈ rows, fresh row → row.filledAmount < row.amount → Crosses signedOrder row.limitPrice →
        deserializeOrderToSRAOrder row ∉ fillable now rows signedOrder →
        signedOrder.amount ≤ offeredUpTo now rows signedOrder row.limitPrice := by
  constructor
  · intro h row inside isFresh left crosses missed
    have nothing : tradedOf row.hash (matchOrders env now rows signedOrder).2 = 0 := untraded keys inside missed
    rw [matchStops sorts some']
    have unfilled : tradedOf row.hash (matchOrders env now rows signedOrder).2 ≠
        row.amount - row.filledAmount := by
      rw [nothing]
      exact (sub_pos.mpr left).ne
    constructor
    · by_contra more
      exact unfilled (h.maximal (lt_of_le_of_ne h.nonneg (Ne.symm more)) row inside isFresh crosses)
    · intro fill mem
      by_contra worse
      exact unfilled (h.priority fill mem row inside isFresh crosses (not_le.mp worse))
  · intro enough
    have distinct := fillsDistinct (apiOrdersPerm env now rows signedOrder)
      (matchLoopSublist _ signedOrder.amount) keys
    have filled (row : SignedOrderEntity) (inside : row ∈ rows) (isFresh : fresh row)
        (crosses : Crosses signedOrder row.limitPrice) :
        tradedOf row.hash (matchOrders env now rows signedOrder).2 = row.amount - row.filledAmount ∨
          (matchOrders env now rows signedOrder).1 = 0 ∧
            ∀ fill ∈ (matchOrders env now rows signedOrder).2,
              rank signedOrder (priceOf fill.1) ≤ rank signedOrder row.limitPrice := by
      by_cases listed : deserializeOrderToSRAOrder row ∈ fillable now rows signedOrder
      · have mem := (apiOrdersPerm env now rows signedOrder).symm.subset listed
        refine (matchLoopFills apiOrdersOpen some'.le (apiOrdersSorted sorts now rows signedOrder) mem).imp_left ?_
        exact fun taken => tradedOfOne distinct taken
      · rcases (bounded row inside).eq_or_lt with full | left
        · left
          rw [untraded keys inside listed, full, sub_self]
        · right
          exact (matchStops sorts some' _).mp (enough row inside isFresh left crosses listed)
    exact {
      resting := fun fill mem => by
        obtain ⟨row,inside,same⟩ := List.mem_map.mp (fillableSublist.subset (matchRead mem))
        exact ⟨row,inside,same.symm⟩
      bounded := fun fill mem => by
        refine ⟨matchLoopPositive _ _ (fun o listed => ?_) fill mem,matchLoopBounded _ _ fill mem⟩
        exact fillableOpen ((apiOrdersPerm env now rows signedOrder).subset listed)
      distinct := distinct
      total := matchLoopTotal _ _
      nonneg := matchLoopLeft _ some'.le
      priced := fun fill mem => fillableCrosses (matchRead mem)
      maximal := fun more row inside isFresh crosses =>
        (filled row inside isFresh crosses).resolve_right fun h => more.ne' h.1
      priority := fun fill mem row inside isFresh crosses better =>
        (filled row inside isFresh crosses).resolve_right fun h => (h.2 fill mem).not_gt better }

/-- A row that `isFreshOrder` takes with its buffer, but not with the position of the row for one, has
enough offered beside it at prices up to its own. -/
def Covered (buffer : Nat) (now : ℚ) (rows : List SignedOrderEntity) (signedOrder : SignedOrder) : Prop :=
  ∀ (i : Nat) (row : SignedOrderEntity), rows[i]? = some row →
    isFreshOrder now (deserializeOrderToSRAOrder row) buffer = true →
    isFreshOrder now (deserializeOrderToSRAOrder row) i = false →
    row.filledAmount < row.amount → Crosses signedOrder row.limitPrice →
    signedOrder.amount ≤ offeredUpTo now rows signedOrder row.limitPrice

theorem matchesInPriority (env : Environment) (buffer : Nat) (now : ℚ) (table : Table)
    (rows : List SignedOrderEntity) (signedOrder : SignedOrder) (sorts : env.Sorts)
    (read : rows.Perm (findBy signedOrder table))
    (bounded : ∀ row ∈ table.rows, 0 ≤ row.filledAmount ∧ row.filledAmount ≤ row.amount)
    (some' : 0 < signedOrder.amount) :
    MatchedInPriority env (fun row => isFreshOrder now (deserializeOrderToSRAOrder row) buffer = true)
      now rows signedOrder ↔ Covered buffer now rows signedOrder := by
  have keys : (rows.map SignedOrderEntity.hash).Nodup :=
    (read.map _).nodup_iff.mpr (findByDistinct signedOrder table)
  have filled : ∀ row ∈ rows, row.filledAmount ≤ row.amount := fun row inside =>
    (bounded row (memFindBy.mp (read.subset inside)).1).2
  have enough : InPriority (fun row => isFreshOrder now (deserializeOrderToSRAOrder row) buffer = true)
      rows signedOrder (matchOrders env now rows signedOrder) ↔ _ := matchedInPriority sorts keys filled some'
  constructor
  · intro h i row at' isFresh passed left crosses
    refine enough.mp h.chosen row (List.mem_of_getElem? at') isFresh left crosses fun listed => ?_
    exact Bool.false_ne_true (passed.symm.trans ((memFillable keys at').mp listed).1)
  · intro covered
    refine ⟨enough.mpr fun row inside isFresh left crosses missed => ?_,fun plan ok => ?_⟩
    · obtain ⟨i,at'⟩ := List.mem_iff_getElem?.mp inside
      refine covered i row at' isFresh (Bool.eq_false_iff.mpr fun kept => missed ?_) left crosses
      exact (memFillable keys at').mpr ⟨kept,left,crossesIff.mp crosses⟩
    · exact ⟨fulfillMatches ok,(planned ok).trades,decide_eq_true_iff⟩

theorem coveredShort {buffer : Nat} (short : rows.length ≤ buffer + 1) :
    Covered buffer now rows signedOrder := by
  intro i row at' isFresh passed
  have early : i ≤ buffer := by
    have bound := (List.getElem?_eq_some_iff.mp at').1
    omega
  have sooner : now + i ≤ now + buffer := by gcongr
  have kept : isFreshOrder now (deserializeOrderToSRAOrder row) i = true :=
    decide_eq_true (sooner.trans_lt (of_decide_eq_true isFresh))
  exact absurd (passed.symm.trans kept) Bool.false_ne_true

end

def sampleAskTable : Table := ⟨sampleAsks,by decide +kernel⟩

theorem sampleMatchedInPriority : MatchedInPriority .sample
    (fun row => isFreshOrder 0 (deserializeOrderToSRAOrder row) 10 = true) 0 sampleAsks sampleBuyer := by
  have asked : findBy sampleBuyer sampleAskTable = sampleAsks := by decide +kernel
  refine (matchesInPriority .sample 10 0 sampleAskTable sampleAsks sampleBuyer sampleSorts ?_ ?_ ?_).mpr
    (coveredShort (by decide))
  · rw [asked]
  · decide +kernel
  · decide +kernel

def sampleLateAsks : List SignedOrderEntity :=
  ((List.range 12).map fun n => { sampleMaker 0 with hash := n, expiration := 1 }) ++
    [{ sampleMaker 0 with expiration := 111 }]

def sampleLateTable : Table := ⟨sampleLateAsks,by decide +kernel⟩

theorem lateAskMissed : ¬ ∀ (env : Environment) (buffer : Nat) (now : ℚ) (table : Table)
    (rows : List SignedOrderEntity) (signedOrder : SignedOrder), env.Sorts →
    rows.Perm (findBy signedOrder table) →
    (∀ row ∈ table.rows, 0 ≤ row.filledAmount ∧ row.filledAmount ≤ row.amount) → 0 < signedOrder.amount →
    MatchedInPriority env (fun row => isFreshOrder now (deserializeOrderToSRAOrder row) buffer = true)
      now rows signedOrder := by
  intro claimed
  have asked : findBy (sampleSigned true 4 200) sampleLateTable = sampleLateAsks := by decide +kernel
  have unmatched : matchOrders .sample 100 sampleLateAsks (sampleSigned true 4 200) = (4,[]) := by decide +kernel
  have h := (claimed .sample 10 100 sampleLateTable sampleLateAsks (sampleSigned true 4 200) sampleSorts
    (by rw [asked]) (by decide +kernel) (by decide +kernel)).chosen
  rw [unmatched] at h
  have filled := h.maximal (by norm_num) { sampleMaker 0 with expiration := 111 } (by decide +kernel)
    (by decide +kernel) (by rw [crossesIff]; decide +kernel)
  exact absurd filled (by decide +kernel)

end OrderBook
end Perpetual
