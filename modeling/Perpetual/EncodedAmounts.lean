import Mathlib.Algebra.BigOperators.Ring.Finset
import Perpetual.MatchLimits
import Perpetual.PricePriority

/-! The amounts of a match as they are sent to the chain, a whole number for each fill, and as the
book and the trade history record them. -/
namespace Perpetual

namespace BigNumber

def toFixed2 (x : ℚ) : ℚ := toFixed0 (x * 100) / 100

theorem toFixed0AddInt {x : ℚ} (nonneg : 0 ≤ x) {n : ℤ} (more : 0 ≤ n) : toFixed0 (x + n) = toFixed0 x + n := by
  have more' : (0 : ℚ) ≤ n := Int.cast_nonneg more
  rw [toFixed0, toFixed0, if_neg (not_lt.mpr (add_nonneg nonneg more')), if_neg (not_lt.mpr nonneg),
    add_right_comm, Int.floor_add_intCast]

end BigNumber

namespace OrderBook
open Greedy

structure TransactionReceipt where
  transactionHash : Bytes32
  blockNumber : Nat

/-- A column of decimal text is the number that it spells. -/
structure TradeHistoryEntity where
  taker : Address
  maker : Address
  isBuy : Bool
  price : ℚ
  amount : ℤ
  hash : Bytes32
  blockNumber : Nat
  timestamp : ℤ
  deriving DecidableEq

def NULL_ADDRESS : Address := 0

section
variable (signedOrder : SignedOrder) (txRecipient : TransactionReceipt) (timestamp : ℤ)

def makerHistory (fill : SRAOrder × ℚ) : TradeHistoryEntity where
  taker := NULL_ADDRESS
  maker := fill.1.order.maker
  isBuy := fill.1.order.isBuy
  price := BigNumber.toFixed2 fill.1.order.limitPrice.value
  amount := BigNumber.toFixed0 fill.2
  hash := txRecipient.transactionHash
  blockNumber := txRecipient.blockNumber
  timestamp := timestamp

def takerHistory (plan : Plan) : TradeHistoryEntity where
  taker := signedOrder.maker
  maker := NULL_ADDRESS
  isBuy := signedOrder.isBuy
  price := BigNumber.toFixed2
    (BigNumber.div (volume priceOf plan.fills) (signedOrder.amount - plan.remainingAmount))
  amount := BigNumber.toFixed0 (signedOrder.amount - plan.remainingAmount)
  hash := txRecipient.transactionHash
  blockNumber := txRecipient.blockNumber
  timestamp := timestamp

def Plan.tradesHistory (plan : Plan) : List TradeHistoryEntity :=
  if plan.fills = [] then []
  else plan.fills.map (makerHistory txRecipient timestamp) ++
    [takerHistory signedOrder txRecipient timestamp plan]

end

structure Sent where
  apiOrder : SRAOrder
  tradedAmount : ℚ
  maker : TradeData
  taker : TradeData

def sentOf : List (SRAOrder × ℚ) → List TradeData → List Sent
  | (apiOrder,tradedAmount)::fills,maker::taker::datas =>
      ⟨apiOrder,tradedAmount,maker,taker⟩::sentOf fills datas
  | _,_ => []

def Plan.sent (plan : Plan) : List Sent := sentOf plan.fills (plan.trades.map TradeArg.data)

namespace Sent

def fill (s : Sent) : SRAOrder × ℚ := (s.apiOrder,s.tradedAmount)

def makerAmount (s : Sent) : Nat := s.maker.fill.amount.toNat

def takerAmount (s : Sent) : Nat := s.taker.fill.amount.toNat

structure Encoded (signedOrder : SignedOrder) (s : Sent) : Prop where
  maker : SignedOrder.FillEncoded s.apiOrder.order s.tradedAmount s.apiOrder.order.limitPrice
    s.apiOrder.order.limitFee s.maker
  taker : SignedOrder.FillEncoded signedOrder s.tradedAmount s.apiOrder.order.limitPrice
    s.apiOrder.order.limitFee s.taker

end Sent

structure AmountsKept (signedOrder : SignedOrder) (txRecipient : TransactionReceipt) (timestamp : ℤ)
    (plan : Plan) : Prop where
  taken : ∀ s ∈ plan.sent, (plan.sent.map Sent.takerAmount).sum ≤ s.taker.order.amount.toNat
  given : ∀ s ∈ plan.sent, (s.makerAmount : ℤ) + BigNumber.toFixed0 s.apiOrder.metaData.filledAmount ≤
    s.maker.order.amount.toNat
  booked : plan.updatedOrders.map SignedOrderEntity.filledAmount =
    plan.sent.map fun s => s.apiOrder.metaData.filledAmount + (s.makerAmount : ℚ)
  added : (plan.returned signedOrder).filledAmount = (plan.sent.map Sent.takerAmount).sum
  recorded : ∀ makers taker, plan.tradesHistory signedOrder txRecipient timestamp = makers ++ [taker] →
    makers.map TradeHistoryEntity.amount = plan.sent.map (fun s => (s.makerAmount : ℤ)) ∧
      taker.amount = (makers.map TradeHistoryEntity.amount).sum

def Whole (x : ℚ) : Prop := ∃ n : ℤ, x = n

theorem wholeSub {x y : ℚ} (whole : Whole y) : Whole (x - y) ↔ Whole x := by
  obtain ⟨m,rfl⟩ := whole
  constructor
  · rintro ⟨n,same⟩
    exact ⟨n + m,by rw [Int.cast_add, ← same, sub_add_cancel]⟩
  · rintro ⟨n,rfl⟩
    exact ⟨n - m,by rw [Int.cast_sub]⟩

def WholeLoop (orders : List SRAOrder) (amount : ℚ) : Prop :=
  (∀ before o after, orders = before ++ o::after → (before.map remainingOf).sum + remainingOf o ≤ amount →
    Whole (remainingOf o)) ∧ (Whole amount ∨ (orders.map remainingOf).sum ≤ amount)

theorem wholeSplits {first : SRAOrder} {rest : List SRAOrder} {amount : ℚ} :
    (∀ before o after, first::rest = before ++ o::after →
        (before.map remainingOf).sum + remainingOf o ≤ amount → Whole (remainingOf o)) ↔
      (remainingOf first ≤ amount → Whole (remainingOf first)) ∧
        ∀ before o after, rest = before ++ o::after →
          (before.map remainingOf).sum + remainingOf o ≤ amount - remainingOf first →
          Whole (remainingOf o) := by
  constructor
  · intro h
    refine ⟨fun low => h [] first rest rfl (by simpa using low),fun before o after split low => ?_⟩
    refine h (first::before) o after (congrArg _ split) ?_
    rw [List.map_cons, List.sum_cons]
    linarith
  · rintro ⟨now,later⟩ before o after split low
    cases before with
    | nil =>
      obtain ⟨rfl,_⟩ := List.cons.inj split
      exact now (by simpa using low)
    | cons other before =>
      obtain ⟨rfl,others⟩ := List.cons.inj split
      refine later before o after others ?_
      rw [List.map_cons, List.sum_cons] at low
      linarith

theorem matchLoopWholeIff {orders : List SRAOrder} {amount : ℚ} (open' : ∀ o ∈ orders, 0 < remainingOf o)
    (some' : 0 ≤ amount) :
    (∀ fill ∈ (matchLoop orders amount).2, Whole fill.2) ↔ WholeLoop orders amount := by
  induction orders generalizing amount with
  | nil => simp [WholeLoop, matchLoop, some']
  | cons first rest ih =>
    rw [List.forall_mem_cons] at open'
    have total := sumOpen fun o mem => (open'.2 o mem).le
    unfold WholeLoop at ih ⊢
    rw [wholeSplits, List.map_cons, List.sum_cons]
    rcases some'.eq_or_lt with rfl | more
    · rw [matchLoopNone _ le_rfl]
      refine iff_of_true (by simp) ⟨⟨fun low => ?_,fun before o after split low => ?_⟩,.inl ⟨0,rfl⟩⟩
      · exact absurd low (not_le.mpr open'.1)
      · rw [split] at open'
        have before' := remainingBefore fun a mem => (open'.2 a mem).le
        have this' := open'.2 o (by simp)
        linarith
    · rw [matchLoopCons (not_le.mpr more), List.forall_mem_cons]
      rcases le_or_gt (remainingOf first) amount with whole | part
      · rw [min_eq_right whole, ih open'.2 (sub_nonneg.mpr whole)]
        have last : (rest.map remainingOf).sum ≤ amount - remainingOf first ↔
            remainingOf first + (rest.map remainingOf).sum ≤ amount := le_sub_iff_add_le'
        constructor
        · rintro ⟨here,later,all⟩
          exact ⟨⟨fun _ => here,later⟩,all.imp (wholeSub here).mp last.mp⟩
        · rintro ⟨⟨here,later⟩,all⟩
          exact ⟨here whole,later,all.imp (wholeSub (here whole)).mpr last.mpr⟩
      · rw [min_eq_left part.le, sub_self, matchLoopNone _ le_rfl]
        constructor
        · rintro ⟨here,_⟩
          refine ⟨⟨fun low => absurd low (not_le.mpr part),fun before o after split low => ?_⟩,.inl here⟩
          rw [split] at open'
          have before' := remainingBefore fun a mem => (open'.2 a mem).le
          have this' := open'.2 o (by simp)
          linarith
        · rintro ⟨_,all⟩
          refine ⟨all.resolve_right fun low => ?_,by simp⟩
          linarith

section
variable {env : Environment} {now : ℚ} {rows : List SignedOrderEntity} {signedOrder : SignedOrder}
  {plan : Plan} {fills : List (SRAOrder × ℚ)} {datas : List TradeData}

theorem sentFills (made : Trades env signedOrder fills datas) : (sentOf fills datas).map Sent.fill = fills := by
  induction made with
  | none => rfl
  | more makerFill takerFill others ih => rw [sentOf, List.map_cons, ih, Sent.fill]

theorem sentEncoded (made : Trades env signedOrder fills datas) :
    ∀ s ∈ sentOf fills datas, s.Encoded signedOrder := by
  induction made with
  | none => exact List.forall_mem_nil _
  | more makerFill takerFill others ih => exact List.forall_mem_cons.mpr ⟨⟨makerFill,takerFill⟩,ih⟩

theorem Sent.Encoded.whole {s : Sent} (sent : s.Encoded signedOrder) (whole : Whole s.tradedAmount) :
    (s.makerAmount : ℚ) = s.tradedAmount ∧ (s.takerAmount : ℚ) = s.tradedAmount := by
  obtain ⟨n,same⟩ := whole
  have maker := sent.maker.amount
  have taker := sent.taker.amount
  rw [same, BigNumber.toFixed0Int] at maker taker
  rw [same, ← maker]
  exact ⟨(Int.cast_natCast _).symm,by rw [maker, ← taker]; rfl⟩

theorem sentPairs (ok : fulfillOrder env now rows signedOrder = .ok plan) :
    plan.sent.map Sent.fill = plan.fills := sentFills (planned ok).trades

theorem sentFill (ok : fulfillOrder env now rows signedOrder = .ok plan) {s : Sent} (sent : s ∈ plan.sent) :
    s.fill ∈ plan.fills := by
  rw [← sentPairs ok]
  exact List.mem_map_of_mem sent

theorem sentWhole (ok : fulfillOrder env now rows signedOrder = .ok plan)
    (whole : ∀ fill ∈ plan.fills, Whole fill.2) {s : Sent} (sent : s ∈ plan.sent) :
    (s.makerAmount : ℚ) = s.tradedAmount ∧ (s.takerAmount : ℚ) = s.tradedAmount :=
  (sentEncoded (planned ok).trades s sent).whole (whole s.fill (sentFill ok sent))

theorem sentTotal (ok : fulfillOrder env now rows signedOrder = .ok plan)
    (whole : ∀ fill ∈ plan.fills, Whole fill.2) :
    ((plan.sent.map Sent.takerAmount).sum : ℚ) = signedOrder.amount - plan.remainingAmount := by
  rw [← (planned ok).total, ← sentPairs ok, List.map_map, Nat.cast_list_sum, List.map_map]
  exact congrArg List.sum (List.map_congr_left fun s sent => (sentWhole ok whole sent).2)

theorem takenWithin (ok : fulfillOrder env now rows signedOrder = .ok plan)
    (whole : ∀ fill ∈ plan.fills, Whole fill.2) (some' : 0 < signedOrder.amount) {s : Sent}
    (sent : s ∈ plan.sent) : (plan.sent.map Sent.takerAmount).sum ≤ s.taker.order.amount.toNat := by
  have remaining : plan.remainingAmount = (matchOrders env now rows signedOrder).1 :=
    congrArg Prod.fst (fulfillMatches ok)
  have left : 0 ≤ plan.remainingAmount := by
    rw [remaining]
    exact matchLoopLeft _ some'.le
  have order := (SignedOrder.encoded.mp (sentEncoded (planned ok).trades s sent).taker.order).amount
  have less := BigNumber.toFixed0Mono (sub_le_self signedOrder.amount left)
  rw [← sentTotal ok whole, ← Int.cast_natCast, BigNumber.toFixed0Int, ← order] at less
  exact Int.ofNat_le.mp less

theorem givenWithin (ok : fulfillOrder env now rows signedOrder = .ok plan)
    (whole : ∀ fill ∈ plan.fills, Whole fill.2) (positive : ∀ row ∈ rows, 0 ≤ row.filledAmount) {s : Sent}
    (sent : s ∈ plan.sent) : (s.makerAmount : ℤ) +
      BigNumber.toFixed0 s.apiOrder.metaData.filledAmount ≤ s.maker.order.amount.toNat := by
  have order := (SignedOrder.encoded.mp (sentEncoded (planned ok).trades s sent).maker.order).amount
  have mem := sentFill ok sent
  have nonneg : 0 ≤ s.apiOrder.metaData.filledAmount := by
    obtain ⟨row,listed,same,_⟩ := (planned ok).read mem
    have filled : s.apiOrder.metaData.filledAmount = row.filledAmount :=
      congrArg (fun o => o.metaData.filledAmount) same
    rw [filled]
    exact positive row listed
  have within : s.apiOrder.metaData.filledAmount + s.makerAmount ≤ s.apiOrder.order.amount := by
    rw [(sentWhole ok whole sent).1, ← le_sub_iff_add_le']
    exact matchLoopBounded _ _ s.fill (by rwa [fulfillFills ok] at mem)
  rw [← Int.cast_natCast s.makerAmount] at within
  rw [order, add_comm, ← BigNumber.toFixed0AddInt nonneg (Int.natCast_nonneg _)]
  exact BigNumber.toFixed0Mono within

theorem bookedIff (ok : fulfillOrder env now rows signedOrder = .ok plan) :
    plan.updatedOrders.map SignedOrderEntity.filledAmount =
        plan.sent.map (fun s => s.apiOrder.metaData.filledAmount + (s.makerAmount : ℚ)) ↔
      ∀ s ∈ plan.sent, (s.makerAmount : ℚ) = s.tradedAmount := by
  rw [Plan.updatedOrders, ← sentPairs ok, List.map_map, List.map_map, List.map_inj_left]
  refine forall₂_congr fun s sent => ?_
  change s.apiOrder.metaData.filledAmount + s.tradedAmount = _ ↔ _
  rw [add_right_inj, eq_comm]

theorem makersRecorded (ok : fulfillOrder env now rows signedOrder = .ok plan)
    (txRecipient : TransactionReceipt) (timestamp : ℤ) :
    (plan.fills.map (makerHistory txRecipient timestamp)).map TradeHistoryEntity.amount =
      plan.sent.map fun s => (s.makerAmount : ℤ) := by
  rw [← sentPairs ok, List.map_map, List.map_map]
  refine List.map_congr_left fun s sent => ?_
  exact (sentEncoded (planned ok).trades s sent).maker.amount.symm

theorem takerRecorded (ok : fulfillOrder env now rows signedOrder = .ok plan)
    (whole : ∀ fill ∈ plan.fills, Whole fill.2) (txRecipient : TransactionReceipt) (timestamp : ℤ) :
    (takerHistory signedOrder txRecipient timestamp plan).amount =
      (plan.sent.map fun s => (s.makerAmount : ℤ)).sum := by
  have makers : plan.sent.map Sent.takerAmount = plan.sent.map Sent.makerAmount := by
    refine List.map_congr_left fun s sent => Nat.cast_injective (R := ℚ) ?_
    rw [(sentWhole ok whole sent).1, (sentWhole ok whole sent).2]
  have sum : (plan.sent.map fun s => (s.makerAmount : ℤ)).sum =
      ((plan.sent.map Sent.makerAmount).sum : ℕ) := by
    rw [Nat.cast_list_sum, List.map_map]
    rfl
  rw [sum, takerHistory, ← sentTotal ok whole, ← Int.cast_natCast, BigNumber.toFixed0Int, makers]

theorem keptIff (ok : fulfillOrder env now rows signedOrder = .ok plan) (txRecipient : TransactionReceipt)
    (timestamp : ℤ) (some' : 0 < signedOrder.amount) (positive : ∀ row ∈ rows, 0 ≤ row.filledAmount) :
    AmountsKept signedOrder txRecipient timestamp plan ↔ ∀ fill ∈ plan.fills, Whole fill.2 := by
  constructor
  · intro h fill mem
    rw [← sentPairs ok] at mem
    obtain ⟨s,sent,rfl⟩ := List.mem_map.mp mem
    exact ⟨s.makerAmount,((bookedIff ok).mp h.booked s sent).symm.trans (Int.cast_natCast _).symm⟩
  · intro whole
    refine ⟨fun s sent => takenWithin ok whole some' sent,fun s sent => givenWithin ok whole positive sent,
      (bookedIff ok).mpr fun s sent => (sentWhole ok whole sent).1,(sentTotal ok whole).symm,?_⟩
    intro makers taker listed
    unfold Plan.tradesHistory at listed
    split at listed
    · exact absurd listed (by simp)
    · obtain ⟨rfl,last⟩ := List.append_inj' listed rfl
      obtain rfl := List.head_eq_of_cons_eq last
      refine ⟨makersRecorded ok txRecipient timestamp,?_⟩
      rw [makersRecorded ok, takerRecorded ok whole]

theorem wholeRemaining {o : SRAOrder} (mem : o ∈ apiOrders env now rows signedOrder) :
    Whole (remainingOf o) ↔ Whole o.metaData.filledAmount := by
  have listed := fillableSublist.subset ((apiOrdersPerm env now rows signedOrder).subset mem)
  obtain ⟨row,_,rfl⟩ := List.mem_map.mp listed
  constructor
  · rintro ⟨n,same⟩
    exact ⟨row.amount - n,by rw [Int.cast_sub, ← same, remainingOf]; exact (sub_sub_cancel _ _).symm⟩
  · rintro ⟨n,same⟩
    exact ⟨row.amount - n,by rw [Int.cast_sub, ← same]; rfl⟩

end

/-- Of the matching orders as they are sorted, those that the incoming order can use up have been filled
by whole amounts, and the incoming amount is whole unless it takes them all. -/
def WholeMatch (env : Environment) (now : ℚ) (rows : List SignedOrderEntity) (signedOrder : SignedOrder) :
    Prop :=
  (∀ before o after, apiOrders env now rows signedOrder = before ++ o::after →
    (before.map remainingOf).sum + remainingOf o ≤ signedOrder.amount → Whole o.metaData.filledAmount) ∧
  (Whole signedOrder.amount ∨ ((fillable now rows signedOrder).map remainingOf).sum ≤ signedOrder.amount)

theorem wholeMatch {env : Environment} {now : ℚ} {rows : List SignedOrderEntity} {signedOrder : SignedOrder}
    (filled : ∀ row ∈ rows, Whole row.filledAmount) (amount : Whole signedOrder.amount) :
    WholeMatch env now rows signedOrder := by
  refine ⟨fun before o after listed _ => ?_,.inl amount⟩
  have mem : o ∈ apiOrders env now rows signedOrder := by
    rw [listed]
    exact List.mem_append_right _ List.mem_cons_self
  have stored := fillableSublist.subset ((apiOrdersPerm env now rows signedOrder).subset mem)
  obtain ⟨row,inside,rfl⟩ := List.mem_map.mp stored
  exact filled row inside

theorem amountsSurvive (env : Environment) (now : ℚ) (rows : List SignedOrderEntity)
    (signedOrder : SignedOrder) (plan : Plan) (txRecipient : TransactionReceipt) (timestamp : ℤ)
    (positive : ∀ row ∈ rows, 0 ≤ row.filledAmount) (some' : 0 < signedOrder.amount)
    (ok : fulfillOrder env now rows signedOrder = .ok plan) :
    AmountsKept signedOrder txRecipient timestamp plan ↔ WholeMatch env now rows signedOrder := by
  have perm := apiOrdersPerm env now rows signedOrder
  have open' : ∀ o ∈ apiOrders env now rows signedOrder, 0 < remainingOf o := fun o mem =>
    sub_pos.mpr (fillableOpen (perm.subset mem))
  rw [keptIff ok txRecipient timestamp some' positive, fulfillFills ok, matchOrders,
    matchLoopWholeIff open' some'.le, WholeLoop, WholeMatch, (perm.map remainingOf).sum_eq]
  refine and_congr_left' ?_
  refine forall₄_congr fun before o after listed => imp_congr_right fun _ => ?_
  have mem : o ∈ apiOrders env now rows signedOrder := by
    rw [listed]
    exact List.mem_append_right _ List.mem_cons_self
  exact wholeRemaining mem

def sampleReceipt : TransactionReceipt := ⟨0,0⟩

theorem sampleAmountsSurvive : ∃ plan, fulfillOrder .sample 0 sampleAsks sampleBuyer = .ok plan ∧
    plan.sent.length = 1 ∧ AmountsKept sampleBuyer sampleReceipt 0 plan := by
  have sent : (do
      let plan ← fulfillOrder .sample 0 sampleAsks sampleBuyer
      return plan.sent.length) = .ok 1 := by decide +kernel
  simp only [Checked.bindOk, Checked.pureOk] at sent
  obtain ⟨plan,ok,one⟩ := sent
  have filled : ∀ row ∈ sampleAsks, row.filledAmount = 0 := by decide +kernel
  refine ⟨plan,ok,one,(amountsSurvive .sample 0 sampleAsks sampleBuyer plan sampleReceipt 0
    (fun row mem => (filled row mem).ge) (by decide +kernel) ok).mpr ?_⟩
  exact wholeMatch (fun row mem => ⟨0,(filled row mem).trans Int.cast_zero.symm⟩) ⟨1,Int.cast_one.symm⟩

theorem halfRecorded : ¬ ∀ (env : Environment) (now : ℚ) (rows : List SignedOrderEntity)
    (signedOrder : SignedOrder) (plan : Plan) (txRecipient : TransactionReceipt) (timestamp : ℤ),
    (∀ row ∈ rows, 0 ≤ row.filledAmount) → 0 < signedOrder.amount →
    fulfillOrder env now rows signedOrder = .ok plan →
    AmountsKept signedOrder txRecipient timestamp plan := by
  intro claimed
  have matched : (do
      let plan ← fulfillOrder .sample 0 [sampleMaker 0] (sampleSigned true (1 / 2) 100)
      return (plan.updatedOrders.map SignedOrderEntity.filledAmount,
        plan.sent.map fun (s : Sent) => s.apiOrder.metaData.filledAmount + (s.makerAmount : ℚ))) =
      .ok ([1 / 2],[1]) := by decide +kernel
  simp only [Checked.bindOk, Checked.pureOk, Prod.mk.injEq] at matched
  obtain ⟨plan,ok,booked,sent⟩ := matched
  have h := claimed .sample 0 [sampleMaker 0] (sampleSigned true (1 / 2) 100) plan sampleReceipt 0
    (by decide +kernel) (by decide +kernel) ok
  have same := h.booked
  rw [booked, sent] at same
  exact absurd same (by decide +kernel)

end OrderBook
end Perpetual
