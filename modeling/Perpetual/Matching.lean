import Mathlib.Algebra.BigOperators.Group.List.Basic
import Mathlib.Algebra.Order.BigOperators.Group.List
import Mathlib.Data.List.Induction
import Perpetual.OrderBook
import Perpetual.OrderHistory

/-! What a match asks of the chain, and what a commit leaves there. -/
namespace Perpetual
namespace OrderBook

theorem filterIndexedSublist {α : Type} (keep : α → Nat → Bool) (values : List α) :
    (filterIndexed keep values).Sublist values := by
  have kept := (List.filter_sublist (p := fun entry => keep entry.1 entry.2)
    (l := values.zipIdx)).map Prod.fst
  rwa [List.zipIdx_map_fst] at kept

theorem rereads (row : SignedOrderEntity) (tradedAmount : ℚ) :
    deserializeOrderToSRAOrder (serializeOrder (updated (deserializeOrderToSRAOrder row) tradedAmount)) =
      updated (deserializeOrderToSRAOrder row) tradedAmount := by
  simp only [deserializeOrderToSRAOrder, deserializeOrder, serializeOrder, updated,
    BigNumber.toFixed0Int, BaseValue.ofValue]

theorem memFindBy {signedOrder : SignedOrder} {table : Table} {row : SignedOrderEntity} :
    row ∈ findBy signedOrder table ↔ row ∈ table.rows ∧ row.isBuy = !signedOrder.isBuy := by
  simp [findBy]

theorem findByDistinct (signedOrder : SignedOrder) (table : Table) :
    ((findBy signedOrder table).map SignedOrderEntity.hash).Nodup := by
  unfold findBy
  exact table.distinct.sublist (List.filter_sublist.map SignedOrderEntity.hash)

section
variable {now : ℚ} {rows : List SignedOrderEntity} {signedOrder : SignedOrder}

theorem fillableSublist :
    (fillable now rows signedOrder).Sublist (rows.map deserializeOrderToSRAOrder) :=
  (List.filter_sublist.trans List.filter_sublist).trans (filterIndexedSublist _ _)

theorem fillableOpen {apiOrder : SRAOrder} (mem : apiOrder ∈ fillable now rows signedOrder) :
    apiOrder.metaData.filledAmount < apiOrder.order.amount :=
  of_decide_eq_true (List.mem_filter.mp (List.mem_filter.mp mem).1).2

theorem fillsDistinct {orders : List SRAOrder} {fills : List (SRAOrder × ℚ)}
    (perm : orders.Perm (fillable now rows signedOrder)) (sub : (fills.map Prod.fst).Sublist orders)
    (keys : (rows.map SignedOrderEntity.hash).Nodup) :
    (fills.map fun fill => fill.1.metaData.orderHash).Nodup := by
  have hashes : ((fillable now rows signedOrder).map fun o => o.metaData.orderHash).Nodup := by
    refine List.Nodup.sublist (fillableSublist.map _) ?_
    rw [List.map_map]
    exact keys
  have listed := (perm.map fun o => o.metaData.orderHash).nodup_iff.mpr hashes
  have part := listed.sublist (sub.map fun o => o.metaData.orderHash)
  rwa [List.map_map] at part

end

def remainingOf (apiOrder : SRAOrder) : ℚ := apiOrder.order.amount - apiOrder.metaData.filledAmount

theorem matchLoopCons {apiOrder : SRAOrder} {rest : List SRAOrder} {remainingAmount : ℚ}
    (some' : ¬remainingAmount ≤ 0) :
    matchLoop (apiOrder::rest) remainingAmount =
      ((matchLoop rest (remainingAmount - min remainingAmount (remainingOf apiOrder))).1,
        (apiOrder,min remainingAmount (remainingOf apiOrder))::
          (matchLoop rest (remainingAmount - min remainingAmount (remainingOf apiOrder))).2) := by
  rw [matchLoop, if_neg some']
  rfl

theorem matchLoopNone (orders : List SRAOrder) {remainingAmount : ℚ} (none' : remainingAmount ≤ 0) :
    matchLoop orders remainingAmount = (remainingAmount,[]) := by
  cases orders with
  | nil => rfl
  | cons apiOrder rest => rw [matchLoop, if_pos none']

theorem matchLoopSublist (orders : List SRAOrder) (remainingAmount : ℚ) :
    ((matchLoop orders remainingAmount).2.map Prod.fst).Sublist orders := by
  fun_induction matchLoop orders remainingAmount with
  | case1 => exact .slnil
  | case2 => exact List.nil_sublist _
  | case3 apiOrder rest remainingAmount some' tradedAmount left fills same ih =>
    rw [same] at ih
    exact ih.cons_cons apiOrder

theorem matchLoopTotal (orders : List SRAOrder) (remainingAmount : ℚ) :
    ((matchLoop orders remainingAmount).2.map Prod.snd).sum =
      remainingAmount - (matchLoop orders remainingAmount).1 := by
  fun_induction matchLoop orders remainingAmount with
  | case1 | case2 => simp
  | case3 apiOrder rest remainingAmount some' tradedAmount left fills same ih =>
    rw [same] at ih
    simp only [List.map_cons, List.sum_cons] at ih ⊢
    rw [ih]
    ring

theorem matchLoopPositive (orders : List SRAOrder) (remainingAmount : ℚ)
    (open' : ∀ o ∈ orders, o.metaData.filledAmount < o.order.amount) :
    ∀ fill ∈ (matchLoop orders remainingAmount).2, 0 < fill.2 := by
  fun_induction matchLoop orders remainingAmount with
  | case1 | case2 => simp
  | case3 apiOrder rest remainingAmount some' tradedAmount left fills same ih =>
    rw [same] at ih
    rw [List.forall_mem_cons] at open' ⊢
    exact ⟨lt_min (not_le.mp some') (sub_pos.mpr open'.1),ih open'.2⟩

theorem matchLoopWhole (orders : List SRAOrder) (remainingAmount : ℚ)
    (whole : ∀ o ∈ orders, ∃ n : ℤ, o.order.amount - o.metaData.filledAmount = n)
    (wholeAmount : ∃ n : ℤ, remainingAmount = n) :
    ∀ fill ∈ (matchLoop orders remainingAmount).2, ∃ n : ℤ, fill.2 = n := by
  fun_induction matchLoop orders remainingAmount with
  | case1 | case2 => simp
  | case3 apiOrder rest remainingAmount some' tradedAmount left fills same ih =>
    rw [same] at ih
    rw [List.forall_mem_cons] at whole ⊢
    obtain ⟨⟨n,hn⟩,others⟩ := whole
    obtain ⟨m,rfl⟩ := wholeAmount
    have traded : tradedAmount = ((min m n : ℤ) : ℚ) := by
      rw [Int.cast_min, ← hn]
    exact ⟨⟨_,traded⟩,ih others ⟨m - min m n,by rw [traded, Int.cast_sub]⟩⟩

theorem wholeSum {fills : List (SRAOrder × ℚ)} (whole : ∀ fill ∈ fills, ∃ n : ℤ, fill.2 = n) :
    ∃ n : ℤ, (fills.map Prod.snd).sum = n := by
  induction fills with
  | nil => exact ⟨0,by simp⟩
  | cons fill rest ih =>
    rw [List.forall_mem_cons] at whole
    obtain ⟨⟨n,first⟩,others⟩ := whole
    obtain ⟨m,later⟩ := ih others
    exact ⟨n + m,by rw [List.map_cons, List.sum_cons, first, later, Int.cast_add]⟩

inductive Trades (env : Environment) (signedOrder : SignedOrder) :
    List (SRAOrder × ℚ) → List TradeData → Prop where
  | none : Trades env signedOrder [] []
  | more {apiOrder : SRAOrder} {tradedAmount : ℚ} {rest : List (SRAOrder × ℚ)} {maker taker : TradeData}
      {trades : List TradeData}
      (makerFill : SignedOrder.FillEncoded apiOrder.order tradedAmount apiOrder.order.limitPrice
        apiOrder.order.limitFee maker)
      (takerFill : SignedOrder.FillEncoded signedOrder tradedAmount apiOrder.order.limitPrice
        apiOrder.order.limitFee taker)
      (others : Trades env signedOrder rest trades) :
      Trades env signedOrder ((apiOrder,tradedAmount)::rest) (maker::taker::trades)

theorem fillSigned {env : Environment} {taker : Address} {order : SignedOrder} {amount : ℚ}
    {price fee : BaseValue} {arg : TradeArg}
    (ok : fillSignedOrder env taker order amount price fee = .ok arg) :
    SignedOrder.FillEncoded order amount price fee arg.data := by
  simp only [fillSignedOrder, Checked.bindOk, Checked.pureOk] at ok
  obtain ⟨data,encoded,rfl⟩ := ok
  exact SignedOrder.fillEncoded encoded

theorem trades {env : Environment} {signedOrder : SignedOrder} {fills : List (SRAOrder × ℚ)}
    {args : List TradeArg} (ok : tradesOf env signedOrder fills = .ok args) :
    Trades env signedOrder fills (args.map TradeArg.data) := by
  induction fills generalizing args with
  | nil =>
    cases ok
    exact .none
  | cons fill rest ih =>
    simp only [tradesOf, Checked.bindOk, Checked.pureOk] at ok
    obtain ⟨maker,makerOk,taker,takerOk,others,othersOk,rfl⟩ := ok
    exact .more (fillSigned makerOk) (fillSigned takerOk) (ih othersOk)

namespace Trades
variable {env : Environment} {signedOrder : SignedOrder} {fills : List (SRAOrder × ℚ)}
  {datas : List TradeData}

theorem makerEncoded (made : Trades env signedOrder fills datas) {fill : SRAOrder × ℚ}
    (mem : fill ∈ fills) :
    ∃ solidityOrder, SignedOrder.orderToSolidity fill.1.order = .ok solidityOrder := by
  induction made with
  | none => cases mem
  | more makerFill takerFill others ih =>
    rcases List.mem_cons.mp mem with rfl | later
    · exact ⟨_,makerFill.order⟩
    · exact ih later

theorem takerEncoded (made : Trades env signedOrder fills datas) (some' : fills ≠ []) :
    ∃ solidityOrder, SignedOrder.orderToSolidity signedOrder = .ok solidityOrder := by
  cases made with
  | none => exact absurd rfl some'
  | more makerFill takerFill others => exact ⟨_,takerFill.order⟩

theorem hashed (made : Trades env signedOrder fills datas) (some' : fills ≠ []) :
    ∃ incoming, env.getOrderHash signedOrder = .ok incoming := by
  obtain ⟨solidityOrder,encodes⟩ := made.takerEncoded some'
  exact ⟨_,SignedOrder.hashed env.crypto env.domainHash encodes⟩

end Trades

def apiOrders (env : Environment) (now : ℚ) (rows : List SignedOrderEntity) (signedOrder : SignedOrder) :
    List SRAOrder :=
  env.sort (fun orderA orderB => if signedOrder.isBuy
    then compareAskOrder orderA.order orderB.order
    else compareBidOrder orderA.order orderB.order) (fillable now rows signedOrder)

def matchOrders (env : Environment) (now : ℚ) (rows : List SignedOrderEntity)
    (signedOrder : SignedOrder) : ℚ × List (SRAOrder × ℚ) :=
  matchLoop (apiOrders env now rows signedOrder) signedOrder.amount

theorem apiOrdersPerm (env : Environment) (now : ℚ) (rows : List SignedOrderEntity)
    (signedOrder : SignedOrder) :
    (apiOrders env now rows signedOrder).Perm (fillable now rows signedOrder) := env.sorted _ _

theorem apiOrdersOpen {env : Environment} {now : ℚ} {rows : List SignedOrderEntity}
    {signedOrder : SignedOrder} : ∀ o ∈ apiOrders env now rows signedOrder, 0 ≤ remainingOf o :=
  fun _ mem => (sub_pos.mpr (fillableOpen ((apiOrdersPerm env now rows signedOrder).subset mem))).le

theorem fulfillMatches {env : Environment} {now : ℚ} {rows : List SignedOrderEntity}
    {signedOrder : SignedOrder} {plan : Plan} (ok : fulfillOrder env now rows signedOrder = .ok plan) :
    (plan.remainingAmount,plan.fills) = matchOrders env now rows signedOrder := by
  unfold fulfillOrder at ok
  simp only at ok
  split at ok
  · simp only [Checked.bindOk, Checked.pureOk] at ok
    obtain ⟨args,_,rfl⟩ := ok
    rfl
  · rename_i nothing
    rw [Checked.pureOk] at ok
    subst ok
    rw [matchOrders]
    cases orders : apiOrders env now rows signedOrder with
    | nil => rfl
    | cons o rest =>
      have some' : fillable now rows signedOrder ≠ [] := fun none' => by
        have perm := apiOrdersPerm env now rows signedOrder
        rw [orders, none'] at perm
        exact absurd perm.eq_nil (List.cons_ne_nil o rest)
      exact (matchLoopNone _ (not_lt.mp fun more => nothing ⟨some',more⟩)).symm

theorem fulfillFills {env : Environment} {now : ℚ} {rows : List SignedOrderEntity}
    {signedOrder : SignedOrder} {plan : Plan} (ok : fulfillOrder env now rows signedOrder = .ok plan) :
    plan.fills = (matchOrders env now rows signedOrder).2 := congrArg Prod.snd (fulfillMatches ok)

theorem fulfillTrades {env : Environment} {now : ℚ} {rows : List SignedOrderEntity}
    {signedOrder : SignedOrder} {plan : Plan} (ok : fulfillOrder env now rows signedOrder = .ok plan) :
    tradesOf env signedOrder plan.fills = .ok plan.trades := by
  unfold fulfillOrder at ok
  simp only at ok
  split at ok
  · simp only [Checked.bindOk, Checked.pureOk] at ok
    obtain ⟨args,encoded,rfl⟩ := ok
    exact encoded
  · rw [Checked.pureOk] at ok
    subst ok
    rfl

structure Planned (env : Environment) (now : ℚ) (rows : List SignedOrderEntity)
    (signedOrder : SignedOrder) (plan : Plan) : Prop where
  trades : Trades env signedOrder plan.fills (plan.trades.map TradeArg.data)
  listed : ∃ orders : List SRAOrder, orders.Perm (fillable now rows signedOrder) ∧
    (plan.fills.map Prod.fst).Sublist orders
  total : (plan.fills.map Prod.snd).sum = signedOrder.amount - plan.remainingAmount
  positive : ∀ fill ∈ plan.fills, 0 < fill.2
  whole : (∀ row ∈ rows, ∃ n : ℤ, row.filledAmount = n) → (∃ n : ℤ, signedOrder.amount = n) →
    ∀ fill ∈ plan.fills, ∃ n : ℤ, fill.2 = n

theorem planned {env : Environment} {now : ℚ} {rows : List SignedOrderEntity} {signedOrder : SignedOrder}
    {plan : Plan} (ok : fulfillOrder env now rows signedOrder = .ok plan) :
    Planned env now rows signedOrder plan := by
  have perm := apiOrdersPerm env now rows signedOrder
  have remaining : plan.remainingAmount = (matchOrders env now rows signedOrder).1 :=
    congrArg Prod.fst (fulfillMatches ok)
  refine ⟨trades (fulfillTrades ok),?_,?_,?_,?_⟩ <;> rw [fulfillFills ok]
  · exact ⟨_,perm,matchLoopSublist _ _⟩
  · rw [remaining]
    exact matchLoopTotal _ _
  · exact matchLoopPositive _ _ fun o mem => fillableOpen (perm.subset mem)
  · intro wholeRows wholeAmount
    refine matchLoopWhole _ _ (fun o mem => ?_) wholeAmount
    obtain ⟨row,inside,rfl⟩ := List.mem_map.mp (fillableSublist.subset (perm.subset mem))
    obtain ⟨n,filled⟩ := wholeRows row inside
    refine ⟨row.amount - n,?_⟩
    simp only [deserializeOrderToSRAOrder, deserializeOrder, filled, Int.cast_sub]

namespace Planned
variable {env : Environment} {now : ℚ} {rows : List SignedOrderEntity} {signedOrder : SignedOrder}
  {plan : Plan}

theorem read (h : Planned env now rows signedOrder plan) {fill : SRAOrder × ℚ} (mem : fill ∈ plan.fills) :
    ∃ row ∈ rows, fill.1 = deserializeOrderToSRAOrder row ∧ row.filledAmount < row.amount := by
  obtain ⟨orders,perm,sub⟩ := h.listed
  have inside := perm.subset (sub.subset (List.mem_map_of_mem mem))
  obtain ⟨row,listed,same⟩ := List.mem_map.mp (fillableSublist.subset inside)
  refine ⟨row,listed,same.symm,?_⟩
  have left := fillableOpen inside
  rwa [← same] at left

theorem distinct (h : Planned env now rows signedOrder plan)
    (keys : (rows.map SignedOrderEntity.hash).Nodup) :
    (plan.fills.map fun fill => fill.1.metaData.orderHash).Nodup := by
  obtain ⟨orders,perm,sub⟩ := h.listed
  exact fillsDistinct perm sub keys

end Planned

def tradedOf (h : Bytes32) (fills : List (SRAOrder × ℚ)) : ℚ :=
  (fills.map fun fill => if fill.1.metaData.orderHash = h then fill.2 else 0).sum

theorem tradedOfNone {h : Bytes32} {fills : List (SRAOrder × ℚ)}
    (away : ∀ fill ∈ fills, fill.1.metaData.orderHash ≠ h) : tradedOf h fills = 0 := by
  refine List.sum_eq_zero fun x mem => ?_
  obtain ⟨fill,inside,rfl⟩ := List.mem_map.mp mem
  exact if_neg (away fill inside)

theorem tradedOfOne {fills : List (SRAOrder × ℚ)}
    (distinct : (fills.map fun fill => fill.1.metaData.orderHash).Nodup) {fill : SRAOrder × ℚ}
    (mem : fill ∈ fills) : tradedOf fill.1.metaData.orderHash fills = fill.2 := by
  induction fills with
  | nil => cases mem
  | cons first rest ih =>
    rw [List.map_cons, List.nodup_cons] at distinct
    have split : tradedOf fill.1.metaData.orderHash (first::rest) =
        (if first.1.metaData.orderHash = fill.1.metaData.orderHash then first.2 else 0) +
          tradedOf fill.1.metaData.orderHash rest := List.sum_cons
    rw [split]
    rcases List.mem_cons.mp mem with rfl | later
    · rw [if_pos rfl, tradedOfNone fun other inside same => distinct.1 ?_, add_zero]
      exact List.mem_map.mpr ⟨other,inside,same⟩
    · rw [if_neg fun same => distinct.1 (List.mem_map.mpr ⟨fill,later,same.symm⟩), zero_add,
        ih distinct.2 later]

theorem filledOnChain {hash : Order → Bytes32} {data : TradeData} {filled filled' : Filled}
    (ok : fillOnChain hash data filled = .ok filled') (h : Bytes32) :
    filled' h = filled h + if hash data.order = h then data.fill.amount.toNat else 0 := by
  simp only [fillOnChain, Checked.bindOk, Checked.requireOk, exists_const, Checked.pureOk] at ok
  obtain ⟨_,rfl⟩ := ok
  by_cases here : hash data.order = h
  · rw [← here, Function.update_self, if_pos rfl]
  · rw [Function.update_of_ne (Ne.symm here), if_neg here, Nat.add_zero]

theorem fillOnChainGrows {hash : Order → Bytes32} {data : TradeData} {filled filled' : Filled}
    (ok : fillOnChain hash data filled = .ok filled') (h : Bytes32) : filled h ≤ filled' h := by
  rw [filledOnChain ok]
  exact Nat.le_add_right _ _

theorem commitGrows {hash : Order → Bytes32} {datas : List TradeData} {filled filled' : Filled}
    (ok : commitOnChain hash datas filled = .ok filled') (h : Bytes32) : filled h ≤ filled' h := by
  induction datas generalizing filled with
  | nil =>
    cases ok
    exact le_rfl
  | cons data rest ih =>
    simp only [commitOnChain, Checked.bindOk] at ok
    obtain ⟨between,first,last⟩ := ok
    exact (fillOnChainGrows first h).trans (ih last)

/-- P1Orders fills an order that the client has encoded under the hash the book has for it. -/
def HashedAs (env : Environment) (order : SignedOrder) (h : Bytes32) : Prop :=
  ∀ solidityOrder, SignedOrder.orderToSolidity order = .ok solidityOrder →
    env.contractHash solidityOrder = h

/-- A whole amount, and a limit fee whose sign the book can keep. -/
structure Regular (signedOrder : SignedOrder) : Prop where
  whole : ∃ n : ℤ, signedOrder.amount = n
  signed : signedOrder.limitFee ≠ .negativeZero

structure SoundRow (env : Environment) (row : SignedOrderEntity) : Prop where
  hashed : HashedAs env (deserializeOrder row) row.hash
  whole : ∃ n : ℤ, row.filledAmount = n

theorem soundUpdated {env : Environment} {row : SignedOrderEntity} (sound : SoundRow env row) {n : ℤ} :
    SoundRow env (serializeOrder (updated (deserializeOrderToSRAOrder row) n)) where
  hashed := by
    have same := congrArg SRAOrder.order (rereads row n)
    change deserializeOrder _ = deserializeOrder row at same
    rw [HashedAs, same]
    exact sound.hashed
  whole := by
    obtain ⟨m,filled⟩ := sound.whole
    exact ⟨m + n,by
      simp only [serializeOrder, updated, deserializeOrderToSRAOrder, filled, Int.cast_add]⟩

theorem wholeSalt {env : Environment} {signedOrder : SignedOrder} {orderHash : Bytes32}
    (ok : env.getOrderHash signedOrder = .ok orderHash) : ∃ n : ℤ, signedOrder.salt = n := by
  simp only [Environment.getOrderHash, SignedOrder.getOrderHash, SignedOrder.getOrderFlags,
    SignedOrder.saltBytes, Checked.bindOk, Checked.requireOk, exists_const] at ok
  obtain ⟨_,⟨_,⟨integral,_⟩,_⟩,_⟩ := ok
  exact ⟨signedOrder.salt.num,(Rat.coe_int_num_of_den_eq_one integral).symm⟩

theorem storedAlike {env : Environment} {signedOrder : SignedOrder} {orderHash : Bytes32}
    (signed : signedOrder.limitFee ≠ .negativeZero)
    (ok : env.getOrderHash signedOrder = .ok orderHash) (metaData : SRAOrderMetaData) :
    SignedOrder.orderToSolidity (deserializeOrder (serializeOrder ⟨signedOrder,metaData⟩)) =
      SignedOrder.orderToSolidity signedOrder := by
  obtain ⟨n,salt⟩ := wholeSalt ok
  simp only [SignedOrder.orderToSolidity, SignedOrder.getOrderFlags, SignedOrder.booleanFlag,
    deserializeOrder, serializeOrder, BigNumber.toFixed0Int, BaseValue.ofValueSelf signed, salt]
  rfl

theorem hashedIncoming {env : Environment} {signedOrder : SignedOrder} {orderHash : Bytes32}
    (ok : env.getOrderHash signedOrder = .ok orderHash) : HashedAs env signedOrder orderHash := by
  intro solidityOrder encodes
  have same := SignedOrder.hashed env.crypto env.domainHash encodes
  exact Except.ok.inj (same.symm.trans ok)

theorem soundAdded {env : Environment} {signedOrder : SignedOrder} {orderHash : Bytes32}
    (signed : signedOrder.limitFee ≠ .negativeZero)
    (ok : env.getOrderHash signedOrder = .ok orderHash) (n createdAt : ℤ) :
    SoundRow env (serializeOrder ⟨signedOrder,⟨orderHash,n,.Null,createdAt⟩⟩) where
  hashed := by
    rw [HashedAs, storedAlike signed ok]
    exact hashedIncoming ok
  whole := ⟨n,rfl⟩

theorem committed {env : Environment} {signedOrder : SignedOrder} {fills : List (SRAOrder × ℚ)}
    {datas : List TradeData} {filled filled' : Filled} {incoming : Bytes32}
    (made : Trades env signedOrder fills datas)
    (ok : commitOnChain env.contractHash datas filled = .ok filled')
    (whole : ∀ fill ∈ fills, ∃ n : ℤ, fill.2 = n)
    (makers : ∀ fill ∈ fills, HashedAs env fill.1.order fill.1.metaData.orderHash)
    (taker : HashedAs env signedOrder incoming) (h : Bytes32) :
    (filled' h : ℚ) = filled h + tradedOf h fills +
      if incoming = h then (fills.map Prod.snd).sum else 0 := by
  induction made generalizing filled with
  | none =>
    cases ok
    simp [tradedOf]
  | @more apiOrder tradedAmount rest maker taker' trades makerFill takerFill others ih =>
    simp only [commitOnChain, Checked.bindOk] at ok
    obtain ⟨between,first,between',second,last⟩ := ok
    rw [List.forall_mem_cons] at whole makers
    obtain ⟨⟨n,traded⟩,wholeRest⟩ := whole
    obtain rfl : tradedAmount = n := traded
    have amount (data : TradeData) (fill : (data.fill.amount.toNat : ℤ) = BigNumber.toFixed0 n) :
        (data.fill.amount.toNat : ℚ) = n := by
      rw [BigNumber.toFixed0Int] at fill
      rw [← fill, Int.cast_natCast]
    have makerHash := makers.1 _ makerFill.order
    have takerHash := taker _ takerFill.order
    rw [ih last wholeRest makers.2, filledOnChain second, filledOnChain first, makerHash, takerHash]
    have split : tradedOf h ((apiOrder,(n : ℚ))::rest) =
        (if apiOrder.metaData.orderHash = h then (n : ℚ) else 0) + tradedOf h rest := List.sum_cons
    rw [split, List.map_cons, List.sum_cons]
    simp only [Nat.cast_add, Nat.cast_ite, Nat.cast_zero, amount maker makerFill.amount,
      amount taker' takerFill.amount]
    split <;> split <;> ring

section
variable {env : Environment}

structure SoundPlan (env : Environment) (signedOrder : SignedOrder) (plan : Plan) : Prop where
  made : Trades env signedOrder plan.fills (plan.trades.map TradeArg.data)
  distinct : (plan.fills.map fun fill => fill.1.metaData.orderHash).Nodup
  total : (plan.fills.map Prod.snd).sum = signedOrder.amount - plan.remainingAmount
  positive : ∀ fill ∈ plan.fills, 0 < fill.2
  whole : ∀ fill ∈ plan.fills, ∃ n : ℤ, fill.2 = n
  makers : ∀ fill ∈ plan.fills, ∃ row, SoundRow env row ∧ fill.1 = deserializeOrderToSRAOrder row

theorem plannedSound {now : ℚ} {rows : List SignedOrderEntity} {signedOrder : SignedOrder} {plan : Plan}
    {table : Table} (made : Planned env now rows signedOrder plan)
    (read : rows.Perm (findBy signedOrder table)) (regular : Regular signedOrder)
    (sound : ∀ row ∈ table.rows, SoundRow env row) : SoundPlan env signedOrder plan where
  made := made.trades
  distinct := made.distinct ((read.map _).nodup_iff.mpr (findByDistinct signedOrder table))
  total := made.total
  positive := made.positive
  whole := by
    refine made.whole (fun row mem => ?_) regular.whole
    exact (sound row (memFindBy.mp (read.subset mem)).1).whole
  makers := by
    intro fill mem
    obtain ⟨row,listed,same,_⟩ := made.read mem
    exact ⟨row,sound row (memFindBy.mp (read.subset listed)).1,same⟩

namespace SoundPlan
variable {signedOrder : SignedOrder} {plan : Plan} {filled filled' : Filled}

theorem wholeTotal (h : SoundPlan env signedOrder plan) :
    ∃ n : ℤ, signedOrder.amount - plan.remainingAmount = n := by
  rw [← h.total]
  exact wholeSum h.whole

theorem commits (h : SoundPlan env signedOrder plan) (ok : commit env plan filled = .ok filled')
    {incoming : Bytes32} (taker : HashedAs env signedOrder incoming) (k : Bytes32) :
    (filled' k : ℚ) = filled k + tradedOf k plan.fills +
      if incoming = k then signedOrder.amount - plan.remainingAmount else 0 := by
  rw [← h.total]
  refine committed h.made ok h.whole (fun fill mem => ?_) taker k
  obtain ⟨row,sound,same⟩ := h.makers fill mem
  rw [same]
  exact sound.hashed

theorem updatedSound (h : SoundPlan env signedOrder plan) {row : SignedOrderEntity}
    (mem : row ∈ plan.updatedOrders) : SoundRow env row := by
  obtain ⟨⟨apiOrder,tradedAmount⟩,inside,rfl⟩ := List.mem_map.mp mem
  obtain ⟨old,sound,rfl⟩ := h.makers _ inside
  obtain ⟨n,rfl⟩ := h.whole _ inside
  exact soundUpdated sound

end SoundPlan

theorem updatedHashes (plan : Plan) : plan.updatedOrders.map SignedOrderEntity.hash =
    plan.fills.map fun fill => fill.1.metaData.orderHash := by
  simp only [Plan.updatedOrders, List.map_map]
  rfl

end

theorem contractFills {crypto : Crypto} {s s' : OrdersContract} {data : TradeData}
    (step : Orders.Step P1Orders.code crypto s (.fill data.order data.fill) s') :
    fillOnChain (Orders.getOrderHash crypto s.eip712DomainHash) data (fun h => (s.filledAmount h).toNat) =
      .ok fun h => (s'.filledAmount h).toNat := by
  have moved := Orders.stepFilled step
  generalize same : OrderCall.fill data.order data.fill = call at step
  cases step with
  | approve | cancel => cases same
  | fill msg perpetual call tradeData result decoded ok =>
    have done := Orders.filled decoded ok
    obtain ⟨order,fill⟩ := OrderCall.fill.inj same
    rw [← order] at done
    have bounded := done.bounded
    rw [done.filled, ← order, ← fill] at bounded
    simp only [fillOnChain, Checked.bindOk, Checked.requireOk, exists_const, Checked.pureOk]
    refine ⟨bounded,?_⟩
    funext h
    rw [moved h, Function.update_apply]
    split
    · rename_i here
      rw [here, OrderCall.amountOf, if_pos rfl]
    · rename_i away
      rw [OrderCall.amountOf, if_neg (Ne.symm away), Nat.add_zero]

end OrderBook
end Perpetual
