import Perpetual.SequentialPosts

/-! Whether a request to post an order leaves the book crossed. What rests is taken by what P1Orders
would fill; what is matched, by what `isFreshOrder` lets through. -/
namespace Perpetual
namespace OrderBook

def Unexpired (buffer : Nat) (now : ℚ) (expiration : ℤ) : Prop :=
  expiration = 0 ∨ now + buffer < expiration

instance (buffer : Nat) (now : ℚ) (expiration : ℤ) : Decidable (Unexpired buffer now expiration) :=
  inferInstanceAs (Decidable (expiration = 0 ∨ now + buffer < expiration))

structure Live (buffer : Nat) (now : ℚ) (filled : Filled) (row : SignedOrderEntity) : Prop where
  unfilled : (filled row.hash : ℤ) < row.amount
  unexpired : Unexpired buffer now row.expiration

instance (buffer : Nat) (now : ℚ) (filled : Filled) (row : SignedOrderEntity) :
    Decidable (Live buffer now filled row) :=
  decidable_of_iff ((filled row.hash : ℤ) < row.amount ∧ Unexpired buffer now row.expiration)
    ⟨fun h => ⟨h.1,h.2⟩,fun h => ⟨h.unfilled,h.unexpired⟩⟩

def Uncrossed (buffer : Nat) (now : ℚ) (book : Book) : Prop :=
  ∀ bid ∈ book.table.rows, ∀ ask ∈ book.table.rows, bid.isBuy = true → ask.isBuy = false →
    Live buffer now book.filled bid → Live buffer now book.filled ask → bid.limitPrice < ask.limitPrice

instance (buffer : Nat) (now : ℚ) (book : Book) : Decidable (Uncrossed buffer now book) :=
  inferInstanceAs (Decidable (∀ bid ∈ book.table.rows, ∀ ask ∈ book.table.rows, bid.isBuy = true →
    ask.isBuy = false → Live buffer now book.filled bid → Live buffer now book.filled ask →
    bid.limitPrice < ask.limitPrice))

def cancelOrder (ordersHash : List Bytes32) (book : Book) : Book :=
  if ordersHash.all fun h => (book.table.find h).isSome then ⟨book.table.delete ordersHash,book.filled⟩ else book

structure PostRequest where
  now : ℚ
  createdAt : ℤ
  rows : List SignedOrderEntity
  signedOrder : SignedOrder
  orderHash : Bytes32

structure Session where
  book : Book
  time : ℚ
  posted : Set Bytes32

namespace Session

def opening (filled : Filled) (time : ℚ) : Session := ⟨⟨.empty,filled⟩,time,{h | filled h ≠ 0}⟩

def post (env : Environment) (s : Session) (r : PostRequest) : Session :=
  ⟨postOrder env r.now r.createdAt r.rows r.signedOrder s.book,r.now,s.posted ∪ {r.orderHash}⟩

def cancel (s : Session) (now : ℚ) (ordersHash : List Bytes32) : Session :=
  ⟨cancelOrder ordersHash s.book,now,s.posted⟩

end Session

namespace PostRequest

structure Valid (env : Environment) (inPlay : Set Order) (s : Session) (r : PostRequest) : Prop where
  later : s.time ≤ r.now
  read : r.rows.Perm (findBy r.signedOrder s.book.table)
  hash : env.getOrderHash r.signedOrder = .ok r.orderHash
  once : r.orderHash ∉ s.posted
  regular : Regular r.signedOrder
  listed : ∀ solidityOrder, SignedOrder.orderToSolidity r.signedOrder = .ok solidityOrder →
    solidityOrder ∈ inPlay

def Succeeds (env : Environment) (s : Session) (r : PostRequest) : Prop :=
  ∃ plan filled, fulfillOrder env r.now r.rows r.signedOrder = .ok plan ∧
    commit env plan s.book.filled = .ok filled

def Priced (r : PostRequest) (row : SignedOrderEntity) : Prop :=
  if r.signedOrder.isBuy then row.limitPrice ≤ r.signedOrder.limitPrice.value
  else r.signedOrder.limitPrice.value ≤ row.limitPrice

def offered (r : PostRequest) : ℚ := ((fillable r.now r.rows r.signedOrder).map remainingOf).sum

/-- An order that stays live, with more to it than is offered, finds every live order across it
fresh: the one at position `i` does not expire within `i` seconds. -/
def Reaches (buffer : Nat) (s : Session) (r : PostRequest) : Prop :=
  Unexpired buffer r.now (BigNumber.toFixed0 r.signedOrder.expiration) →
  r.offered < r.signedOrder.amount →
  ∀ i row, r.rows[i]? = some row → r.Priced row → Live buffer r.now s.book.filled row →
    isFreshOrder r.now (deserializeOrderToSRAOrder row) i = true

end PostRequest

inductive Requests (env : Environment) (inPlay : Set Order) (may : Session → PostRequest → Prop)
    (start : Session) : Session → Prop where
  | none : Requests env inPlay may start start
  | post {s : Session} (before : Requests env inPlay may start s) (r : PostRequest)
      (valid : r.Valid env inPlay s) (allowed : may s r) : Requests env inPlay may start (s.post env r)
  | cancel {s : Session} (before : Requests env inPlay may start s) (now : ℚ) (later : s.time ≤ now)
      (ordersHash : List Bytes32) : Requests env inPlay may start (s.cancel now ordersHash)

theorem Unexpired.earlier {buffer : Nat} {early late : ℚ} {expiration : ℤ} (le : early ≤ late)
    (unexpired : Unexpired buffer late expiration) : Unexpired buffer early expiration := by
  refine unexpired.imp_right fun later => ?_
  linarith

theorem Live.accepted {env : Environment} {buffer : Nat} {now : ℚ} {filled : Filled} {row : SignedOrderEntity}
    (live : Live buffer now filled row) (sound : SoundRow env row) {solidityOrder : Order}
    (encodes : SignedOrder.orderToSolidity (deserializeOrder row) = .ok solidityOrder) {timestamp : Uint256}
    (within : (timestamp.toNat : ℚ) ≤ now + buffer) :
    filled (env.contractHash solidityOrder) < solidityOrder.amount.toNat ∧
      (timestamp.toNat ≤ solidityOrder.expiration.toNat ∨ solidityOrder.expiration = 0) := by
  have kept := SignedOrder.encoded.mp encodes
  have amount := kept.amount
  have expiration := kept.expiration
  simp only [deserializeOrder, BigNumber.toFixed0Int] at amount expiration
  refine ⟨?_,?_⟩
  · rw [sound.hashed solidityOrder encodes, ← Int.ofNat_lt, amount]
    exact live.unfilled
  · rcases live.unexpired with never | later
    · rw [never] at expiration
      exact .inr (BitVec.eq_of_toNat_eq (Int.ofNat_inj.mp expiration))
    · left
      rw [← expiration, Int.cast_natCast] at later
      exact_mod_cast within.trans later.le

/-! The matching loop, when it does not use up the incoming order. -/

theorem memFilterIndexed {α : Type} {keep : α → Nat → Bool} {values : List α} {value : α} :
    value ∈ filterIndexed keep values ↔ ∃ i : Nat, values[i]? = some value ∧ keep value i = true := by
  simp only [filterIndexed, List.mem_map, List.mem_filter, Prod.exists, List.mk_mem_zipIdx_iff_getElem?]
  constructor
  · rintro ⟨_,i,⟨at',kept⟩,rfl⟩
    exact ⟨i,at',kept⟩
  · rintro ⟨i,at',kept⟩
    exact ⟨value,i,⟨at',kept⟩,rfl⟩

theorem sumOpen {orders : List SRAOrder} (open' : ∀ o ∈ orders, 0 ≤ remainingOf o) :
    0 ≤ (orders.map remainingOf).sum :=
  List.sum_nonneg (List.forall_mem_map.mpr open')

theorem matchLoopLeaves {orders : List SRAOrder} {amount : ℚ} (open' : ∀ o ∈ orders, 0 ≤ remainingOf o) :
    0 < (matchLoop orders amount).1 ↔ (orders.map remainingOf).sum < amount := by
  induction orders generalizing amount with
  | nil => exact Iff.rfl
  | cons first rest ih =>
    have later := List.forall_mem_cons.mp open'
    have total := sumOpen later.2
    rw [List.map_cons, List.sum_cons]
    rcases le_or_gt amount 0 with done | more
    · rw [matchLoopNone _ done]
      constructor <;> intro h <;> linarith
    · rw [matchLoopCons (not_le.mpr more), ih later.2]
      rcases le_total amount (remainingOf first) with low | high
      · rw [min_eq_left low]
        constructor <;> intro h <;> linarith
      · rw [min_eq_right high]
        constructor <;> intro h <;> linarith

theorem matchLoopTakesAll {orders : List SRAOrder} {amount : ℚ} (open' : ∀ o ∈ orders, 0 ≤ remainingOf o)
    (less : (orders.map remainingOf).sum < amount) :
    (matchLoop orders amount).2 = orders.map fun o => (o,remainingOf o) := by
  induction orders generalizing amount with
  | nil => rfl
  | cons first rest ih =>
    have later := List.forall_mem_cons.mp open'
    have total := sumOpen later.2
    rw [List.map_cons, List.sum_cons] at less
    have more : ¬amount ≤ 0 := by linarith
    have whole : min amount (remainingOf first) = remainingOf first := min_eq_right (by linarith)
    rw [matchLoopCons more, whole, ih later.2 (by linarith), List.map_cons]

variable {env : Environment} {inPlay : Set Order} {buffer : Nat} {s : Session} {r : PostRequest}

theorem memFillable {now : ℚ} {rows : List SignedOrderEntity} {signedOrder : SignedOrder} {row : SignedOrderEntity}
    (distinct : (rows.map SignedOrderEntity.hash).Nodup) {i : Nat} (at' : rows[i]? = some row) :
    deserializeOrderToSRAOrder row ∈ fillable now rows signedOrder ↔
      isFreshOrder now (deserializeOrderToSRAOrder row) i = true ∧ row.filledAmount < row.amount ∧
        if signedOrder.isBuy then row.limitPrice ≤ signedOrder.limitPrice.value
        else signedOrder.limitPrice.value ≤ row.limitPrice := by
  have price : (if signedOrder.isBuy then decide (row.limitPrice ≤ signedOrder.limitPrice.value)
      else decide (signedOrder.limitPrice.value ≤ row.limitPrice)) = true ↔
      if signedOrder.isBuy then row.limitPrice ≤ signedOrder.limitPrice.value
        else signedOrder.limitPrice.value ≤ row.limitPrice := by
    split <;> exact decide_eq_true_iff
  have fresh : deserializeOrderToSRAOrder row ∈
      filterIndexed (isFreshOrder now) (rows.map deserializeOrderToSRAOrder) ↔
      isFreshOrder now (deserializeOrderToSRAOrder row) i = true := by
    rw [memFilterIndexed]
    constructor
    · rintro ⟨j,listed,kept⟩
      -- A row is read once, so its position is the only one.
      have hashes : (rows.map SignedOrderEntity.hash)[j]? = (rows.map SignedOrderEntity.hash)[i]? := by
        rw [List.getElem?_map, Option.map_eq_some_iff] at listed
        obtain ⟨other,there,same⟩ := listed
        rw [List.getElem?_map, List.getElem?_map, there, at', Option.map_some, Option.map_some]
        exact congrArg (fun o => some o.metaData.orderHash) same
      have bound : j < (rows.map SignedOrderEntity.hash).length := by
        rw [List.length_map, ← List.length_map (f := deserializeOrderToSRAOrder)]
        exact (List.getElem?_eq_some_iff.mp listed).1
      rwa [(List.getElem?_inj bound distinct).mp hashes] at kept
    · intro kept
      exact ⟨i,by rw [List.getElem?_map, at', Option.map_some],kept⟩
  rw [fillable, List.mem_filter, List.mem_filter, fresh, and_assoc]
  exact and_congr_right fun _ => and_congr decide_eq_true_iff price

structure Orderly (env : Environment) (inPlay : Set Order) (s : Session) : Prop where
  accounted : Accounted env inPlay s.book
  known : ∀ row ∈ s.book.table.rows, row.hash ∈ s.posted
  untouched : ∀ h ∉ s.posted, s.book.filled h = 0

theorem Orderly.opening (filled : Filled) (time : ℚ) : Orderly env inPlay (.opening filled time) where
  accounted := ⟨List.forall_mem_nil _,List.forall_mem_nil _,List.forall_mem_nil _⟩
  known := List.forall_mem_nil _
  untouched _ fresh := not_not.mp fresh

theorem Orderly.new (h : Orderly env inPlay s) (valid : r.Valid env inPlay s) :
    PostedNew env inPlay s.book r.signedOrder where
  regular := valid.regular
  listed := valid.listed
  unfilled k hash := by
    obtain rfl := Except.ok.inj (valid.hash.symm.trans hash)
    exact h.untouched _ valid.once

/-! What a successful post saves. -/

def PostRequest.row (r : PostRequest) (plan : Plan) : SignedOrderEntity :=
  serializeOrder ⟨r.signedOrder,⟨r.orderHash,r.signedOrder.amount - plan.remainingAmount,.Null,r.createdAt⟩⟩

def Session.saved (s : Session) (r : PostRequest) (plan : Plan) (filled : Filled) : Book :=
  ⟨(plan.updatedOrders.foldl KeyedTable.save s.book.table).save (r.row plan),filled⟩

theorem postSaves {plan : Plan} {filled : Filled} (hash : env.getOrderHash r.signedOrder = .ok r.orderHash)
    (ok : fulfillOrder env r.now r.rows r.signedOrder = .ok plan)
    (commits : commit env plan s.book.filled = .ok filled) : (s.post env r).book = s.saved r plan filled := by
  simp only [Session.post, postOrder, ok, commits, addOrder, hash]
  rfl

theorem postFails (failed : ¬r.Succeeds env s) : (s.post env r).book = s.book := by
  simp only [Session.post, postOrder]
  cases ok : fulfillOrder env r.now r.rows r.signedOrder with
  | error reason => rfl
  | ok plan =>
    simp only
    cases commits : commit env plan s.book.filled with
    | error reason => rfl
    | ok filled => exact absurd ⟨plan,filled,ok,commits⟩ failed

theorem updatedRow (row : SignedOrderEntity) (tradedAmount : ℚ) :
    serializeOrder (updated (deserializeOrderToSRAOrder row) tradedAmount) =
      { row with filledAmount := row.filledAmount + tradedAmount } := by
  simp only [serializeOrder, updated, deserializeOrderToSRAOrder, deserializeOrder, BaseValue.ofValue,
    BigNumber.toFixed0Int]

section
variable {plan : Plan} {filled : Filled}

theorem savedRow (valid : r.Valid env inPlay s) (made : Planned env r.now r.rows r.signedOrder plan)
    {row : SignedOrderEntity} (mem : row ∈ (s.saved r plan filled).table.rows) :
    row = r.row plan ∨ ∃ old ∈ s.book.table.rows, ∃ filledAmount, row = { old with filledAmount := filledAmount } := by
  have distinct := made.distinct ((valid.read.map _).nodup_iff.mpr (findByDistinct r.signedOrder s.book.table))
  rcases (savedRows distinct).mp mem with new | ⟨_,⟨fill,inside,rfl⟩ | ⟨kept,_⟩⟩
  · exact .inl new
  · obtain ⟨old,listed,same,_⟩ := made.read inside
    refine .inr ⟨old,(memFindBy.mp (valid.read.subset listed)).1,old.filledAmount + fill.2,?_⟩
    rw [same, updatedRow]
  · exact .inr ⟨row,kept,_,rfl⟩

theorem newLive (h : Orderly env inPlay s) (injective : Set.InjOn env.contractHash inPlay)
    (valid : r.Valid env inPlay s) (made : Planned env r.now r.rows r.signedOrder plan)
    (commits : commit env plan s.book.filled = .ok filled) :
    Live buffer r.now filled (r.row plan) ↔ 0 < plan.remainingAmount ∧
      Unexpired buffer r.now (BigNumber.toFixed0 r.signedOrder.expiration) := by
  have total := (plannedSound made valid.read valid.regular h.accounted.sound).commits commits
    (hashedIncoming valid.hash) r.orderHash
  rw [tradedOfNone (makersApart h.accounted (h.new valid) injective valid.read made valid.hash), if_pos rfl,
    h.untouched _ valid.once, Nat.cast_zero, zero_add, zero_add] at total
  obtain ⟨n,whole⟩ := valid.regular.whole
  have amount : (r.row plan).amount = n := by
    rw [PostRequest.row, serializeOrder, whole, BigNumber.toFixed0Int]
  have left : (filled r.orderHash : ℤ) < n ↔ 0 < plan.remainingAmount := by
    rw [← Int.cast_lt (R := ℚ), Int.cast_natCast, total, whole, sub_lt_self_iff]
  constructor
  · rintro ⟨unfilled,unexpired⟩
    rw [amount] at unfilled
    exact ⟨left.mp unfilled,unexpired⟩
  · rintro ⟨more,unexpired⟩
    refine ⟨?_,unexpired⟩
    rw [amount]
    exact left.mpr more

theorem leaves (ok : fulfillOrder env r.now r.rows r.signedOrder = .ok plan) :
    0 < plan.remainingAmount ↔ r.offered < r.signedOrder.amount := by
  have same : plan.remainingAmount = (matchOrders env r.now r.rows r.signedOrder).1 :=
    congrArg Prod.fst (fulfillMatches ok)
  rw [same, matchOrders, matchLoopLeaves apiOrdersOpen, PostRequest.offered,
    ((apiOrdersPerm env r.now r.rows r.signedOrder).map remainingOf).sum_eq]

theorem takesAll (ok : fulfillOrder env r.now r.rows r.signedOrder = .ok plan)
    (less : r.offered < r.signedOrder.amount) {o : SRAOrder} (mem : o ∈ fillable r.now r.rows r.signedOrder) :
    (o,remainingOf o) ∈ plan.fills := by
  have perm := apiOrdersPerm env r.now r.rows r.signedOrder
  rw [PostRequest.offered, ← (perm.map remainingOf).sum_eq] at less
  rw [fulfillFills ok, matchOrders, matchLoopTakesAll apiOrdersOpen less]
  exact List.mem_map.mpr ⟨o,perm.symm.subset mem,rfl⟩

theorem Live.before {old : SignedOrderEntity} {filledAmount : ℚ}
    (commits : commit env plan s.book.filled = .ok filled)
    (live : Live buffer r.now filled { old with filledAmount := filledAmount }) :
    Live buffer r.now s.book.filled old :=
  ⟨(Int.ofNat_le.mpr (commitGrows commits old.hash)).trans_lt live.unfilled,live.unexpired⟩

theorem Live.earlier {early late : ℚ} {row : SignedOrderEntity} (le : early ≤ late)
    (live : Live buffer late filled row) : Live buffer early filled row :=
  ⟨live.unfilled,live.unexpired.earlier le⟩

theorem Uncrossed.later {early late : ℚ} {book : Book} (le : early ≤ late)
    (uncrossed : Uncrossed buffer early book) : Uncrossed buffer late book :=
  fun bid bidMem ask askMem isBid isAsk bidLive askLive =>
    uncrossed bid bidMem ask askMem isBid isAsk (bidLive.earlier le) (askLive.earlier le)

theorem uncrossedWithNew (valid : r.Valid env inPlay s) (made : Planned env r.now r.rows r.signedOrder plan)
    (commits : commit env plan s.book.filled = .ok filled) (before : Uncrossed buffer s.time s.book) :
    Uncrossed buffer r.now (s.saved r plan filled) ↔ (Live buffer r.now filled (r.row plan) →
      ∀ row ∈ (s.saved r plan filled).table.rows, row.isBuy = !r.signedOrder.isBuy →
        Live buffer r.now filled row → ¬r.Priced row) := by
  have added : r.row plan ∈ (s.saved r plan filled).table.rows := KeyedTable.memSave.mpr (.inl rfl)
  constructor
  · intro uncrossed live row mem side rowLive
    cases buys : r.signedOrder.isBuy with
    | true =>
      rw [buys] at side
      rw [PostRequest.Priced, if_pos buys, not_le]
      exact uncrossed _ added row mem buys side live rowLive
    | false =>
      rw [buys] at side
      rw [PostRequest.Priced, buys, if_neg Bool.false_ne_true, not_le]
      exact uncrossed row mem _ added side buys rowLive live
  · intro apart bid bidMem ask askMem isBid isAsk bidLive askLive
    rcases savedRow valid made bidMem with rfl | ⟨oldBid,bidStored,bidFilled,rfl⟩
    · have buys : r.signedOrder.isBuy = true := isBid
      have away := apart bidLive ask askMem (by rw [isAsk, buys, Bool.not_true]) askLive
      rwa [PostRequest.Priced, if_pos buys, not_le] at away
    · rcases savedRow valid made askMem with rfl | ⟨oldAsk,askStored,askFilled,rfl⟩
      · have sells : r.signedOrder.isBuy = false := isAsk
        have away := apart askLive _ bidMem (by rw [sells]; exact isBid) bidLive
        rwa [PostRequest.Priced, sells, if_neg Bool.false_ne_true, not_le] at away
      · exact before.later valid.later oldBid bidStored oldAsk askStored isBid isAsk (bidLive.before commits)
          (askLive.before commits)

theorem unmatchedStays (h : Orderly env inPlay s) (valid : r.Valid env inPlay s)
    (made : Planned env r.now r.rows r.signedOrder plan)
    (commits : commit env plan s.book.filled = .ok filled) {row : SignedOrderEntity}
    (stored : row ∈ s.book.table.rows)
    (unmatched : ∀ fill ∈ plan.fills, fill.1.metaData.orderHash ≠ row.hash) :
    row ∈ (s.saved r plan filled).table.rows ∧ filled row.hash = s.book.filled row.hash := by
  have plans := plannedSound made valid.read valid.regular h.accounted.sound
  have away : row.hash ≠ r.orderHash := fun same => valid.once (same ▸ h.known row stored)
  refine ⟨(savedRows plans.distinct).mpr (.inr ⟨away,.inr ⟨stored,unmatched⟩⟩),?_⟩
  have total := plans.commits commits (hashedIncoming valid.hash) row.hash
  rw [tradedOfNone unmatched, if_neg away.symm, add_zero, add_zero] at total
  exact_mod_cast total

theorem matchedFills (h : Orderly env inPlay s) (valid : r.Valid env inPlay s)
    (made : Planned env r.now r.rows r.signedOrder plan)
    (commits : commit env plan s.book.filled = .ok filled) {row : SignedOrderEntity}
    (stored : row ∈ s.book.table.rows)
    (matched : (deserializeOrderToSRAOrder row,remainingOf (deserializeOrderToSRAOrder row)) ∈ plan.fills) :
    (filled row.hash : ℤ) = row.amount := by
  have plans := plannedSound made valid.read valid.regular h.accounted.sound
  have away : row.hash ≠ r.orderHash := fun same => valid.once (same ▸ h.known row stored)
  have total := plans.commits commits (hashedIncoming valid.hash) row.hash
  have traded := tradedOfOne plans.distinct matched
  change tradedOf row.hash plan.fills = (row.amount : ℚ) - row.filledAmount at traded
  rw [traded, if_neg away.symm, add_zero, ← h.accounted.agrees row stored, add_sub_cancel] at total
  exact_mod_cast total

theorem postUncrossed (h : Orderly env inPlay s) (valid : r.Valid env inPlay s)
    (injective : Set.InjOn env.contractHash inPlay) (before : Uncrossed buffer s.time s.book)
    (ok : fulfillOrder env r.now r.rows r.signedOrder = .ok plan)
    (commits : commit env plan s.book.filled = .ok filled) :
    Uncrossed buffer r.now (s.saved r plan filled) ↔ r.Reaches buffer s := by
  have made := planned ok
  have distinct := (valid.read.map SignedOrderEntity.hash).nodup_iff.mpr (findByDistinct r.signedOrder s.book.table)
  rw [uncrossedWithNew valid made commits before, newLive h injective valid made commits, leaves ok]
  constructor
  · intro apart unexpired less i row at' priced live
    -- A row that is not fresh at its position is not matched, and so rests beside the new one.
    by_contra stale
    obtain ⟨stored,side⟩ := memFindBy.mp (valid.read.subset (List.mem_of_getElem? at'))
    have unmatched : ∀ fill ∈ plan.fills, fill.1.metaData.orderHash ≠ row.hash := by
      intro fill inside same
      obtain ⟨orders,perm,sub⟩ := made.listed
      have considered := perm.subset (sub.subset (List.mem_map_of_mem inside))
      obtain ⟨other,listed,reads,_⟩ := made.read inside
      rw [reads] at considered same
      obtain rfl := List.inj_on_of_nodup_map distinct listed (List.mem_of_getElem? at') same
      exact stale ((memFillable distinct at').mp considered).1
    obtain ⟨stays,same⟩ := unmatchedStays h valid made commits stored unmatched
    refine apart ⟨less,unexpired⟩ row stays side ⟨?_,live.unexpired⟩ priced
    rw [same]
    exact live.unfilled
  · intro reaches ⟨less,unexpired⟩ row mem side live priced
    rcases savedRow valid made mem with rfl | ⟨old,stored,filledAmount,rfl⟩
    · exact absurd side (by cases buys : r.signedOrder.isBuy <;> simp [PostRequest.row, serializeOrder, buys])
    · have liveBefore := live.before commits
      obtain ⟨i,at'⟩ := List.mem_iff_getElem?.mp (valid.read.symm.subset (memFindBy.mpr ⟨stored,side⟩))
      have fresh := reaches unexpired less i old at' priced liveBefore
      have left : old.filledAmount < old.amount := by
        rw [h.accounted.agrees old stored]
        exact_mod_cast liveBefore.unfilled
      have taken := takesAll ok less ((memFillable distinct at').mpr ⟨fresh,left,priced⟩)
      exact absurd (matchedFills h valid made commits stored taken) live.unfilled.ne

end

theorem postOrderly (h : Orderly env inPlay s) (valid : r.Valid env inPlay s)
    (injective : Set.InjOn env.contractHash inPlay) : Orderly env inPlay (s.post env r) := by
  have accounted := postAccounted h.accounted (h.new valid) injective valid.read
    (posted r.now r.createdAt r.rows r.signedOrder s.book)
  by_cases succeeds : r.Succeeds env s
  · obtain ⟨plan,filled,ok,commits⟩ := succeeds
    have made := planned ok
    have same := postSaves valid.hash ok commits
    refine ⟨accounted,fun row mem => ?_,fun k fresh => ?_⟩
    · rw [same] at mem
      rcases savedRow valid made mem with rfl | ⟨old,stored,_,rfl⟩
      · exact .inr rfl
      · exact .inl (h.known old stored)
    · rw [same]
      obtain ⟨notPosted,notNew⟩ := not_or.mp fresh
      have total := (plannedSound made valid.read valid.regular h.accounted.sound).commits commits
        (hashedIncoming valid.hash) k
      have unmatched : ∀ fill ∈ plan.fills, fill.1.metaData.orderHash ≠ k := by
        rintro fill inside rfl
        obtain ⟨row,listed,reads,_⟩ := made.read inside
        rw [reads] at notPosted
        exact notPosted (h.known row (memFindBy.mp (valid.read.subset listed)).1)
      rw [tradedOfNone unmatched, if_neg (Ne.symm notNew), h.untouched k notPosted, Nat.cast_zero, add_zero,
        add_zero] at total
      exact_mod_cast total
  · have same := postFails succeeds
    refine ⟨accounted,fun row mem => ?_,fun k fresh => ?_⟩
    · rw [same] at mem
      exact .inl (h.known row mem)
    · rw [same]
      exact h.untouched k fun before => fresh (.inl before)

theorem cancelRows {now : ℚ} {ordersHash : List Bytes32} {row : SignedOrderEntity}
    (mem : row ∈ (s.cancel now ordersHash).book.table.rows) : row ∈ s.book.table.rows := by
  simp only [Session.cancel, cancelOrder] at mem
  split at mem
  · exact (KeyedTable.memDelete.mp mem).1
  · exact mem

theorem cancelFilled (s : Session) (now : ℚ) (ordersHash : List Bytes32) :
    (s.cancel now ordersHash).book.filled = s.book.filled := by
  simp only [Session.cancel, cancelOrder]
  split <;> rfl

theorem cancelOrderly (h : Orderly env inPlay s) (now : ℚ) (ordersHash : List Bytes32) :
    Orderly env inPlay (s.cancel now ordersHash) where
  accounted := by
    refine ⟨fun row mem => h.accounted.sound row (cancelRows mem),
      fun row mem => h.accounted.listed row (cancelRows mem),fun row mem => ?_⟩
    rw [cancelFilled]
    exact h.accounted.agrees row (cancelRows mem)
  known row mem := h.known row (cancelRows mem)
  untouched k fresh := by
    rw [cancelFilled]
    exact h.untouched k fresh

theorem cancelUncrossed {now : ℚ} (later : s.time ≤ now) (ordersHash : List Bytes32)
    (before : Uncrossed buffer s.time s.book) : Uncrossed buffer now (s.cancel now ordersHash).book := by
  intro bid bidMem ask askMem isBid isAsk bidLive askLive
  rw [cancelFilled] at bidLive askLive
  exact before.later later bid (cancelRows bidMem) ask (cancelRows askMem) isBid isAsk bidLive askLive

theorem requestsOrderly {may : Session → PostRequest → Prop} {start : Session}
    (injective : Set.InjOn env.contractHash inPlay) (begins : Orderly env inPlay start)
    (run : Requests env inPlay may start s) : Orderly env inPlay s := by
  induction run with
  | none => exact begins
  | post before r valid allowed ih => exact postOrderly ih valid injective
  | cancel before now later ordersHash ih => exact cancelOrderly ih now ordersHash

theorem requestsUncrossed {filled : Filled} {time : ℚ} (injective : Set.InjOn env.contractHash inPlay)
    (run : Requests env inPlay (fun s r => r.Reaches buffer s) (.opening filled time) s) :
    Uncrossed buffer s.time s.book := by
  induction run with
  | none => exact List.forall_mem_nil _
  | @post s before r valid reaches ih =>
    by_cases succeeds : r.Succeeds env s
    · obtain ⟨plan,filled,ok,commits⟩ := succeeds
      rw [postSaves valid.hash ok commits]
      exact (postUncrossed (requestsOrderly injective (.opening _ _) before) valid injective ih ok commits).mpr
        reaches
    · rw [postFails succeeds]
      exact ih.later valid.later
  | cancel before now later ordersHash ih => exact cancelUncrossed later ordersHash ih

/-- As long as every post reaches the live orders across it, the book is not crossed. The first post
that succeeds and does not, leaves it crossed. -/
theorem neverLeftCrossed (env : Environment) (inPlay : Set Order) (buffer : Nat) (filled : Filled) (time : ℚ)
    (injective : Set.InjOn env.contractHash inPlay) (s : Session)
    (run : Requests env inPlay (fun s r => r.Reaches buffer s) (.opening filled time) s) :
    (∀ now, s.time ≤ now → Uncrossed buffer now s.book) ∧
    ∀ r : PostRequest, r.Valid env inPlay s → r.Succeeds env s →
      (Uncrossed buffer r.now (s.post env r).book ↔ r.Reaches buffer s) := by
  have uncrossed := requestsUncrossed injective run
  refine ⟨fun now later => uncrossed.later later,?_⟩
  rintro r valid ⟨plan,filled,ok,commits⟩
  rw [postSaves valid.hash ok commits]
  exact postUncrossed (requestsOrderly injective (.opening _ _) run) valid injective uncrossed ok commits

theorem succeeded (ok : (do
      let plan ← fulfillOrder env r.now r.rows r.signedOrder
      commit env plan s.book.filled).isOk = true) : r.Succeeds env s := by
  obtain ⟨filled,done⟩ := Checked.okExists ok
  obtain ⟨plan,planned,commits⟩ := Checked.bindOk.mp done
  exact ⟨plan,filled,planned,commits⟩

/-! An order of 10 to sell, with the given expiration, and one to buy 4 of it. -/

def samplePair (expiration : ℚ) : List SignedOrder := [sampleSigned false 10 expiration,sampleSigned true 4 101]

def pairInPlay (expiration : ℚ) : Set Order :=
  {solidityOrder | ∃ order ∈ samplePair expiration, SignedOrder.orderToSolidity order = .ok solidityOrder}

def sampleSell (expiration : ℚ) (orderHash : Bytes32) : PostRequest :=
  ⟨0,0,[],sampleSigned false 10 expiration,orderHash⟩

def sampleSession (expiration : ℚ) (orderHash : Bytes32) : Session :=
  (Session.opening (fun _ => 0) 0).post .sample (sampleSell expiration orderHash)

def sampleBuy (s : Session) : PostRequest := ⟨0,0,s.book.table.rows,sampleSigned true 4 101,101⟩

theorem sampleSellValid {expiration : ℚ} {orderHash : Bytes32}
    (hash : Environment.sample.getOrderHash (sampleSigned false 10 expiration) = .ok orderHash) :
    (sampleSell expiration orderHash).Valid .sample (pairInPlay expiration) (.opening (fun _ => 0) 0) where
  later := le_rfl
  read := .refl _
  hash := hash
  once filled := filled rfl
  regular := sampleRegular false 10 expiration
  listed _ encodes := ⟨_,List.mem_cons_self,encodes⟩

theorem sampleBuyHash : Environment.sample.getOrderHash (sampleSigned true 4 101) = .ok 101 := by decide +kernel

theorem sampleBuyValid {expiration : ℚ} {orderHash : Bytes32} (different : orderHash ≠ 101)
    (read : (sampleSession expiration orderHash).book.table.rows =
      findBy (sampleSigned true 4 101) (sampleSession expiration orderHash).book.table) :
    (sampleBuy (sampleSession expiration orderHash)).Valid .sample (pairInPlay expiration)
      (sampleSession expiration orderHash) where
  later := le_rfl
  read := .of_eq read
  hash := sampleBuyHash
  once
    | .inl filled => filled rfl
    | .inr same => different same.symm
  regular := sampleRegular true 4 101
  listed _ encodes := ⟨_,List.mem_cons_of_mem _ List.mem_cons_self,encodes⟩

theorem sampleUncrossed : let s := sampleSession 100 100
    Uncrossed 10 0 s.book ∧ (sampleBuy s).Succeeds .sample s ∧
      Uncrossed 10 0 (s.post .sample (sampleBuy s)).book := by
  have injective : Set.InjOn Environment.sample.contractHash (pairInPlay 100) :=
    listedInjective (by decide +kernel)
  have run : Requests .sample (pairInPlay 100) (fun s r => r.Reaches 10 s) (.opening (fun _ => 0) 0)
      (sampleSession 100 100) :=
    .post .none _ (sampleSellValid (by decide +kernel)) fun _ _ i row at' => by (cases at')
  have succeeds : (sampleBuy (sampleSession 100 100)).Succeeds .sample (sampleSession 100 100) :=
    succeeded (by decide +kernel)
  have reaches : (sampleBuy (sampleSession 100 100)).Reaches 10 (sampleSession 100 100) :=
    fun _ less => absurd less (by decide +kernel)
  have uncrossed := neverLeftCrossed .sample (pairInPlay 100) 10 (fun _ => 0) 0 injective _ run
  exact ⟨uncrossed.1 0 le_rfl,succeeds,
    (uncrossed.2 _ (sampleBuyValid (by decide) (by decide +kernel)) succeeds).mpr reaches⟩

theorem unexpiringCrossed : ¬ ∀ (env : Environment) (inPlay : Set Order) (s : Session),
    Set.InjOn env.contractHash inPlay →
    Requests env inPlay (fun s r => r.Succeeds env s) (.opening (fun _ => 0) 0) s →
    Uncrossed 10 s.time s.book := by
  intro uncrossed
  have run : Requests .sample (pairInPlay 0) (fun s r => r.Succeeds .sample s) (.opening (fun _ => 0) 0)
      ((sampleSession 0 0).post .sample (sampleBuy (sampleSession 0 0))) := by
    refine .post (.post .none _ (sampleSellValid (by decide +kernel)) ?_) _
      (sampleBuyValid (by decide) (by decide +kernel)) ?_
    · exact succeeded (by decide +kernel)
    · exact succeeded (by decide +kernel)
  have crossed : ¬Uncrossed 10 0 ((sampleSession 0 0).post .sample (sampleBuy (sampleSession 0 0))).book := by
    decide +kernel
  exact crossed (uncrossed .sample (pairInPlay 0) _ (listedInjective (by decide +kernel)) run)

end OrderBook
end Perpetual
