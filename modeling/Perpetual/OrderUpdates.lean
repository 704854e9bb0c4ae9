import Perpetual.CancelRequests
import Perpetual.Replica
import Perpetual.Subscribers

/-! What a subscriber of the orders channel makes of the book: it keeps the last update for each order hash. -/
namespace Perpetual
namespace OrderBook

/-- What `POST /order` emits on its way. An order that is matched whole is stored and not emitted. -/
def postUpdates (env : Environment) (s : Session) (r : PostRequest) : List SRAOrder :=
  match fulfillOrder env r.now r.rows r.signedOrder with
  | .error _ => []
  | .ok plan => match commit env plan s.book.filled with
    | .error _ => []
    | .ok _ =>
        let emittedOrders := plan.fills.map fun (apiOrder,tradedAmount) => updated apiOrder tradedAmount
        match env.getOrderHash r.signedOrder with
        | .error _ => emittedOrders
        | .ok orderHash =>
            if plan.remainingAmount = 0 then emittedOrders
            else emittedOrders ++
              [⟨r.signedOrder,⟨orderHash,r.signedOrder.amount - plan.remainingAmount,.Null,r.createdAt⟩⟩]

def cancelUpdates (s : Session) (ordersHash : List Bytes32) : List SRAOrder :=
  (cancelOrderAsync (some ordersHash) s.book.table).emitted

inductive Served (env : Environment) (inPlay : Set Order) (start : Session) : List SRAOrder → Session → Prop where
  | none : Served env inPlay start [] start
  | post {updates : List SRAOrder} {s : Session} (before : Served env inPlay start updates s) (r : PostRequest)
      (valid : r.Valid env inPlay s) : Served env inPlay start (updates ++ postUpdates env s r) (s.post env r)
  | cancel {updates : List SRAOrder} {s : Session} (before : Served env inPlay start updates s) (now : ℚ)
      (later : s.time ≤ now) (ordersHash : List Bytes32) :
      Served env inPlay start (updates ++ cancelUpdates s ordersHash) (s.cancel now ordersHash)

def IsOpen (row : SignedOrderEntity) : Prop := row.filledAmount < row.amount

instance (row : SignedOrderEntity) : Decidable (IsOpen row) :=
  inferInstanceAs (Decidable (row.filledAmount < row.amount))

structure Subscription where
  spell : Address → String
  lower : String → String
  opts : SubscriptionOpts

namespace Subscription

def wants (subscription : Subscription) (row : SignedOrderEntity) : Bool :=
  match WebsocketService.matchesOrdersChannelSubscription subscription.lower
    ⟨.Order,subscription.spell row.maker,subscription.spell row.taker⟩ subscription.opts with
  | .ok found => found
  | .error _ => false

def keeps (subscription : Subscription) (updates : List SRAOrder) : Bytes32 → Option SignedOrderEntity :=
  (updates.map serializeOrder).foldl (Replica.hear SignedOrderEntity.hash subscription.wants) fun _ => none

def makeInitialResponse (page : List SignedOrderEntity) : List SRAOrder :=
  (page.map deserializeOrderToSRAOrder).filter fun record => record.metaData.filledAmount < record.order.amount

end Subscription

section
variable {env : Environment} {inPlay : Set Order} {s s₀ : Session} {r : PostRequest} {plan : Plan} {filled : Filled}
  {updates : List SRAOrder} {subscription : Subscription}

theorem postUpdatesFailed (failed : ¬r.Succeeds env s) : postUpdates env s r = [] := by
  simp only [postUpdates]
  cases ok : fulfillOrder env r.now r.rows r.signedOrder with
  | error reason => rfl
  | ok plan =>
    simp only
    cases commits : commit env plan s.book.filled with
    | error reason => rfl
    | ok filled => exact absurd ⟨plan,filled,ok,commits⟩ failed

theorem postUpdatesSaved (hash : env.getOrderHash r.signedOrder = .ok r.orderHash)
    (ok : fulfillOrder env r.now r.rows r.signedOrder = .ok plan)
    (commits : commit env plan s.book.filled = .ok filled) :
    (postUpdates env s r).map serializeOrder =
      plan.updatedOrders ++ if plan.remainingAmount = 0 then [] else [r.row plan] := by
  simp only [postUpdates, ok, commits, hash]
  split
  · rw [List.map_map, List.append_nil]
    rfl
  · rw [List.map_append, List.map_map]
    rfl

theorem updatedFrom (subscription : Subscription) (valid : r.Valid env inPlay s)
    (made : Planned env r.now r.rows r.signedOrder plan) {row : SignedOrderEntity} (mem : row ∈ plan.updatedOrders) :
    ∃ old ∈ s.book.table.rows, old.hash = row.hash ∧ subscription.wants old = subscription.wants row := by
  obtain ⟨fill,inside,rfl⟩ := List.mem_map.mp mem
  obtain ⟨old,listed,same,_⟩ := made.read inside
  refine ⟨old,(memFindBy.mp (valid.read.subset listed)).1,?_⟩
  change old.hash = (serializeOrder (updated fill.1 fill.2)).hash ∧
    subscription.wants old = subscription.wants (serializeOrder (updated fill.1 fill.2))
  rw [same, updatedRow]
  exact ⟨rfl,rfl⟩

structure Tracked (subscription : Subscription) (first : SignedOrderEntity → Prop) (s : Session)
    (told : Bytes32 → Option SignedOrderEntity) : Prop where
  follows : Replica.Follows subscription.wants first IsOpen s.book.table told
  known : ∀ h row, told h = some row → h ∈ s.posted

variable {first : SignedOrderEntity → Prop} {told : Bytes32 → Option SignedOrderEntity}

theorem hearKnown {rows : List SignedOrderEntity} {posted : Set Bytes32}
    (known : ∀ h row, told h = some row → h ∈ posted) (more : ∀ row ∈ rows, row.hash ∈ posted) :
    ∀ h row, rows.foldl (Replica.hear SignedOrderEntity.hash subscription.wants) told h = some row → h ∈ posted := by
  induction rows generalizing told with
  | nil => exact known
  | cons row rest ih =>
    obtain ⟨here,later⟩ := List.forall_mem_cons.mp more
    refine ih (fun h other kept => ?_) later
    by_cases same : h = row.hash
    · exact same ▸ here
    · rw [Replica.hearOther same] at kept
      exact known h other kept

theorem postTracked (orderly : Orderly env inPlay s) (valid : r.Valid env inPlay s)
    (h : Tracked subscription first s told) :
    Tracked subscription first (s.post env r) (((postUpdates env s r).map serializeOrder).foldl
      (Replica.hear SignedOrderEntity.hash subscription.wants) told) := by
  by_cases succeeds : r.Succeeds env s
  · obtain ⟨plan,filled,ok,commits⟩ := succeeds
    have made := planned ok
    have distinct := made.distinct ((valid.read.map _).nodup_iff.mpr (findByDistinct r.signedOrder s.book.table))
    have keys : (plan.updatedOrders.map SignedOrderEntity.hash).Nodup := by
      rw [updatedHashes]
      exact distinct
    have stored (row : SignedOrderEntity) (mem : row ∈ plan.updatedOrders) : row.hash ∈ s.posted := by
      obtain ⟨old,inside,same,_⟩ := updatedFrom subscription valid made mem
      exact same ▸ orderly.known old inside
    have saved := h.follows.savedAll keys fun row mem => updatedFrom subscription valid made mem
    have untold : plan.updatedOrders.foldl (Replica.hear SignedOrderEntity.hash subscription.wants) told
        (r.row plan).hash = none := by
      rw [Replica.hearsOther fun mem => ?_]
      · cases here : told r.orderHash with
        | none => exact here
        | some row => exact absurd (h.known _ row here) valid.once
      · obtain ⟨row,listed,same⟩ := List.mem_map.mp mem
        have posted := stored row listed
        rw [same] at posted
        exact valid.once posted
    have book := postSaves valid.hash ok commits
    rw [postUpdatesSaved valid.hash ok commits, List.foldl_append]
    refine ⟨?_,?_⟩
    · rw [book]
      split
      · rename_i whole
        refine saved.savedQuietly ?_ untold
        obtain ⟨n,amount⟩ := valid.regular.whole
        rw [IsOpen, PostRequest.row, serializeOrder]
        dsimp only
        rw [whole, sub_zero, amount, BigNumber.toFixed0Int]
        exact lt_irrefl _
      · exact saved.saved fun old here => by rw [untold] at here; cases here
    · rw [← List.foldl_append]
      refine hearKnown (fun k row here => .inl (h.known k row here)) fun row mem => ?_
      rcases List.mem_append.mp mem with old | new
      · exact .inl (stored row old)
      · split at new
        · cases new
        · rw [List.mem_singleton.mp new]
          exact .inr rfl
  · rw [postUpdatesFailed succeeds]
    refine ⟨?_,fun k row here => .inl (h.known k row here)⟩
    rw [postFails succeeds]
    exact h.follows

def closedRow (row : SignedOrderEntity) : SignedOrderEntity := { row with filledAmount := row.amount }

theorem closingRow (row : SignedOrderEntity) : serializeOrder (closingOf row) = closedRow row := by
  simp only [closingOf, closing, serializeOrder, deserializeOrderToSRAOrder, deserializeOrder, BaseValue.ofValue,
    BigNumber.toFixed0Int, closedRow]

theorem cancelTracked (orderly : Orderly env inPlay s) (now : ℚ) (ordersHash : List Bytes32)
    (h : Tracked subscription first s told) :
    Tracked subscription first (s.cancel now ordersHash) (((cancelUpdates s ordersHash).map serializeOrder).foldl
      (Replica.hear SignedOrderEntity.hash subscription.wants) told) := by
  have table : (s.cancel now ordersHash).book.table = (cancelOrderAsync (some ordersHash) s.book.table).table :=
    (cancelTable ordersHash s.book).symm
  have ran := cancels ordersHash s.book.table
  rw [cancelUpdates]
  generalize cancelOrderAsync (some ordersHash) s.book.table = outcome at table ran ⊢
  cases ran with
  | nothing missing reason =>
    refine ⟨?_,h.known⟩
    rw [table]
    exact h.follows
  | @listed rows some' named =>
    have words : (rows.map closingOf).map serializeOrder = rows.map closedRow := by
      rw [List.map_map]
      exact List.map_congr_left fun row _ => closingRow row
    dsimp only
    rw [words]
    refine ⟨?_,hearKnown h.known fun row mem => ?_⟩
    · rw [table]
      dsimp only
      rw [← named.keys]
      refine h.follows.deleted closedRow (fun row => ⟨rfl,lt_irrefl _,rfl⟩) fun row mem old here alive => ?_
      have keyed := h.follows.keyed _ old here
      obtain rfl := KeyedTable.unique (h.follows.sound _ old here alive) (named.stored row mem) keyed.1
      exact keyed.2
    · obtain ⟨row',listed,rfl⟩ := List.mem_map.mp mem
      exact orderly.known row' (named.stored row' listed)

theorem servedTracked (injective : Set.InjOn env.contractHash inPlay) (orderly : Orderly env inPlay s₀)
    (begins : Tracked subscription first s₀ told) (run : Served env inPlay s₀ updates s) :
    Orderly env inPlay s ∧ Tracked subscription first s ((updates.map serializeOrder).foldl
      (Replica.hear SignedOrderEntity.hash subscription.wants) told) := by
  induction run with
  | none => exact ⟨orderly,begins⟩
  | post before r valid ih =>
    rw [List.map_append, List.foldl_append]
    exact ⟨postOrderly ih.1 valid injective,postTracked ih.1 valid ih.2⟩
  | cancel before now later ordersHash ih =>
    rw [List.map_append, List.foldl_append]
    exact ⟨cancelOrderly ih.1 now ordersHash,cancelTracked ih.1 now ordersHash ih.2⟩

theorem initialTracked (orderly : Orderly env inPlay s) (rows : List SignedOrderEntity)
    (stored : ∀ row ∈ rows, row ∈ s.book.table.rows)
    (h : Tracked subscription (fun row => row ∈ s.book.table.rows) s told) :
    Tracked subscription (fun row => row ∈ s.book.table.rows) s
      (rows.foldl (Replica.hear SignedOrderEntity.hash subscription.wants) told) := by
  refine ⟨?_,hearKnown h.known fun row mem => orderly.known row (stored row mem)⟩
  have follows := h.follows
  clear h
  induction rows generalizing told with
  | nil => exact follows
  | cons row rest ih =>
    obtain ⟨here,later⟩ := List.forall_mem_cons.mp stored
    exact ih later (follows.repeated here)

theorem initialRows (page : List SignedOrderEntity) :
    (Subscription.makeInitialResponse page).map serializeOrder =
      page.filter fun row => row.filledAmount < row.amount := by
  rw [Subscription.makeInitialResponse, List.filter_map, List.map_map]
  have same (row : SignedOrderEntity) : serializeOrder (deserializeOrderToSRAOrder row) = row := by
    simp only [serializeOrder, deserializeOrderToSRAOrder, deserializeOrder, BaseValue.ofValue, BigNumber.toFixed0Int]
  calc _ = ((page.filter fun row => row.filledAmount < row.amount).map fun row => row) :=
        List.map_congr_left fun row _ => same row
    _ = _ := List.map_id' _

end

def allOrders : Subscription := ⟨fun _ => "",id,⟨some (.string "orders"),none,none,none⟩⟩

def sampleUpdates : List SRAOrder :=
  [] ++ postUpdates .sample (.opening (fun _ => 0) 0) (sampleSell 100 100) ++
    postUpdates .sample (sampleSession 100 100) (sampleBuy (sampleSession 100 100))

end OrderBook
end Perpetual
