import Perpetual.Matching

/-! `POST /order` requests that are handled one at a time. -/
namespace Perpetual
namespace OrderBook
variable {env : Environment} {inPlay : Set Order}

inductive Posted (env : Environment) (now : ℚ) (createdAt : ℤ) (rows : List SignedOrderEntity)
    (signedOrder : SignedOrder) (book : Book) : Book → Prop where
  | refused : Posted env now createdAt rows signedOrder book book
  | saved {plan : Plan} {filled : Filled} {incoming : Bytes32}
      (made : Planned env now rows signedOrder plan) (commits : commit env plan book.filled = .ok filled)
      (hash : env.getOrderHash signedOrder = .ok incoming) :
      Posted env now createdAt rows signedOrder book
        ⟨(plan.updatedOrders.foldl KeyedTable.save book.table).save (serializeOrder ⟨signedOrder,
          ⟨incoming,signedOrder.amount - plan.remainingAmount,.Null,createdAt⟩⟩),filled⟩

theorem posted (now : ℚ) (createdAt : ℤ) (rows : List SignedOrderEntity) (signedOrder : SignedOrder)
    (book : Book) : Posted env now createdAt rows signedOrder book
      (postOrder env now createdAt rows signedOrder book) := by
  unfold postOrder
  cases plans : fulfillOrder env now rows signedOrder with
  | error reason => exact .refused
  | ok plan =>
    have made := planned plans
    simp only
    cases commits : commit env plan book.filled with
    | error reason => exact .refused
    | ok filled =>
      cases hash : env.getOrderHash signedOrder with
      | ok incoming =>
        simp only [addOrder, hash]
        exact .saved made commits hash
      | error reason =>
        -- An order without a hash has matched nothing, so nothing has changed.
        have nothing : plan.fills = [] := by
          by_contra some'
          obtain ⟨incoming,ok⟩ := made.trades.hashed some'
          rw [ok] at hash
          cases hash
        have trades := made.trades
        rw [nothing] at trades
        unfold commit at commits
        generalize plan.trades.map TradeArg.data = datas at trades commits
        cases trades
        cases commits
        simp only [addOrder, hash, Plan.updatedOrders, nothing, List.map_nil, List.foldl_nil]
        exact .refused

structure Accounted (env : Environment) (inPlay : Set Order) (book : Book) : Prop where
  sound : ∀ row ∈ book.table.rows, SoundRow env row
  listed : ∀ row ∈ book.table.rows, ∀ solidityOrder,
    SignedOrder.orderToSolidity (deserializeOrder row) = .ok solidityOrder → solidityOrder ∈ inPlay
  agrees : Agrees book

/-- The posted order is regular, in play, and nothing of it has been filled on chain before. -/
structure PostedNew (env : Environment) (inPlay : Set Order) (book : Book) (signedOrder : SignedOrder) :
    Prop where
  regular : Regular signedOrder
  listed : ∀ solidityOrder, SignedOrder.orderToSolidity signedOrder = .ok solidityOrder →
    solidityOrder ∈ inPlay
  unfilled : ∀ h, env.getOrderHash signedOrder = .ok h → book.filled h = 0

section
variable {now : ℚ} {createdAt : ℤ} {rows : List SignedOrderEntity} {signedOrder : SignedOrder}
  {book : Book} {plan : Plan} {filled : Filled} {incoming : Bytes32}

theorem makersApart (accounted : Accounted env inPlay book) (new : PostedNew env inPlay book signedOrder)
    (injective : Set.InjOn env.contractHash inPlay) (read : rows.Perm (findBy signedOrder book.table))
    (made : Planned env now rows signedOrder plan) (hash : env.getOrderHash signedOrder = .ok incoming) :
    ∀ fill ∈ plan.fills, fill.1.metaData.orderHash ≠ incoming := by
  intro fill mem same
  obtain ⟨row,inside,rereads,_⟩ := made.read mem
  obtain ⟨stored,side⟩ := memFindBy.mp (read.subset inside)
  have maker := made.trades.makerEncoded mem
  have taker := made.trades.takerEncoded (List.ne_nil_of_mem mem)
  obtain ⟨makerOrder,makerEncodes⟩ := maker
  obtain ⟨takerOrder,takerEncodes⟩ := taker
  rw [rereads] at makerEncodes same
  have equal : makerOrder = takerOrder := by
    refine injective (accounted.listed row stored makerOrder makerEncodes)
      (new.listed takerOrder takerEncodes) ?_
    rw [(accounted.sound row stored).hashed makerOrder makerEncodes,
      hashedIncoming hash takerOrder takerEncodes]
    exact same
  have makerSide := SignedOrder.sideKept makerEncodes
  rw [equal, SignedOrder.sideKept takerEncodes] at makerSide
  have clash : signedOrder.isBuy = !signedOrder.isBuy := makerSide.trans side
  cases side' : signedOrder.isBuy <;> rw [side'] at clash <;> cases clash

theorem savedRows (distinct : (plan.fills.map fun fill => fill.1.metaData.orderHash).Nodup)
    {metaData : SRAOrderMetaData} {row : SignedOrderEntity} :
    row ∈ ((plan.updatedOrders.foldl KeyedTable.save book.table).save
        (serializeOrder ⟨signedOrder,metaData⟩)).rows ↔
      row = serializeOrder ⟨signedOrder,metaData⟩ ∨ row.hash ≠ metaData.orderHash ∧
        ((∃ fill ∈ plan.fills, row = serializeOrder (updated fill.1 fill.2)) ∨
          row ∈ book.table.rows ∧ ∀ fill ∈ plan.fills, fill.1.metaData.orderHash ≠ row.hash) := by
  have keys : (plan.updatedOrders.map SignedOrderEntity.hash).Nodup := by
    rw [updatedHashes]
    exact distinct
  rw [KeyedTable.memSave, KeyedTable.memSaves keys, updatedHashes, and_comm (b := _ ≠ _)]
  simp only [Plan.updatedOrders, List.mem_map, not_exists, not_and]
  constructor
  · rintro (posted | ⟨away,⟨fill,mem,rfl⟩ | kept⟩)
    · exact .inl posted
    · exact .inr ⟨away,.inl ⟨fill,mem,rfl⟩⟩
    · exact .inr ⟨away,.inr kept⟩
  · rintro (posted | ⟨away,⟨fill,mem,rfl⟩ | kept⟩)
    · exact .inl posted
    · exact .inr ⟨away,.inl ⟨fill,mem,rfl⟩⟩
    · exact .inr ⟨away,.inr kept⟩

theorem savedAccounted (accounted : Accounted env inPlay book)
    (new : PostedNew env inPlay book signedOrder) (injective : Set.InjOn env.contractHash inPlay)
    (read : rows.Perm (findBy signedOrder book.table)) (made : Planned env now rows signedOrder plan)
    (commits : commit env plan book.filled = .ok filled) (hash : env.getOrderHash signedOrder = .ok incoming) :
    Accounted env inPlay ⟨(plan.updatedOrders.foldl KeyedTable.save book.table).save (serializeOrder
      ⟨signedOrder,⟨incoming,signedOrder.amount - plan.remainingAmount,.Null,createdAt⟩⟩),filled⟩ := by
  have plans := plannedSound made read new.regular accounted.sound
  have apart := makersApart accounted new injective read made hash
  have total := plans.commits commits (hashedIncoming hash)
  have maker {fill : SRAOrder × ℚ} (mem : fill ∈ plan.fills) :
      ∃ old ∈ book.table.rows, fill.1 = deserializeOrderToSRAOrder old := by
    obtain ⟨old,inside,same,_⟩ := made.read mem
    exact ⟨old,(memFindBy.mp (read.subset inside)).1,same⟩
  refine ⟨fun row mem => ?_,fun row mem => ?_,fun row mem => ?_⟩ <;>
    rcases (savedRows plans.distinct).mp mem with rfl | ⟨away,⟨fill,inside,rfl⟩ | ⟨old,kept⟩⟩
  · obtain ⟨n,whole⟩ := plans.wholeTotal
    rw [whole]
    exact soundAdded new.regular.signed hash n createdAt
  · exact plans.updatedSound (List.mem_map_of_mem inside)
  · exact accounted.sound row old
  · rw [storedAlike new.regular.signed hash]
    exact new.listed
  · obtain ⟨before,stored,same⟩ := maker inside
    have again := congrArg SRAOrder.order (rereads before fill.2)
    rw [← same] at again
    change deserializeOrder _ = fill.1.order at again
    rw [again, same]
    exact accounted.listed before stored
  · exact accounted.listed row old
  · have now := total incoming
    rw [tradedOfNone apart, new.unfilled incoming hash, if_pos rfl] at now
    change signedOrder.amount - plan.remainingAmount = filled incoming
    rw [now, Nat.cast_zero, zero_add, zero_add]
  · obtain ⟨before,stored,same⟩ := maker inside
    have now := total fill.1.metaData.orderHash
    rw [tradedOfOne plans.distinct inside, if_neg (apart fill inside).symm, add_zero] at now
    change fill.1.metaData.filledAmount + fill.2 = filled fill.1.metaData.orderHash
    rw [now]
    rw [same]
    exact congrArg (· + fill.2) (accounted.agrees before stored)
  · have now := total row.hash
    rw [tradedOfNone kept, if_neg (Ne.symm away), add_zero, add_zero] at now
    rw [accounted.agrees row old]
    exact now.symm

theorem postAccounted {now : ℚ} {createdAt : ℤ} {after : Book} (accounted : Accounted env inPlay book)
    (new : PostedNew env inPlay book signedOrder) (injective : Set.InjOn env.contractHash inPlay)
    (read : rows.Perm (findBy signedOrder book.table))
    (posted : Posted env now createdAt rows signedOrder book after) : Accounted env inPlay after := by
  cases posted with
  | refused => exact accounted
  | saved made commits hash => exact savedAccounted accounted new injective read made commits hash

structure Kept (before after : Book) : Prop where
  grows : ∀ row ∈ before.table.rows, ∃ row' ∈ after.table.rows,
    row'.hash = row.hash ∧ row.filledAmount ≤ row'.filledAmount
  full : ∀ row ∈ before.table.rows, 0 < row.amount → (row.amount : ℚ) ≤ row.filledAmount →
    row ∈ after.table.rows

theorem Kept.trans {a b c : Book} (first : Kept a b) (last : Kept b c) : Kept a c where
  grows row mem := by
    obtain ⟨row',mem',same,le⟩ := first.grows row mem
    obtain ⟨row'',mem'',same',le'⟩ := last.grows row' mem'
    exact ⟨row'',mem'',same'.trans same,le.trans le'⟩
  full row mem some' filled := last.full row (first.full row mem some' filled) some' filled

theorem Kept.refl (a : Book) : Kept a a :=
  ⟨fun row mem => ⟨row,mem,rfl,le_rfl⟩,fun _ mem _ _ => mem⟩

theorem postKeeps {now : ℚ} {createdAt : ℤ} {after : Book} (accounted : Accounted env inPlay book)
    (new : PostedNew env inPlay book signedOrder) (injective : Set.InjOn env.contractHash inPlay)
    (read : rows.Perm (findBy signedOrder book.table))
    (posted : Posted env now createdAt rows signedOrder book after) : Kept book after := by
  have later := postAccounted accounted new injective read posted
  cases posted with
  | refused => exact .refl book
  | @saved plan filled incoming made commits hash =>
    have distinct := made.distinct ((read.map _).nodup_iff.mpr (findByDistinct signedOrder book.table))
    constructor
    · intro row mem
      -- Whatever row has the key now, it agrees with the chain, where filled amounts only grow.
      suffices ∃ row' ∈ ((plan.updatedOrders.foldl KeyedTable.save book.table).save (serializeOrder
          ⟨signedOrder,⟨incoming,signedOrder.amount - plan.remainingAmount,.Null,createdAt⟩⟩)).rows,
          row'.hash = row.hash by
        obtain ⟨row',mem',same⟩ := this
        refine ⟨row',mem',same,?_⟩
        rw [accounted.agrees row mem, later.agrees row' mem', same]
        exact_mod_cast commitGrows commits row.hash
      by_cases here : row.hash = incoming
      · exact ⟨_,(savedRows distinct).mpr (.inl rfl),here.symm⟩
      · by_cases matched : ∃ fill ∈ plan.fills, fill.1.metaData.orderHash = row.hash
        · obtain ⟨fill,inside,same⟩ := matched
          exact ⟨_,(savedRows distinct).mpr (.inr ⟨fun clash => here (same.symm.trans clash),
            .inl ⟨fill,inside,rfl⟩⟩),same⟩
        · exact ⟨row,(savedRows distinct).mpr (.inr ⟨here,.inr ⟨mem,fun fill inside same =>
            matched ⟨fill,inside,same⟩⟩⟩),rfl⟩
    · intro row mem some' full
      refine (savedRows distinct).mpr (.inr ⟨fun here => ?_,.inr ⟨mem,fun fill inside same => ?_⟩⟩)
      · have nothing := accounted.agrees row mem
        rw [here, new.unfilled incoming hash, Nat.cast_zero] at nothing
        rw [nothing] at full
        exact absurd some' (not_lt.mpr (by exact_mod_cast full))
      · obtain ⟨other,listed,rereads,left⟩ := made.read inside
        rw [rereads] at same
        obtain rfl := book.table.unique (memFindBy.mp (read.subset listed)).1 mem same
        exact absurd full (not_le.mpr left)

end

inductive Posts (env : Environment) (may : Book → SignedOrder → Prop) (start : Book) : Book → Prop where
  | none : Posts env may start start
  | more {book : Book} (before : Posts env may start book) (now : ℚ) (createdAt : ℤ)
      (rows : List SignedOrderEntity) (signedOrder : SignedOrder) (posts : may book signedOrder)
      (read : rows.Perm (findBy signedOrder book.table)) :
      Posts env may start (postOrder env now createdAt rows signedOrder book)

theorem postsAccounted {start book : Book} (accounted : Accounted env inPlay start)
    (injective : Set.InjOn env.contractHash inPlay)
    (posts : Posts env (PostedNew env inPlay) start book) : Accounted env inPlay book := by
  induction posts with
  | none => exact accounted
  | more before now createdAt rows signedOrder new read ih =>
    exact postAccounted ih new injective read (posted now createdAt rows signedOrder _)

/-- In every run of posts of new orders the book agrees with the chain after each of them. What is
stored as filled never decreases, and a filled order stays as it is. -/
theorem sequentialPostsAgree {start earlier later : Book} (accounted : Accounted env inPlay start)
    (injective : Set.InjOn env.contractHash inPlay)
    (first : Posts env (PostedNew env inPlay) start earlier)
    (rest : Posts env (PostedNew env inPlay) earlier later) :
    Agrees later ∧ Kept earlier later := by
  have now := postsAccounted accounted injective first
  refine ⟨(postsAccounted now injective rest).agrees,?_⟩
  induction rest with
  | none => exact .refl earlier
  | more before now' createdAt rows signedOrder new read ih =>
    exact ih.trans (postKeeps (postsAccounted now injective before) new injective read
      (posted now' createdAt rows signedOrder _))

theorem listedInjective {orders : List SignedOrder} (different : ∀ orderA ∈ orders, ∀ orderB ∈ orders,
      Environment.sample.getOrderHash orderA = Environment.sample.getOrderHash orderB → orderA = orderB) :
    Set.InjOn Environment.sample.contractHash
      {solidityOrder | ∃ order ∈ orders, SignedOrder.orderToSolidity order = .ok solidityOrder} := by
  rintro a ⟨orderA,memA,encodesA⟩ b ⟨orderB,memB,encodesB⟩ same
  have equal : orderA = orderB := by
    refine different orderA memA orderB memB ?_
    rw [Environment.getOrderHash, SignedOrder.hashed _ _ encodesA, SignedOrder.hashed _ _ encodesB]
    exact congrArg Except.ok same
  rw [equal, encodesB] at encodesA
  exact (Except.ok.inj encodesA).symm

def sampleOrders : List SignedOrder :=
  [sampleSigned false 10 100,sampleSigned true 1 101,sampleSigned true 1 102]

def sampleInPlay : Set Order :=
  {solidityOrder | ∃ order ∈ sampleOrders, SignedOrder.orderToSolidity order = .ok solidityOrder}

theorem sampleInjective : Set.InjOn Environment.sample.contractHash sampleInPlay :=
  listedInjective (by decide +kernel)

theorem sampleRegular (isBuy : Bool) (amount : ℤ) (expiration : ℚ) :
    Regular (sampleSigned isBuy amount expiration) where
  whole := ⟨amount,rfl⟩
  signed negative := Bool.false_ne_true (congrArg BaseValue.isNegative negative)

theorem samplePostedNew {book : Book} {signedOrder : SignedOrder} {h : Bytes32}
    (mem : signedOrder ∈ sampleOrders) (hash : Environment.sample.getOrderHash signedOrder = .ok h)
    (unfilled : book.filled h = 0) : PostedNew .sample sampleInPlay book signedOrder where
  regular := by
    simp only [sampleOrders, List.mem_cons, List.not_mem_nil, or_false] at mem
    rcases mem with rfl | rfl | rfl
    · exact sampleRegular false 10 100
    · exact sampleRegular true 1 101
    · exact sampleRegular true 1 102
  listed solidityOrder encodes := ⟨signedOrder,mem,encodes⟩
  unfilled k same := by
    obtain rfl := Except.ok.inj (hash.symm.trans same)
    exact unfilled

def sampleEmpty : Book := ⟨.empty,fun _ => 0⟩

def sampleResting : Book := postOrder .sample 0 0 [] (sampleSigned false 10 100) sampleEmpty

def sampleBought : Book :=
  postOrder .sample 0 0 sampleResting.table.rows (sampleSigned true 1 101) sampleResting

def sampleBoughtTwice : Book :=
  postOrder .sample 0 0 (findBy (sampleSigned true 1 102) sampleBought.table) (sampleSigned true 1 102)
    sampleBought

theorem sequentialSampleAgrees : sampleBoughtTwice.observed 100 = (some 2,2) ∧
    Agrees sampleBoughtTwice ∧ Kept sampleBought sampleBoughtTwice := by
  have accounted : Accounted .sample sampleInPlay sampleEmpty :=
    ⟨List.forall_mem_nil _,List.forall_mem_nil _,List.forall_mem_nil _⟩
  have resting : Posts .sample (PostedNew .sample sampleInPlay) sampleEmpty sampleResting :=
    .more .none 0 0 [] _ (samplePostedNew (h := 100) (by decide +kernel) (by decide +kernel) rfl) (.refl _)
  have bought : Posts .sample (PostedNew .sample sampleInPlay) sampleEmpty sampleBought :=
    .more resting 0 0 _ _ (samplePostedNew (h := 101) (by decide +kernel) (by decide +kernel)
      (by decide +kernel)) (by decide +kernel)
  have again : Posts .sample (PostedNew .sample sampleInPlay) sampleBought sampleBoughtTwice :=
    .more .none 0 0 _ _ (samplePostedNew (h := 102) (by decide +kernel) (by decide +kernel)
      (by decide +kernel)) (.refl _)
  exact ⟨by decide +kernel,sequentialPostsAgree accounted sampleInjective bought again⟩

theorem repostForgetsFills : ¬ ∀ (env : Environment) (later : Book),
    Posts env (fun _ _ => True) ⟨.empty,fun _ => 0⟩ later → Agrees later := by
  intro agree
  have posts : Posts .sample (fun _ _ => True) sampleEmpty
      (postOrder .sample 0 0 (findBy (sampleSigned false 10 100) sampleBought.table)
        (sampleSigned false 10 100) sampleBought) :=
    .more (.more (.more .none 0 0 [] _ trivial (.refl _)) 0 0 _ _ trivial (by decide +kernel))
      0 0 _ _ trivial (.refl _)
  have equal := (agree .sample _ posts).observed (h := 100) (v := 0) (n := 1) (by decide +kernel)
  norm_num at equal

end OrderBook
end Perpetual
