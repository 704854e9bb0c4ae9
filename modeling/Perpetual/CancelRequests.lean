import Perpetual.UncrossedBook

/-! One `POST /cancelOrder`: the look-ups, the delete and the updates that it emits. -/
namespace Perpetual
namespace OrderBook

inductive FindResult where
  | undefined
  | null
  | entity (row : SignedOrderEntity)

def findOneBy (orderHash : Bytes32) (table : Table) : FindResult :=
  match table.find orderHash with
  | some row => .entity row
  | none => .null

def getOrderByHashIfExistsAsync (orderHash : Bytes32) (table : Table) : Checked (Option SRAOrder) :=
  match findOneBy orderHash table with
  | .undefined => .ok none
  | .null => .error "Cannot read properties of null (reading 'typedSignature')"
  | .entity row => .ok (some (deserializeOrderToSRAOrder row))

def cancelOrdersAsyncByHash (ordersHash : List Bytes32) (table : Table) : Checked Table := do
  Checked.require (ordersHash ≠ []) "Empty criteria(s) are not allowed for the delete method."
  return table.delete ordersHash

def closing (order : SRAOrder) : SRAOrder :=
  ⟨order.order,{ order.metaData with filledAmount := order.order.amount }⟩

def emitOrders : List (Option SRAOrder) → List SRAOrder × Checked Unit
  | [] => ([],.ok ())
  | none :: _ => ([],.error "Cannot read properties of undefined (reading 'order')")
  | some order :: rest => (closing order :: (emitOrders rest).1,(emitOrders rest).2)

structure CancelOutcome where
  table : Table
  emitted : List SRAOrder
  status : Checked Nat

def cancelOrderAsync (body : Option (List Bytes32)) (table : Table) : CancelOutcome :=
  match body with
  | none => ⟨table,[],.error "non array data is not supported"⟩
  | some ordersHash =>
    match ordersHash.mapM (getOrderByHashIfExistsAsync · table) with
    | .error reason => ⟨table,[],.error reason⟩
    | .ok orders =>
      match cancelOrdersAsyncByHash ordersHash table with
      | .error reason => ⟨table,[],.error reason⟩
      | .ok left => ⟨left,(emitOrders orders).1,(emitOrders orders).2.map fun _ => 200⟩

def closingOf (row : SignedOrderEntity) : SRAOrder := closing (deserializeOrderToSRAOrder row)

structure Robust (ordersHash : List Bytes32) (table : Table) (outcome : CancelOutcome) : Prop where
  removed : ∀ row, row ∈ outcome.table.rows ↔ row ∈ table.rows ∧ row.hash ∉ ordersHash
  emitted : outcome.emitted.Perm ((table.rows.filter fun row => row.hash ∈ ordersHash).map closingOf)
  whole : ∀ reason, outcome.status = .error reason →
    ∀ row ∈ table.rows, row ∉ outcome.table.rows → closingOf row ∈ outcome.emitted

open KeyedTable (Named allNamed)

theorem lookedUp {table : Table} {orderHash : Bytes32} {order : Option SRAOrder} :
    getOrderByHashIfExistsAsync orderHash table = .ok order ↔
      ∃ row, table.find orderHash = some row ∧ some (deserializeOrderToSRAOrder row) = order := by
  simp only [getOrderByHashIfExistsAsync, findOneBy]
  cases table.find orderHash <;> simp

theorem lookups {ordersHash : List Bytes32} {table : Table} {orders : List (Option SRAOrder)} :
    ordersHash.mapM (getOrderByHashIfExistsAsync · table) = .ok orders ↔
      ∃ rows, Named ordersHash table rows ∧ orders = rows.map fun row => some (deserializeOrderToSRAOrder row) := by
  rw [Checked.mapMOk]
  constructor
  · intro found
    induction found with
    | nil => exact ⟨[],⟨rfl,List.forall_mem_nil _⟩,rfl⟩
    | cons first later ih =>
      obtain ⟨row,here,rfl⟩ := lookedUp.mp first
      obtain ⟨mem,rfl⟩ := KeyedTable.findSome.mp here
      obtain ⟨rows,named,rfl⟩ := ih
      exact ⟨row :: rows,⟨congrArg _ named.keys,List.forall_mem_cons.mpr ⟨mem,named.stored⟩⟩,rfl⟩
  · rintro ⟨rows,named,rfl⟩
    rw [← named.keys, List.forall₂_map_left_iff, List.forall₂_map_right_iff, List.forall₂_same]
    intro row mem
    exact lookedUp.mpr ⟨row,KeyedTable.findSome.mpr ⟨named.stored row mem,rfl⟩,rfl⟩

theorem emitsAll (rows : List SignedOrderEntity) :
    emitOrders (rows.map fun row => some (deserializeOrderToSRAOrder row)) = (rows.map closingOf,.ok ()) := by
  induction rows with
  | nil => rfl
  | cons row rest ih =>
    rw [List.map_cons, emitOrders, ih]
    rfl

/-- A request removes nothing where it lists no hash, or one with no row. Else it removes every row listed. -/
inductive Cancels (ordersHash : List Bytes32) (table : Table) : CancelOutcome → Prop where
  | nothing (missing : ordersHash = [] ∨ ∃ h ∈ ordersHash, table.find h = none) (reason : String) :
      Cancels ordersHash table ⟨table,[],.error reason⟩
  | listed {rows : List SignedOrderEntity} (some' : ordersHash ≠ []) (named : Named ordersHash table rows) :
      Cancels ordersHash table ⟨table.delete ordersHash,rows.map closingOf,.ok 200⟩

theorem cancels (ordersHash : List Bytes32) (table : Table) :
    Cancels ordersHash table (cancelOrderAsync (some ordersHash) table) := by
  simp only [cancelOrderAsync]
  cases found : ordersHash.mapM (getOrderByHashIfExistsAsync · table) with
  | error reason =>
    refine .nothing (.inr ?_) reason
    by_contra missing
    push Not at missing
    obtain ⟨rows,named⟩ := allNamed fun h mem => Option.isSome_iff_ne_none.mpr (missing h mem)
    rw [lookups.mpr ⟨rows,named,rfl⟩] at found
    cases found
  | ok orders =>
    obtain ⟨rows,named,rfl⟩ := lookups.mp found
    rcases eq_or_ne ordersHash [] with rfl | some'
    · exact .nothing (.inl rfl) _
    · have deleted : cancelOrdersAsyncByHash ordersHash table = .ok (table.delete ordersHash) :=
        Checked.requireThen some'
      simp only [deleted, emitsAll]
      exact .listed some' named

theorem failureKeeps {ordersHash : List Bytes32} {table : Table} {outcome : CancelOutcome} {reason : String}
    (ran : Cancels ordersHash table outcome) (failed : outcome.status = .error reason) :
    outcome.table = table ∧ outcome.emitted = [] := by
  cases ran with
  | nothing missing reason => exact ⟨rfl,rfl⟩
  | listed some' named => cases failed

theorem cancelTable (ordersHash : List Bytes32) (book : Book) :
    (cancelOrderAsync (some ordersHash) book.table).table = (cancelOrder ordersHash book).table := by
  have ran := cancels ordersHash book.table
  generalize cancelOrderAsync (some ordersHash) book.table = outcome at ran
  cases ran with
  | nothing missing reason =>
    unfold cancelOrder
    split
    · rename_i present
      rcases missing with rfl | ⟨h,mem,absent⟩
      · exact (KeyedTable.deleteNil _).symm
      · exact absurd absent (Option.isSome_iff_ne_none.mp (List.all_eq_true.mp present h mem))
    · rfl
  | listed some' named => rw [cancelOrder, if_pos (List.all_eq_true.mpr named.present)]

/-- Robust where nothing of the list is in the book, or all of it, each hash once. -/
theorem cancelsRobustly (ordersHash : List Bytes32) (table : Table) :
    Robust ordersHash table (cancelOrderAsync (some ordersHash) table) ↔
      (∀ h ∈ ordersHash, table.find h = none) ∨
        ordersHash.Nodup ∧ ∀ h ∈ ordersHash, (table.find h).isSome := by
  have ran := cancels ordersHash table
  generalize cancelOrderAsync (some ordersHash) table = outcome at ran ⊢
  cases ran with
  | nothing missing reason =>
    constructor
    · intro robust
      refine .inl fun h mem => KeyedTable.findNone.mpr fun row inside here => ?_
      exact ((robust.removed row).mp inside).2 (here ▸ mem)
    · intro condition
      have absent : ∀ h ∈ ordersHash, table.find h = none := by
        rcases condition with absent | ⟨_,present⟩
        · exact absent
        · rcases missing with rfl | ⟨h,mem,none⟩
          · exact List.forall_mem_nil _
          · exact absurd none (Option.isSome_iff_ne_none.mp (present h mem))
      have unlisted : ∀ row ∈ table.rows, row.hash ∉ ordersHash :=
        fun row inside mem => KeyedTable.findNone.mp (absent _ mem) row inside rfl
      refine ⟨fun row => (and_iff_left_of_imp (unlisted row)).symm,?_,fun _ _ row inside gone => absurd inside gone⟩
      rw [List.filter_eq_nil_iff.mpr fun row inside => by simpa using unlisted row inside]
      exact .nil
  | @listed rows some' named =>
    have once := named.onceEach closingOf (fun order => order.metaData.orderHash) fun _ => rfl
    constructor
    · intro robust
      exact .inr ⟨once.mp robust.emitted,named.present⟩
    · rintro (absent | ⟨distinct,_⟩)
      · obtain ⟨h,mem⟩ := List.exists_mem_of_ne_nil _ some'
        exact absurd (absent h mem) (Option.isSome_iff_ne_none.mp (named.present h mem))
      · exact ⟨fun _ => KeyedTable.memDelete,once.mpr distinct,fun _ failed => by (cases failed)⟩

theorem missingKeepsAll : ¬ ∀ (ordersHash : List Bytes32) (table : Table),
    Robust ordersHash table (cancelOrderAsync (some ordersHash) table) := by
  intro robust
  have updates := (robust [100,200] (sampleSession 100 100).book.table).emitted.length_eq
  revert updates
  decide +kernel

end OrderBook
end Perpetual
