import Perpetual.ConcurrentPosts

/-! Stale reads, orders posted twice, cancels and fills by others can leave the book behind the
chain. They never put it ahead. -/
namespace Perpetual
namespace OrderBook
variable {ι : Type} {env : Environment}

def BackedRow (env : Environment) (filled : Filled) (row : SignedOrderEntity) : Prop :=
  SoundRow env row ∧ row.filledAmount ≤ filled row.hash

structure BackedPlan (env : Environment) (filled : Filled) (signedOrder : SignedOrder) (plan : Plan) : Prop where
  sound : SoundPlan env signedOrder plan
  read : ∀ fill ∈ plan.fills, fill.1.metaData.filledAmount ≤ filled fill.1.metaData.orderHash

structure BackedSaves (env : Environment) (filled : Filled) (signedOrder : SignedOrder) (filledAmount : ℚ)
    (rows : List SignedOrderEntity) : Prop where
  whole : ∃ n : ℤ, filledAmount = n
  own : ∀ h, env.getOrderHash signedOrder = .ok h → filledAmount ≤ filled h
  rows : ∀ row ∈ rows, BackedRow env filled row

def BackedRequest (env : Environment) (filled : Filled) : Request → Prop
  | .posted signedOrder => Regular signedOrder
  | .matched signedOrder plan => Regular signedOrder ∧ BackedPlan env filled signedOrder plan
  | .saving signedOrder filledAmount rows =>
      Regular signedOrder ∧ BackedSaves env filled signedOrder filledAmount rows
  | .answered _ | .failed _ | .canceling _ _ | .canceled _ | .cancelFailed _ => True

structure Backed (env : Environment) (s : Server ι) : Prop where
  rows : ∀ row ∈ s.book.table.rows, BackedRow env s.book.filled row
  requests : ∀ i, BackedRequest env s.book.filled (s.request i)

section
variable {less more : Filled}

theorem BackedRow.grown (le : ∀ h, less h ≤ more h) {row : SignedOrderEntity} (h : BackedRow env less row) :
    BackedRow env more row := ⟨h.1,h.2.trans (Nat.cast_le.mpr (le row.hash))⟩

theorem BackedRequest.grown (le : ∀ h, less h ≤ more h) {request : Request}
    (h : BackedRequest env less request) : BackedRequest env more request := by
  cases request with
  | posted signedOrder => exact h
  | matched signedOrder plan =>
    obtain ⟨regular,backed⟩ := h
    exact ⟨regular,backed.sound,fun fill mem => (backed.read fill mem).trans (Nat.cast_le.mpr (le _))⟩
  | saving signedOrder filledAmount rows =>
    obtain ⟨regular,backed⟩ := h
    refine ⟨regular,backed.whole,fun k hash => (backed.own k hash).trans (Nat.cast_le.mpr (le k)),?_⟩
    exact fun row mem => (backed.rows row mem).grown le
  | answered | failed | canceling | canceled | cancelFailed => trivial

theorem BackedPlan.commits {signedOrder : SignedOrder} {plan : Plan} {filled filled' : Filled}
    (h : BackedPlan env filled signedOrder plan) (ok : commit env plan filled = .ok filled') :
    BackedSaves env filled' signedOrder (signedOrder.amount - plan.remainingAmount) plan.updatedOrders := by
  have traded (fill : SRAOrder × ℚ) (mem : fill ∈ plan.fills) : 0 ≤ fill.2 := (h.sound.positive fill mem).le
  have total : 0 ≤ signedOrder.amount - plan.remainingAmount := by
    rw [← h.sound.total]
    refine List.sum_nonneg fun x mem => ?_
    obtain ⟨fill,inside,rfl⟩ := List.mem_map.mp mem
    exact traded fill inside
  refine ⟨h.sound.wholeTotal,fun k hash => ?_,fun row mem => ⟨h.sound.updatedSound mem,?_⟩⟩
  · have now := h.sound.commits ok (hashedIncoming hash) k
    rw [if_pos rfl] at now
    have others : 0 ≤ tradedOf k plan.fills := by
      refine List.sum_nonneg fun x mem => ?_
      obtain ⟨fill,inside,rfl⟩ := List.mem_map.mp mem
      split
      · exact traded fill inside
      · exact le_rfl
    have before : (0 : ℚ) ≤ filled k := Nat.cast_nonneg _
    linarith
  · obtain ⟨fill,inside,rfl⟩ := List.mem_map.mp mem
    obtain ⟨incoming,hash⟩ := h.sound.made.hashed (List.ne_nil_of_mem inside)
    have now := h.sound.commits ok (hashedIncoming hash) fill.1.metaData.orderHash
    rw [tradedOfOne h.sound.distinct inside] at now
    have read := h.read fill inside
    change fill.1.metaData.filledAmount + fill.2 ≤ filled' fill.1.metaData.orderHash
    rw [now]
    split <;> linarith

end

variable [DecidableEq ι]

theorem backedBecome {s : Server ι} {i : ι} {request : Request} {book : Book} (h : Backed env s)
    (le : ∀ k, s.book.filled k ≤ book.filled k) (rows : ∀ row ∈ book.table.rows, BackedRow env book.filled row)
    (now : BackedRequest env book.filled request) : Backed env (s.become i request book) where
  rows := rows
  requests j := by
    rw [becomeRequest, Function.update_apply]
    split
    · exact now
    · exact (h.requests j).grown le

theorem Backed.reads {s : Server ι} {i : ι} {signedOrder : SignedOrder} (h : Backed env s)
    (posted : s.request i = .posted signedOrder) {now : ℚ} {rows : List SignedOrderEntity}
    (read : rows.Perm (findBy signedOrder s.book.table)) :
    Backed env (s.become i (matchOrder env now rows signedOrder) s.book) := by
  have regular : Regular signedOrder := by
    have known := h.requests i
    rwa [posted] at known
  refine backedBecome h (fun k => le_rfl) h.rows ?_
  unfold matchOrder
  split
  · trivial
  · rename_i plan ok
    have made := planned ok
    have sound := plannedSound made read regular fun row mem => (h.rows row mem).1
    split
    · rename_i nothing
      have total := made.total
      rw [nothing, List.map_nil, List.sum_nil] at total
      rw [← total]
      exact ⟨regular,⟨0,Int.cast_zero.symm⟩,fun k _ => Nat.cast_nonneg _,List.forall_mem_nil _⟩
    · refine ⟨regular,sound,fun fill mem => ?_⟩
      obtain ⟨row,listed,same,_⟩ := made.read mem
      have backed := (h.rows row (memFindBy.mp (read.subset listed)).1).2
      rwa [same]

theorem stepBacked {s s' : Server ι} {action : Action ι} (h : Backed env s)
    (ok : step env s action = some s') : Backed env s' := by
  have same (k : Bytes32) : s.book.filled k ≤ s.book.filled k := le_rfl
  cases stepped ok with
  | read posted read => exact h.reads posted read
  | @submit i signedOrder plan filled matched commits =>
    have known := h.requests i
    rw [matched] at known
    refine backedBecome h (commitGrows commits) (fun row mem => ?_) ⟨known.1,known.2.commits commits⟩
    exact (h.rows row mem).grown (commitGrows commits)
  | revert matched => exact backedBecome h same h.rows trivial
  | @save i signedOrder filledAmount rows row saving mem =>
    have known := h.requests i
    rw [saving] at known
    obtain ⟨regular,backed⟩ := known
    refine backedBecome h same (fun other inside => ?_) ⟨regular,backed.whole,backed.own,fun other inside => ?_⟩
    · rcases KeyedTable.memSave.mp inside with rfl | ⟨old,_⟩
      · exact backed.rows other mem
      · exact h.rows other old
    · exact backed.rows other (List.mem_of_mem_erase inside)
  | @add i createdAt signedOrder filledAmount orderHash saving hash =>
    have known := h.requests i
    rw [saving] at known
    obtain ⟨regular,backed⟩ := known
    refine backedBecome h same (fun other inside => ?_) trivial
    rcases KeyedTable.memSave.mp inside with rfl | ⟨old,_⟩
    · obtain ⟨n,whole⟩ := backed.whole
      exact ⟨whole ▸ soundAdded regular.signed hash n createdAt,backed.own orderHash hash⟩
    · exact h.rows other old
  | unhashable saving hash => exact backedBecome h same h.rows trivial
  | find canceling next => exact backedBecome h same h.rows (by rcases next with rfl | rfl <;> trivial)
  | @delete i ordersHash canceling =>
    exact backedBecome h same (fun row mem => h.rows row (KeyedTable.memDelete.mp mem).1) trivial

/-- The requests take their steps, and anyone with an account fills orders on chain past the book. -/
inductive OpenStep (env : Environment) (s : Server ι) : Server ι → Prop where
  | request {s' : Server ι} (action : Action ι) (ok : step env s action = some s') : OpenStep env s s'
  | filledElsewhere (filled : Filled) (more : ∀ h, s.book.filled h ≤ filled h) :
      OpenStep env s ⟨⟨s.book.table,filled⟩,s.request⟩

structure Opening (env : Environment) (s : Server ι) : Prop where
  rows : ∀ row ∈ s.book.table.rows, SoundRow env row ∧ row.filledAmount ≤ s.book.filled row.hash
  requests : ∀ i, (∃ signedOrder, Regular signedOrder ∧ s.request i = .posted signedOrder) ∨
    ∃ unread ordersHash, s.request i = .canceling unread ordersHash

omit [DecidableEq ι] in
theorem Opening.backed {s : Server ι} (h : Opening env s) : Backed env s where
  rows := h.rows
  requests i := by
    rcases h.requests i with ⟨signedOrder,regular,posted⟩ | ⟨unread,ordersHash,canceling⟩
    · rw [posted]
      exact regular
    · rw [canceling]
      trivial

theorem openBacked {start s : Server ι} (h : Backed env start)
    (run : Relation.ReflTransGen (OpenStep env) start s) : Backed env s := by
  induction run with
  | refl => exact h
  | tail _ last ih =>
    cases last with
    | request action ok => exact stepBacked ih ok
    | filledElsewhere filled more =>
      exact ⟨fun row mem => (ih.rows row mem).grown more,fun i => (ih.requests i).grown more⟩

theorem Run.opens {allowed : Server ι → Action ι → Prop} {start s : Server ι} (run : Run env allowed start s) :
    Relation.ReflTransGen (OpenStep env) start s := by
  induction run with
  | none => exact .refl
  | more before action may next ih => exact ih.tail (.request action next)

end OrderBook
end Perpetual
