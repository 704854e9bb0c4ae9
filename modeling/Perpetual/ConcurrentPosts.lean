import Perpetual.BookServer
import Perpetual.StoredCopy

/-! Concurrent `POST /order` requests. The filled amount of every row is a stored copy of the
filled amount on chain, and each request is a writer of the rows that it matches. -/
namespace Perpetual
namespace OrderBook
open StoredCopy (Cell Move Consistent)
variable {ι : Type} {env : Environment}

def snapshot (h : Bytes32) : Request → Option ℚ
  | .matched _ plan => (plan.fills.find? fun fill => fill.1.metaData.orderHash = h).map
      fun fill => fill.1.metaData.filledAmount
  | _ => none

def unsaved (env : Environment) (h : Bytes32) : Request → Option ℚ
  | .saving signedOrder filledAmount rows =>
      if env.getOrderHash signedOrder = .ok h then some filledAmount
      else (rows.find? fun row => row.hash = h).map SignedOrderEntity.filledAmount
  | _ => none

def unopened (env : Environment) (h : Bytes32) : Request → Bool
  | .posted signedOrder | .matched signedOrder _ => decide (env.getOrderHash signedOrder = .ok h)
  | _ => false

def cell (env : Environment) (h : Bytes32) (s : Server ι) : Cell ι ℚ where
  total := s.book.filled h
  stored := (s.book.table.find h).map SignedOrderEntity.filledAmount
  read := fun i => snapshot h (s.request i)
  pending := fun i => unsaved env h (s.request i)
  opens := fun i => unopened env h (s.request i)

structure SoundSaves (env : Environment) (signedOrder : SignedOrder) (filledAmount : ℚ)
    (rows : List SignedOrderEntity) : Prop where
  whole : ∃ n : ℤ, filledAmount = n
  distinct : (rows.map SignedOrderEntity.hash).Nodup
  rows : ∀ row ∈ rows, SoundRow env row ∧ env.getOrderHash signedOrder ≠ .ok row.hash

def SoundRequest (env : Environment) : Request → Prop
  | .posted signedOrder => Regular signedOrder
  | .matched signedOrder plan =>
      Regular signedOrder ∧ SoundPlan env signedOrder plan ∧ plan.fills ≠ []
  | .saving signedOrder filledAmount rows =>
      Regular signedOrder ∧ SoundSaves env signedOrder filledAmount rows
  | .answered _ | .failed _ => True
  | .canceling _ _ | .canceled _ | .cancelFailed _ => False

theorem snapshotSome {k : Bytes32} {signedOrder : SignedOrder} {plan : Plan} {v : ℚ}
    (found : snapshot k (.matched signedOrder plan) = some v) :
    ∃ fill ∈ plan.fills, fill.1.metaData.orderHash = k ∧ fill.1.metaData.filledAmount = v := by
  obtain ⟨fill,listed,same⟩ := Option.map_eq_some_iff.mp found
  exact ⟨fill,List.mem_of_find?_eq_some listed,by simpa using List.find?_some listed,same⟩

theorem snapshotNone {k : Bytes32} {signedOrder : SignedOrder} {plan : Plan} :
    snapshot k (.matched signedOrder plan) = none ↔ ∀ fill ∈ plan.fills, fill.1.metaData.orderHash ≠ k := by
  simp [snapshot, List.find?_eq_none]

theorem findErase {rows : List SignedOrderEntity} {row : SignedOrderEntity} {k : Bytes32}
    (away : row.hash ≠ k) : (rows.erase row).find? (fun other => other.hash = k) =
      rows.find? fun other => other.hash = k := by
  induction rows with
  | nil => rfl
  | cons first rest ih =>
    rw [List.erase_cons]
    split
    · rename_i same
      rw [List.find?_cons_of_neg (by rw [eq_of_beq same]; simpa using away)]
    · rw [List.find?_cons, List.find?_cons, ih]

theorem unsavedUpdated {signedOrder : SignedOrder} {plan : Plan} {filledAmount : ℚ} {k : Bytes32}
    (sound : SoundPlan env signedOrder plan) (away : env.getOrderHash signedOrder ≠ .ok k) :
    unsaved env k (.saving signedOrder filledAmount plan.updatedOrders) =
      (snapshot k (.matched signedOrder plan)).map fun v => v + tradedOf k plan.fills := by
  have listed : (plan.updatedOrders.find? fun row => row.hash = k).map SignedOrderEntity.filledAmount =
      (plan.fills.find? fun fill => fill.1.metaData.orderHash = k).map
        fun fill => fill.1.metaData.filledAmount + fill.2 := by
    rw [Plan.updatedOrders, List.find?_map, Option.map_map]
    rfl
  rw [unsaved, if_neg away, listed, snapshot, Option.map_map]
  cases found : plan.fills.find? fun fill => fill.1.metaData.orderHash = k with
  | none => rfl
  | some fill =>
    have here : fill.1.metaData.orderHash = k := by simpa using List.find?_some found
    have traded := tradedOfOne sound.distinct (List.mem_of_find?_eq_some found)
    rw [here] at traded
    simp only [Option.map_some, Function.comp_apply, traded]

structure InStep (env : Environment) (s : Server ι) : Prop where
  rows : ∀ row ∈ s.book.table.rows, SoundRow env row
  requests : ∀ i, SoundRequest env (s.request i)
  cells : ∀ h, Consistent (cell env h s)

variable [DecidableEq ι]

theorem updateSame {β : Type} {f : ι → β} {i : ι} {v : β} (same : f i = v) :
    Function.update f i v = f := by
  rw [← same, Function.update_eq_self]

theorem cellBecome (s : Server ι) (i : ι) (request : Request) (book : Book) (h : Bytes32) :
    cell env h (s.become i request book) =
      ⟨book.filled h,(book.table.find h).map SignedOrderEntity.filledAmount,
        Function.update (cell env h s).read i (snapshot h request),
        Function.update (cell env h s).pending i (unsaved env h request),
        Function.update (cell env h s).opens i (unopened env h request)⟩ := by
  simp only [cell, becomeRequest, becomeBook, Cell.mk.injEq, true_and]
  exact ⟨Function.comp_update (snapshot h) s.request i request,
    Function.comp_update (unsaved env h) s.request i request,
    Function.comp_update (unopened env h) s.request i request⟩

section
variable {s : Server ι} {i : ι} {h : Bytes32} (request : Request)

theorem readSame (same : snapshot h (s.request i) = snapshot h request) :
    Function.update (cell env h s).read i (snapshot h request) = (cell env h s).read :=
  updateSame same

theorem pendingSame (same : unsaved env h (s.request i) = unsaved env h request) :
    Function.update (cell env h s).pending i (unsaved env h request) = (cell env h s).pending :=
  updateSame same

theorem opensSame (same : unopened env h (s.request i) = unopened env h request) :
    Function.update (cell env h s).opens i (unopened env h request) = (cell env h s).opens :=
  updateSame same

end

theorem cellKept {s : Server ι} {i : ι} {request : Request} {book : Book} {h : Bytes32}
    (filled : book.filled h = s.book.filled h) (stored : book.table.find h = s.book.table.find h)
    (read : snapshot h (s.request i) = snapshot h request)
    (pending : unsaved env h (s.request i) = unsaved env h request)
    (opens : unopened env h (s.request i) = unopened env h request) :
    cell env h (s.become i request book) = cell env h s := by
  rw [cellBecome, readSame _ read, pendingSame _ pending, opensSame _ opens, filled, stored]
  rfl

theorem requestsKept {s : Server ι} {i : ι} {request : Request} {book : Book}
    (before : ∀ j, SoundRequest env (s.request j)) (now : SoundRequest env request) (j : ι) :
    SoundRequest env ((s.become i request book).request j) := by
  rw [becomeRequest, Function.update_apply]
  split
  · exact now
  · exact before j

namespace InStep
variable {s : Server ι} {i : ι} {signedOrder : SignedOrder} {plan : Plan}

theorem fails (h : InStep env s) (nothing : ∀ k, unsaved env k (s.request i) = none) :
    InStep env (s.become i (.failed signedOrder) s.book) where
  rows := h.rows
  requests := requestsKept h.requests trivial
  cells k := by
    rw [cellBecome, pendingSame (.failed signedOrder) (nothing k)]
    exact ((h.cells k).drop i).move (.quit i)

theorem matchedCell (h : InStep env s) (posted : s.request i = .posted signedOrder)
    (made : ∀ fill ∈ plan.fills, ∃ row ∈ s.book.table.rows, fill.1 = deserializeOrderToSRAOrder row)
    (k : Bytes32) : Consistent (cell env k (s.become i (.matched signedOrder plan) s.book)) := by
  rw [cellBecome, pendingSame (.matched signedOrder plan) (by rw [posted]; rfl),
    opensSame (.matched signedOrder plan) (by rw [posted]; rfl)]
  cases found : snapshot k (.matched signedOrder plan) with
  | none => exact (h.cells k).drop i
  | some v =>
    obtain ⟨fill,listed,here,rfl⟩ := snapshotSome found
    obtain ⟨row,mem,same⟩ := made fill listed
    have stored : s.book.table.find k = some row := by
      refine KeyedTable.findSome.mpr ⟨mem,?_⟩
      rw [← here, same]
      rfl
    refine (h.cells k).move (.read i _ ?_)
    simp only [cell, stored, Option.map_some, same]
    rfl

theorem unmatchedCell (h : InStep env s) (posted : s.request i = .posted signedOrder) (k : Bytes32) :
    Consistent (cell env k (s.become i (.saving signedOrder 0 []) s.book)) := by
  rw [cellBecome, readSame (.saving signedOrder 0 []) (by rw [posted]; rfl)]
  have opens : (cell env k s).opens i = decide (env.getOrderHash signedOrder = .ok k) := by
    simp only [cell, posted, unopened]
  by_cases here : env.getOrderHash signedOrder = .ok k
  · have move := (h.cells k).move (.open i 0 (by rw [opens, decide_eq_true here]))
    rw [add_zero] at move
    simp only [unsaved, here, if_true, unopened]
    exact move
  · have pending : (cell env k s).pending i = none := by simp only [cell, posted, unsaved]
    simp only [unsaved, here, if_false, unopened, List.find?_nil, Option.map_none]
    rw [updateSame pending]
    exact (h.cells k).move (.quit i)

theorem reads (h : InStep env s) (posted : s.request i = .posted signedOrder) {now : ℚ}
    {rows : List SignedOrderEntity} (read : rows.Perm (findBy signedOrder s.book.table)) :
    InStep env (s.become i (matchOrder env now rows signedOrder) s.book) := by
  have regular : Regular signedOrder := by
    have sound := h.requests i
    rwa [posted] at sound
  unfold matchOrder
  split
  · exact h.fails fun k => by rw [posted]; rfl
  · rename_i plan ok
    have made := planned ok
    split
    · rename_i nothing
      have total := made.total
      rw [nothing, List.map_nil, List.sum_nil] at total
      rw [← total]
      refine ⟨h.rows,requestsKept h.requests ⟨regular,⟨0,Int.cast_zero.symm⟩,List.nodup_nil,List.forall_mem_nil _⟩,?_⟩
      exact h.unmatchedCell posted
    · rename_i some'
      have sound := plannedSound made read regular h.rows
      refine ⟨h.rows,requestsKept h.requests ⟨regular,sound,some'⟩,h.matchedCell posted fun fill mem => ?_⟩
      obtain ⟨row,listed,same,_⟩ := made.read mem
      exact ⟨row,(memFindBy.mp (read.subset listed)).1,same⟩

omit [DecidableEq ι] in
theorem apart (h : InStep env s) (matched : s.request i = .matched signedOrder plan) {k : Bytes32}
    (incoming : env.getOrderHash signedOrder = .ok k) :
    snapshot k (.matched signedOrder plan) = none := by
  cases found : snapshot k (.matched signedOrder plan) with
  | none => rfl
  | some v =>
    have opens : (cell env k s).opens i = true := by
      simp only [cell, matched, unopened, incoming, decide_true]
    have read : (cell env k s).read i = some v := by simp only [cell, matched, found]
    obtain ⟨w,stored,_⟩ := (h.cells k).read i v read
    rw [((h.cells k).opens i opens).2.1] at stored
    cases stored

theorem submittedCell (h : InStep env s) (matched : s.request i = .matched signedOrder plan)
    (sound : SoundPlan env signedOrder plan) (some' : plan.fills ≠ [])
    (fresh : ∀ fill ∈ plan.fills, fill.1.metaData.filledAmount = s.book.filled fill.1.metaData.orderHash)
    {filled : Filled} (commits : commit env plan s.book.filled = .ok filled) (k : Bytes32) :
    Consistent (cell env k (s.become i (.saving signedOrder (signedOrder.amount - plan.remainingAmount)
      plan.updatedOrders) ⟨s.book.table,filled⟩)) := by
  obtain ⟨incoming,hash⟩ := sound.made.hashed some'
  have total := sound.commits commits (hashedIncoming hash) k
  by_cases here : incoming = k
  · -- The posted order itself: it has no row yet, and nothing was filled of it before.
    subst here
    have nothing := h.apart matched hash
    have opens : (cell env incoming s).opens i = true := by
      simp only [cell, matched, unopened, hash, decide_true]
    rw [tradedOfNone (snapshotNone.mp nothing), add_zero, if_pos rfl] at total
    rw [cellBecome, readSame _ (by rw [matched]; exact nothing)]
    simp only [total, unsaved, hash, if_true, unopened]
    exact (h.cells incoming).move (.open i _ opens)
  · have away : env.getOrderHash signedOrder ≠ .ok k := by
      rw [hash]
      exact fun same => here (Except.ok.inj same)
    rw [if_neg here, add_zero] at total
    have opens : unopened env k (s.request i) = false := by
      simp only [matched, unopened, away, decide_false]
    have pending : unsaved env k (s.request i) = none := by simp only [matched, unsaved]
    cases found : snapshot k (.matched signedOrder plan) with
    | none =>
      rw [tradedOfNone (snapshotNone.mp found), add_zero] at total
      suffices kept : cell env k (s.become i (.saving signedOrder
          (signedOrder.amount - plan.remainingAmount) plan.updatedOrders) ⟨s.book.table,filled⟩) =
          cell env k s by
        rw [kept]
        exact h.cells k
      refine cellKept ?_ rfl ?_ ?_ opens
      · exact_mod_cast total
      · rw [matched]
        exact found
      · rw [pending, unsavedUpdated sound away, found]
        rfl
    | some v =>
      obtain ⟨fill,mem,same,value⟩ := snapshotSome found
      have current : v = s.book.filled k := by rw [← value, fresh fill mem, same]
      have traded : tradedOf k plan.fills = fill.2 := by rw [← same, tradedOfOne sound.distinct mem]
      have read : (cell env k s).read i = some (cell env k s).total := by
        simp only [cell, matched, found, current]
      rw [cellBecome, opensSame _ opens, unsavedUpdated sound away, found, total, traded, current]
      exact (h.cells k).move (.add i fill.2 read (sound.positive fill mem))

theorem submits (h : InStep env s) (matched : s.request i = .matched signedOrder plan)
    (fresh : ∀ fill ∈ plan.fills, fill.1.metaData.filledAmount = s.book.filled fill.1.metaData.orderHash)
    {filled : Filled} (commits : commit env plan s.book.filled = .ok filled) :
    InStep env (s.become i (.saving signedOrder (signedOrder.amount - plan.remainingAmount)
      plan.updatedOrders) ⟨s.book.table,filled⟩) := by
  obtain ⟨regular,sound,some'⟩ :
      Regular signedOrder ∧ SoundPlan env signedOrder plan ∧ plan.fills ≠ [] := by
    have known := h.requests i
    rwa [matched] at known
  refine ⟨h.rows,requestsKept h.requests ⟨regular,sound.wholeTotal,?_,fun row mem => ?_⟩,
    h.submittedCell matched sound some' fresh commits⟩
  · rw [updatedHashes]
    exact sound.distinct
  · refine ⟨sound.updatedSound mem,fun incoming => ?_⟩
    obtain ⟨fill,inside,rfl⟩ := List.mem_map.mp mem
    exact snapshotNone.mp (h.apart matched incoming) fill inside rfl

theorem savedCell (h : InStep env s) {filledAmount : ℚ} {rows : List SignedOrderEntity}
    {row : SignedOrderEntity} (saving : s.request i = .saving signedOrder filledAmount rows)
    (mem : row ∈ rows) (sound : SoundSaves env signedOrder filledAmount rows) (k : Bytes32) :
    Consistent (cell env k (s.become i (.saving signedOrder filledAmount (rows.erase row))
      ⟨s.book.table.save row,s.book.filled⟩)) := by
  let waiting : Table := ⟨rows,sound.distinct⟩
  by_cases here : row.hash = k
  · subst here
    have away := (sound.rows row mem).2
    have first : waiting.find row.hash = some row := KeyedTable.findSome.mpr ⟨mem,rfl⟩
    have pending : (cell env row.hash s).pending i = some row.filledAmount := by
      simp only [cell, saving, unsaved, away, if_false]
      exact congrArg (Option.map SignedOrderEntity.filledAmount) first
    have left : (rows.erase row).find? (fun other => other.hash = row.hash) = none := by
      refine List.find?_eq_none.mpr fun other inside same => ?_
      obtain rfl := waiting.unique (List.mem_of_mem_erase inside) mem (of_decide_eq_true same)
      exact (sound.distinct.of_map _).not_mem_erase inside
    rw [cellBecome, readSame _ (by rw [saving]; rfl), opensSame _ (by rw [saving]; rfl),
      KeyedTable.findSave, if_pos rfl]
    simp only [unsaved, away, if_false, left, Option.map_none]
    exact (h.cells row.hash).move (.store i _ pending)
  · suffices kept : cell env k (s.become i (.saving signedOrder filledAmount (rows.erase row))
        ⟨s.book.table.save row,s.book.filled⟩) = cell env k s by
      rw [kept]
      exact h.cells k
    refine cellKept rfl ?_ ?_ ?_ ?_
    · rw [KeyedTable.findSave, if_neg here]
    · rw [saving]
      rfl
    · rw [saving, unsaved, unsaved, findErase (by simpa using here)]
    · rw [saving]
      rfl

theorem saves (h : InStep env s) {filledAmount : ℚ} {rows : List SignedOrderEntity}
    {row : SignedOrderEntity} (saving : s.request i = .saving signedOrder filledAmount rows)
    (mem : row ∈ rows) : InStep env (s.become i (.saving signedOrder filledAmount (rows.erase row))
      ⟨s.book.table.save row,s.book.filled⟩) := by
  obtain ⟨regular,sound⟩ : Regular signedOrder ∧ SoundSaves env signedOrder filledAmount rows := by
    have known := h.requests i
    rwa [saving] at known
  refine ⟨fun other inside => ?_,requestsKept h.requests ⟨regular,sound.whole,?_,?_⟩,
    h.savedCell saving mem sound⟩
  · rcases KeyedTable.memSave.mp inside with rfl | ⟨old,_⟩
    · exact (sound.rows other mem).1
    · exact h.rows other old
  · exact sound.distinct.sublist (List.erase_sublist.map _)
  · exact fun other inside => sound.rows other (List.mem_of_mem_erase inside)

theorem adds (h : InStep env s) {filledAmount : ℚ} {createdAt : ℤ} {orderHash : Bytes32}
    (saving : s.request i = .saving signedOrder filledAmount [])
    (hash : env.getOrderHash signedOrder = .ok orderHash) :
    InStep env (s.become i (.answered signedOrder) ⟨s.book.table.save
      (serializeOrder ⟨signedOrder,⟨orderHash,filledAmount,.Null,createdAt⟩⟩),s.book.filled⟩) := by
  obtain ⟨regular,sound⟩ : Regular signedOrder ∧ SoundSaves env signedOrder filledAmount [] := by
    have known := h.requests i
    rwa [saving] at known
  refine ⟨fun other inside => ?_,requestsKept h.requests trivial,fun k => ?_⟩
  · rcases KeyedTable.memSave.mp inside with rfl | ⟨old,_⟩
    · obtain ⟨n,rfl⟩ := sound.whole
      exact soundAdded regular.signed hash n createdAt
    · exact h.rows other old
  · by_cases here : orderHash = k
    · subst here
      have pending : (cell env orderHash s).pending i = some filledAmount := by
        simp only [cell, saving, unsaved, hash, if_true]
      rw [cellBecome, readSame _ (by rw [saving]; rfl), opensSame _ (by rw [saving]; rfl),
        KeyedTable.findSave, if_pos (by rfl)]
      exact (h.cells orderHash).move (.store i _ pending)
    · suffices kept : cell env k (s.become i (.answered signedOrder) ⟨s.book.table.save
          (serializeOrder ⟨signedOrder,⟨orderHash,filledAmount,.Null,createdAt⟩⟩),s.book.filled⟩) =
          cell env k s by
        rw [kept]
        exact h.cells k
      refine cellKept rfl ?_ (by rw [saving]; rfl) ?_ (by rw [saving]; rfl)
      · rw [KeyedTable.findSave, if_neg]
        exact here
      · rw [saving, unsaved, hash, if_neg fun same => here (Except.ok.inj same)]
        rfl

end InStep

def Request.Fresh (filled : Filled) : Request → Prop
  | .matched _ plan => ∀ fill ∈ plan.fills,
      fill.1.metaData.filledAmount = filled fill.1.metaData.orderHash
  | _ => True

def CommitsFresh (s : Server ι) : Action ι → Prop
  | .submit i => (s.request i).Fresh s.book.filled
  | _ => True

instance (filled : Filled) : (request : Request) → Decidable (request.Fresh filled)
  | .matched _ plan => inferInstanceAs (Decidable (∀ fill ∈ plan.fills,
      fill.1.metaData.filledAmount = filled fill.1.metaData.orderHash))
  | .posted _ | .saving _ _ _ | .answered _ | .failed _ | .canceling _ _ | .canceled _
  | .cancelFailed _ => .isTrue trivial

instance (s : Server ι) : (action : Action ι) → Decidable (CommitsFresh s action)
  | .submit i => inferInstanceAs (Decidable ((s.request i).Fresh s.book.filled))
  | .read _ _ _ | .revert _ | .save _ _ | .finish _ _ | .find _ _ | .delete _ => .isTrue trivial

theorem stepInStep {s s' : Server ι} {action : Action ι} (h : InStep env s)
    (fresh : CommitsFresh s action) (ok : step env s action = some s') : InStep env s' := by
  cases stepped ok with
  | read posted read => exact h.reads posted read
  | submit matched commits =>
    simp only [CommitsFresh, matched, Request.Fresh] at fresh
    exact h.submits matched fresh commits
  | revert matched => exact h.fails fun k => by rw [matched]; rfl
  | save saving mem => exact h.saves saving mem
  | add saving hash => exact h.adds saving hash
  | unhashable saving hash =>
    refine h.fails fun k => ?_
    rw [saving, unsaved, hash, if_neg nofun]
    rfl
  | @find i orderHash unread ordersHash request canceling next =>
    have known := h.requests i
    rw [canceling] at known
    exact known.elim
  | @delete i ordersHash canceling =>
    have known := h.requests i
    rw [canceling] at known
    exact known.elim

theorem runInStep {s s' : Server ι} (h : InStep env s) (run : Run env CommitsFresh s s') :
    InStep env s' := by
  induction run with
  | none => exact h
  | more before action may next ih => exact stepInStep ih may next

/-- Nothing has been read yet. The posted orders are pairwise different and new to the book and
to the chain, and what is in the book agrees with the chain. -/
structure AllPosted (env : Environment) (s : Server ι) : Prop where
  posted : ∀ i, ∃ signedOrder, s.request i = .posted signedOrder
  different : ∀ i j orderI orderJ h, s.request i = .posted orderI → s.request j = .posted orderJ →
    env.getOrderHash orderI = .ok h → env.getOrderHash orderJ = .ok h → i = j
  new : ∀ i signedOrder h, s.request i = .posted signedOrder → env.getOrderHash signedOrder = .ok h →
    s.book.filled h = 0 ∧ s.book.table.find h = none
  rows : ∀ row ∈ s.book.table.rows, SoundRow env row ∧ row.filledAmount = s.book.filled row.hash

omit [DecidableEq ι] in
theorem AllPosted.inStep {s : Server ι} (h : AllPosted env s)
    (regular : ∀ i signedOrder, s.request i = .posted signedOrder → Regular signedOrder) :
    InStep env s := by
  have unread (k : Bytes32) (i : ι) : snapshot k (s.request i) = none := by
    obtain ⟨signedOrder,posted⟩ := h.posted i
    rw [posted]
    rfl
  have saved (k : Bytes32) (i : ι) : unsaved env k (s.request i) = none := by
    obtain ⟨signedOrder,posted⟩ := h.posted i
    rw [posted]
    rfl
  refine ⟨fun row mem => (h.rows row mem).1,fun i => ?_,fun k => ⟨?_,?_,?_,?_,?_⟩⟩
  · obtain ⟨signedOrder,posted⟩ := h.posted i
    rw [posted]
    exact regular i signedOrder posted
  · intro i v read
    cases (unread k i).symm.trans read
  · intro i v pending
    cases (saved k i).symm.trans pending
  · intro i j v w pending
    cases (saved k i).symm.trans pending
  · intro _ w stored
    obtain ⟨row,found,rfl⟩ := Option.map_eq_some_iff.mp stored
    obtain ⟨mem,rfl⟩ := KeyedTable.findSome.mp found
    exact (h.rows row mem).2
  · intro i opens
    obtain ⟨signedOrder,posted⟩ := h.posted i
    simp only [cell, posted, unopened, decide_eq_true_eq] at opens
    obtain ⟨zero,absent⟩ := h.new i signedOrder k posted opens
    refine ⟨by simp only [cell, zero, Nat.cast_zero],by simp only [cell, absent, Option.map_none],
      saved k,fun j other => ?_⟩
    obtain ⟨orderJ,postedJ⟩ := h.posted j
    simp only [cell, postedJ, unopened, decide_eq_true_eq] at other
    exact h.different j i orderJ signedOrder k postedJ posted other opens

omit [DecidableEq ι] in
theorem InStep.agrees {s : Server ι} (h : InStep env s) (finished : ∀ i, (s.request i).finished = true) :
    Agrees s.book := by
  intro row mem
  refine (h.cells row.hash).settled (fun i => ?_) _ ?_
  · have done := finished i
    simp only [cell]
    cases request : s.request i with
    | saving => rw [request] at done; cases done
    | posted | matched | answered | failed | canceling | canceled | cancelFailed => rfl
  · simp only [cell, KeyedTable.findSome.mpr ⟨mem,rfl⟩, Option.map_some]

/-- Concurrent matching of regular orders loses no fill as long as every commit is fresh. -/
theorem concurrentPostsAgree {start s : Server ι} (begins : AllPosted env start)
    (regular : ∀ i signedOrder, start.request i = .posted signedOrder → Regular signedOrder)
    (run : Run env CommitsFresh start s) (finished : ∀ i, (s.request i).finished = true) :
    Agrees s.book :=
  (runInStep (begins.inStep regular) run).agrees finished

def samplePosts : Server (Fin 3) where
  book := ⟨.empty,fun _ => 0⟩
  request := fun i => .posted (sampleSigned (i != 0) (if i = 0 then 10 else 1) (100 + i.val))

theorem samplePostsBegin : AllPosted .sample samplePosts := by
  have hash : ∀ i : Fin 3, Environment.sample.getOrderHash
      (sampleSigned (i != 0) (if i = 0 then 10 else 1) (100 + i.val)) =
        .ok (BitVec.ofNat 256 (100 + i.val)) := by decide +kernel
  refine ⟨fun i => ⟨_,rfl⟩,?_,fun _ _ _ _ _ => ⟨rfl,rfl⟩,List.forall_mem_nil _⟩
  rintro i j orderI orderJ h ⟨⟩ ⟨⟩ hashI hashJ
  have same := Except.ok.inj ((hash i).symm.trans (hashI.trans (hashJ.symm.trans (hash j))))
  have apart : ∀ i j : Fin 3, BitVec.ofNat 256 (100 + i.val) = BitVec.ofNat 256 (100 + j.val) → i = j := by
    decide +kernel
  exact apart i j same

def Server.observed (s : Server (Fin 3)) : (Option ℚ × Nat) × Bool :=
  (s.book.observed 100,decide (∀ i, (s.request i).finished = true))

theorem Server.observedFinished {s : Server (Fin 3)} {book : Option ℚ × Nat}
    (seen : s.observed = (book,true)) : ∀ i, (s.request i).finished = true :=
  of_decide_eq_true (congrArg Prod.snd seen)

theorem samplePostsAgree : ∃ s : Server (Fin 3), s.observed = ((some 2,2),true) ∧ Agrees s.book := by
  have run : (runActions .sample CommitsFresh samplePosts
      [.read 0 0 [],.finish 0 0,.read 1 0 [sampleMaker 0],.submit 1,.save 1 (sampleMaker 1),
        .read 2 0 [sampleMaker 1],.submit 2,.finish 1 0,.save 2 (sampleMaker 2),.finish 2 0]).map
          Server.observed = some ((some 2,2),true) := by decide +kernel
  obtain ⟨s,ok,seen⟩ := Option.map_eq_some_iff.mp run
  refine ⟨s,seen,concurrentPostsAgree samplePostsBegin ?_ (.ofActions ok) (Server.observedFinished seen)⟩
  rintro i signedOrder ⟨⟩
  refine ⟨⟨if i = 0 then 10 else 1,by simp [sampleSigned]⟩,fun negative => ?_⟩
  exact absurd (congrArg BaseValue.isNegative negative) Bool.false_ne_true

theorem concurrentFillLost : ¬ ∀ (env : Environment) (start s : Server (Fin 3)), AllPosted env start →
    Run env anyStep start s → (∀ i, (s.request i).finished = true) → Agrees s.book := by
  intro agree
  have run : (runActions .sample anyStep samplePosts
      [.read 0 0 [],.finish 0 0,.read 1 0 [sampleMaker 0],.read 2 0 [sampleMaker 0],.submit 1,.submit 2,
        .save 1 (sampleMaker 1),.save 2 (sampleMaker 1),.finish 1 0,.finish 2 0]).map
          Server.observed = some ((some 1,2),true) := by decide +kernel
  obtain ⟨s,ok,seen⟩ := Option.map_eq_some_iff.mp run
  have agrees := agree .sample samplePosts s samplePostsBegin (.ofActions ok) (Server.observedFinished seen)
  have equal := agrees.observed (congrArg Prod.fst seen)
  norm_num at equal

end OrderBook
end Perpetual
