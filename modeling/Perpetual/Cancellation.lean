import Perpetual.ServerOnChain

/-! `POST /cancelOrder` beside `POST /order`: when a completed cancel stays completed. -/
namespace Perpetual
namespace OrderBook
variable {ι ρ : Type} {env : Environment} {chain : Deployment env ρ} {h : Bytes32}

/-- A match in flight that can still save the row of an order: its transaction has been executed,
or PerpetualV1 and P1Orders take it now or later. -/
def HoldsCopy (chain : Deployment env ρ) (h : Bytes32) (block : Block ρ) : Request → Prop
  | .matched _ plan => (∃ row ∈ plan.updatedOrders, row.hash = h) ∧ chain.CanStillTake plan.trades block
  | .saving _ _ rows => ∃ row ∈ rows, row.hash = h
  | _ => False

theorem HoldsCopy.before {b b' : Block ρ} (moves : Relation.ReflTransGen chain.Next b b')
    {request : Request} (holds : HoldsCopy chain h b' request) : HoldsCopy chain h b request := by
  cases request with
  | matched signedOrder plan => exact ⟨holds.1,holds.2.before moves⟩
  | saving signedOrder filledAmount rows => exact holds
  | posted | answered | failed | canceling | canceled | cancelFailed => exact holds.elim

def NotPosted (env : Environment) (h : Bytes32) (request : ι → Request) : Prop :=
  ∀ i, ∀ signedOrder ∈ (request i).inFlight, env.getOrderHash signedOrder ≠ .ok h

structure Clear (chain : Deployment env ρ) (h : Bytes32) (l : ChainServer ι ρ) : Prop where
  absent : ∀ row ∈ l.table.rows, row.hash ≠ h
  notPosted : NotPosted env h l.request
  copies : ∀ i, ¬ HoldsCopy chain h l.block (l.request i)

variable [DecidableEq ι]

theorem clearBecome {l : ChainServer ι ρ} (clear : Clear chain h l) {i : ι} {request : Request} {table : Table}
    {block : Block ρ} (absent : ∀ row ∈ table.rows, row.hash ≠ h)
    (moves : Relation.ReflTransGen chain.Next l.block block)
    (order : request.inFlight = none ∨ request.inFlight = (l.request i).inFlight)
    (copies : ¬ HoldsCopy chain h block request) : Clear chain h (l.become i request table block) where
  absent := absent
  notPosted j signedOrder := by
    rw [ChainServer.becomeRequest, Function.update_apply]
    split
    · rcases order with ended | same
      · rw [ended]
        exact fun now => absurd now (Option.not_mem_none signedOrder)
      · rw [same]
        exact clear.notPosted i signedOrder
    · exact clear.notPosted j signedOrder
  copies j := by
    rw [ChainServer.becomeRequest, Function.update_apply]
    split
    · exact copies
    · exact fun holds => clear.copies j (holds.before moves)

theorem clearMatched {l : ChainServer ι ρ} (clear : Clear chain h l) {i : ι} {now : ℚ}
    {rows : List SignedOrderEntity} {signedOrder : SignedOrder}
    (posted : l.request i = .posted signedOrder) (read : rows.Perm (findBy signedOrder l.table)) :
    Clear chain h (l.become i (matchOrder env now rows signedOrder) l.table l.block) := by
  refine clearBecome clear clear.absent .refl ?_ ?_ <;> unfold matchOrder
  · rw [posted]
    cases fulfillOrder env now rows signedOrder with
    | error reason => exact .inl rfl
    | ok plan => simp only; split <;> exact .inr rfl
  · cases plans : fulfillOrder env now rows signedOrder with
    | error reason => exact id
    | ok plan =>
      simp only
      split
      · rintro ⟨row,mem,_⟩
        cases mem
      · rintro ⟨⟨row,mem,here⟩,_⟩
        obtain ⟨fill,inside,rfl⟩ := List.mem_map.mp mem
        obtain ⟨old,listed,same,_⟩ := (planned plans).read inside
        refine clear.absent old (memFindBy.mp (read.subset listed)).1 ?_
        rw [← here]
        exact (congrArg (fun o => o.metaData.orderHash) same).symm

theorem requestClear {l : ChainServer ι ρ} {s' : Server ι} {action : Action ι} (clear : Clear chain h l)
    (own : action.own = true) (ok : step env l.server action = some s') :
    Clear chain h (s'.onBlock l.block) := by
  cases stepped ok with
  | read posted read => exact clearMatched clear posted read
  | submit => cases own
  | revert matched => exact clearBecome clear clear.absent .refl (.inl rfl) id
  | @save i signedOrder filledAmount rows row saving mem =>
    have saving' : l.request i = .saving signedOrder filledAmount rows := saving
    have copies := clear.copies i
    rw [saving'] at copies
    refine clearBecome clear (fun other inside => ?_) .refl (.inr (by rw [saving']; rfl)) ?_
    · rcases KeyedTable.memSave.mp inside with rfl | ⟨old,_⟩
      · exact fun here => copies ⟨other,mem,here⟩
      · exact clear.absent other old
    · rintro ⟨other,inside,here⟩
      exact copies ⟨other,List.mem_of_mem_erase inside,here⟩
  | @add i createdAt signedOrder filledAmount orderHash saving hash =>
    have saving' : l.request i = .saving signedOrder filledAmount [] := saving
    refine clearBecome clear (fun other inside => ?_) .refl (.inl rfl) id
    rcases KeyedTable.memSave.mp inside with rfl | ⟨old,_⟩
    · intro here
      refine clear.notPosted i signedOrder (by rw [saving']; rfl) ?_
      rw [hash]
      exact congrArg Except.ok here
    · exact clear.absent other old
  | unhashable saving hash => exact clearBecome clear clear.absent .refl (.inl rfl) id
  | find canceling next =>
    rcases next with rfl | rfl <;> exact clearBecome clear clear.absent .refl (.inl rfl) id
  | delete canceling =>
    exact clearBecome clear (fun row mem => clear.absent row (KeyedTable.memDelete.mp mem).1) .refl
      (.inl rfl) id

theorem stepClear {l l' : ChainServer ι ρ} (clear : Clear chain h l) (next : ChainStep chain l l') :
    Clear chain h l' := by
  cases next with
  | request action own ok => exact requestClear clear own ok
  | @submit i signedOrder plan block matched takes =>
    refine clearBecome clear clear.absent (.single (.operator _ takes)) (.inr (by rw [matched]; rfl)) ?_
    intro copy
    refine clear.copies i ?_
    rw [matched]
    exact ⟨copy,l.block,block,.refl,takes⟩
  | chain next =>
    exact ⟨clear.absent,clear.notPosted,fun i holds => clear.copies i (holds.before (.single next))⟩

theorem runClear {l l' : ChainServer ι ρ} (clear : Clear chain h l) (run : ChainRun chain l l') :
    Clear chain h l' := by
  induction run with
  | refl => exact clear
  | tail _ next ih => exact stepClear ih next

theorem copySavedNow {l : ChainServer ι ρ} {i : ι} {signedOrder : SignedOrder} {filledAmount : ℚ}
    {rows : List SignedOrderEntity} (saving : l.request i = .saving signedOrder filledAmount rows)
    (copy : ∃ row ∈ rows, row.hash = h) :
    ∃ l', ChainRun chain l l' ∧ ∃ row ∈ l'.table.rows, row.hash = h := by
  obtain ⟨row,mem,here⟩ := copy
  have saving' : l.server.request i = .saving signedOrder filledAmount rows := saving
  have ok : step env l.server (.save i row) = some (l.server.become i
      (.saving signedOrder filledAmount (rows.erase row)) ⟨l.table.save row,l.server.book.filled⟩) := by
    simp only [step, saving', mem, if_true]
    rfl
  exact ⟨_,.single (.request _ rfl ok),row,KeyedTable.memSave.mpr (.inl rfl),here⟩

theorem copySaved {l : ChainServer ι ρ} {i : ι} (holds : HoldsCopy chain h l.block (l.request i)) :
    ∃ l', ChainRun chain l l' ∧ ∃ row ∈ l'.table.rows, row.hash = h := by
  cases request : l.request i with
  | matched signedOrder plan =>
    rw [request] at holds
    obtain ⟨copy,later,taken,moves,takes⟩ := holds
    have waited : ChainRun chain l ⟨l.table,l.request,later⟩ := .ofChain moves
    have submits := ChainStep.submit (l := ⟨l.table,l.request,later⟩) request takes
    have saving : ((ChainServer.mk l.table l.request later).become i (.saving signedOrder
        (signedOrder.amount - plan.remainingAmount) plan.updatedOrders) l.table taken).request i =
      .saving signedOrder (signedOrder.amount - plan.remainingAmount) plan.updatedOrders :=
        Function.update_self _ _ _
    obtain ⟨l',last,back⟩ := copySavedNow saving copy
    exact ⟨l',(waited.tail submits).trans last,back⟩
  | saving signedOrder filledAmount rows =>
    rw [request] at holds
    exact copySavedNow request holds
  | posted | answered | failed | canceling | canceled | cancelFailed =>
    rw [request] at holds
    exact holds.elim

/-- A completed cancel stays completed in every run from there on exactly when no match in flight
can still save a copy of the row. -/
theorem canceledStaysCanceled (chain : Deployment env ρ) {before : ChainServer ι ρ} {after : Server ι} {i : ι}
    {ordersHash : List Bytes32} (canceling : before.request i = .canceling [] ordersHash) (listed : h ∈ ordersHash)
    (deletes : step env before.server (.delete i) = some after) (notPosted : NotPosted env h after.request) :
    (∀ l, ChainRun chain (after.onBlock before.block) l → ∀ row ∈ l.table.rows, row.hash ≠ h) ↔
      ∀ j, ¬ HoldsCopy chain h before.block (before.request j) := by
  have done : after.onBlock before.block = before.become i (.canceled ordersHash)
      (before.table.delete ordersHash) before.block := by
    have canceling' : before.server.request i = .canceling [] ordersHash := canceling
    simp only [step, canceling'] at deletes
    rw [← Option.some.inj deletes]
    rfl
  have copies (j : ι) : HoldsCopy chain h before.block ((after.onBlock before.block).request j) ↔
      HoldsCopy chain h before.block (before.request j) := by
    rw [done, ChainServer.becomeRequest, Function.update_apply]
    split
    · rename_i same
      rw [same, canceling]
      rfl
    · rfl
  constructor
  · intro gone j holds
    obtain ⟨l,run,row,mem,here⟩ := copySaved (l := after.onBlock before.block) ((copies j).mpr holds)
    exact gone l run row mem here
  · intro none' l run
    have absent : ∀ row ∈ (after.onBlock before.block).table.rows, row.hash ≠ h := by
      rw [done]
      intro row mem here
      exact (KeyedTable.memDelete.mp mem).2 (here ▸ listed)
    exact (runClear ⟨absent,notPosted,fun j holds => none' j ((copies j).mp holds)⟩ run).absent

def sampleChain : Deployment neutralSample Unit where
  this := 7
  contracts := ordersSample
  environment := sampleEnvironment
  others := fun _ _ => False
  later := False.elim
  calls := False.elim

def sampleRequests : ChainServer (Fin 3) Unit where
  table := .empty
  request
    | 0 => .posted (sampleSigned false 10 100)
    | 1 => .posted (sampleSigned true 1 101)
    | 2 => .canceling [100] [100]
  block := ⟨40,sampleApproved⟩

def sampleCanceling : ChainServer (Fin 3) Unit where
  table := KeyedTable.empty.save (sampleMaker 0)
  request
    | 0 => .answered (sampleSigned false 10 100)
    | 1 => .posted (sampleSigned true 1 101)
    | 2 => .canceling [] [100]
  block := ⟨40,sampleApproved⟩

theorem sampleStaysCanceled :
    ∃ after, step neutralSample sampleCanceling.server (.delete 2) = some after ∧
      ∀ l, ChainRun sampleChain (after.onBlock ⟨40,sampleApproved⟩) l →
        ∀ row ∈ l.table.rows, row.hash ≠ 100 := by
  have deletes : step neutralSample sampleCanceling.server (.delete 2) = some (sampleCanceling.server.become 2
      (.canceled [100]) ⟨sampleCanceling.table.delete [100],sampleCanceling.server.book.filled⟩) := rfl
  refine ⟨_,deletes,(canceledStaysCanceled sampleChain rfl (List.mem_singleton.mpr rfl) deletes ?_).mpr ?_⟩
  · unfold NotPosted
    decide +kernel
  · intro j
    match j with
    | 0 | 1 | 2 => exact id

structure Arrived (l : ChainServer ι ρ) : Prop where
  table : l.table = .empty
  unfilled : ∀ h, TradeOperation.filledOf l.block.world.ext h = 0
  requests : ∀ i, (∃ signedOrder, l.request i = .posted signedOrder) ∨
    ∃ ordersHash, l.request i = .canceling ordersHash ordersHash

theorem canceledComesBack : ¬ ∀ (env : Environment) (chain : Deployment env Unit)
    (start before l : ChainServer (Fin 3) Unit) (after : Server (Fin 3)) (i : Fin 3)
    (ordersHash : List Bytes32) (h : Bytes32), Arrived start → ChainRun chain start before →
    before.request i = .canceling [] ordersHash → h ∈ ordersHash →
    step env before.server (.delete i) = some after → NotPosted env h after.request →
    ChainRun chain (after.onBlock before.block) l → ∀ row ∈ l.table.rows, row.hash ≠ h := by
  intro gone
  have arrived : Arrived sampleRequests := by
    refine ⟨rfl,fun h => rfl,fun i => ?_⟩
    match i with
    | 0 | 1 => exact .inl ⟨_,rfl⟩
    | 2 => exact .inr ⟨_,rfl⟩
  have run : (do
      let before ← runActions neutralSample ownStep sampleRequests.server
        [.read 0 0 [],.finish 0 0,.read 1 0 [sampleMaker 0],.find 2 100]
      let after ← step neutralSample before (.delete 2)
      let (signedOrder,plan) ← (after.request 1).toSend
      let world ← (TradeOperation.commit (ordersSample 50) ⟨2,50⟩ plan.trades sampleApproved).toOption
      let sent := (after.onBlock ⟨40,sampleApproved⟩).become 1 (.saving signedOrder
        (signedOrder.amount - plan.remainingAmount) plan.updatedOrders) after.book.table ⟨50,world⟩
      let s ← runActions neutralSample ownStep sent.server [.save 1 (sampleMaker 1)]
      return (decide (before.request 2 = .canceling [] [100]),
        decide (∀ i, ∀ signedOrder ∈ (after.request i).inFlight,
          neutralSample.getOrderHash signedOrder ≠ .ok 100),
        s.book.table.find 100)) = some (true,true,some (sampleMaker 1)) := by decide +kernel
  simp only [bind, Option.bind_eq_some_iff, pure, Option.some.injEq, Prod.mk.injEq, Prod.exists,
    decide_eq_true_eq] at run
  obtain ⟨before,first,after,deletes,signedOrder,plan,matched,world,accepted,s,last,canceling,notPosted,
    found⟩ := run
  obtain ⟨mem,here⟩ := KeyedTable.findSome.mp found
  have taken : sampleChain.Takes plan.trades ⟨40,sampleApproved⟩ ⟨50,world⟩ := by
    refine ⟨show (40 : Uint256) ≤ 50 by decide,?_⟩
    cases ended : TradeOperation.commit (ordersSample 50) ⟨2,50⟩ plan.trades sampleApproved with
    | error reason => rw [ended] at accepted; cases accepted
    | ok w =>
      rw [ended] at accepted
      exact ended.trans (congrArg Except.ok (Option.some.inj accepted))
  obtain ⟨reached,server⟩ := ChainRun.ofOwn sampleChain (l := sampleRequests) (.ofActions first)
  have later := (ChainRun.ofOwn sampleChain (.ofActions last)).1
  refine gone neutralSample sampleChain sampleRequests (before.onBlock ⟨40,sampleApproved⟩) _ after 2 [100] 100
    arrived reached canceling (List.mem_singleton.mpr rfl) ?_ notPosted
    (.head (.submit (matchedToSend matched) taken) later) _ mem here
  rw [show (before.onBlock ⟨40,sampleApproved⟩).server = before from server]
  exact deletes

end OrderBook
end Perpetual
