import Perpetual.DeleveragingRuns
import Perpetual.EventLog
import Perpetual.MirrorSigners
import Perpetual.OrderRuns

/-! What the logs of the contracts beside PerpetualV1 tell of their state. -/
namespace Perpetual

/-! The logs of an orders contract tell the state of each order in whatever order they are read. -/

def OrderLog.amountFor (h : Bytes32) : OrderLog → Nat
  | .orderFilled orderHash _ _ fill => if orderHash = h then fill.amount.toNat else 0
  | _ => 0

namespace Orders

def loggedFills (h : Bytes32) (logs : List OrderLog) : Nat := (logs.map (OrderLog.amountFor h)).sum

def CanceledIn (h : Bytes32) (logs : List OrderLog) : Prop := ∃ maker, .orderCanceled maker h ∈ logs

def ApprovedIn (h : Bytes32) (logs : List OrderLog) : Prop := ∃ maker, .orderApproved maker h ∈ logs

structure Told (s : OrdersContract) : Prop where
  filled : ∀ h, (s.filledAmount h).toNat = loggedFills h s.logs
  canceled : ∀ h, s.status h = .Canceled ↔ CanceledIn h s.logs
  approved : ∀ h, s.status h = .Approved ↔ ApprovedIn h s.logs ∧ ¬CanceledIn h s.logs

section
variable {code : Code} {crypto : Crypto} {s s' : OrdersContract}

theorem loggedFillsAppend (h : Bytes32) (logs new : List OrderLog) :
    loggedFills h (logs ++ new) = loggedFills h logs + loggedFills h new := by
  rw [loggedFills, List.map_append, List.sum_append]
  rfl

theorem canceledInAppend {h : Bytes32} {logs : List OrderLog} {log : OrderLog} :
    CanceledIn h (logs ++ [log]) ↔ CanceledIn h logs ∨ ∃ maker, log = .orderCanceled maker h := by
  simp only [CanceledIn, List.mem_append, List.mem_singleton, exists_or, eq_comm (b := log)]

theorem approvedInAppend {h : Bytes32} {logs : List OrderLog} {log : OrderLog} :
    ApprovedIn h (logs ++ [log]) ↔ ApprovedIn h logs ∨ ∃ maker, log = .orderApproved maker h := by
  simp only [ApprovedIn, List.mem_append, List.mem_singleton, exists_or, eq_comm (b := log)]

theorem Told.approve {msg : Msg} {order : Order} (h : Told s) (ok : approveOrder crypto msg order s = .ok s') :
    Told s' := by
  simp only [approveOrder, Checked.bindOk, Checked.requireOk, exists_const, Checked.pureOk] at ok
  obtain ⟨_,still,rfl⟩ := ok
  generalize getOrderHash crypto s.eip712DomainHash order = here at still
  refine ⟨fun other => ?_,fun other => ?_,fun other => ?_⟩
  · rw [loggedFillsAppend]
    exact h.filled other
  · simp only [canceledInAppend, reduceCtorEq, exists_const, or_false, Function.update_apply]
    split
    · rename_i same
      rw [same, ← h.canceled]
      exact iff_of_false (by decide) still
    · exact h.canceled other
  · simp only [canceledInAppend, approvedInAppend, reduceCtorEq, exists_const, or_false, Function.update_apply,
      OrderLog.orderApproved.injEq, exists_and_right, exists_eq', true_and]
    split
    · rename_i same
      rw [same, ← h.canceled]
      exact iff_of_true rfl ⟨.inr rfl,still⟩
    · rename_i away
      rw [h.approved, or_iff_left (Ne.symm away)]

theorem Told.cancel {msg : Msg} {order : Order} (h : Told s) (ok : cancelOrder crypto msg order s = .ok s') :
    Told s' := by
  simp only [cancelOrder, Checked.bindOk, Checked.requireOk, exists_const, Checked.pureOk] at ok
  obtain ⟨_,rfl⟩ := ok
  generalize getOrderHash crypto s.eip712DomainHash order = here
  refine ⟨fun other => ?_,fun other => ?_,fun other => ?_⟩
  · rw [loggedFillsAppend]
    exact h.filled other
  · simp only [canceledInAppend, Function.update_apply, OrderLog.orderCanceled.injEq, exists_and_right, exists_eq',
      true_and]
    split
    · rename_i same
      exact iff_of_true rfl (.inr same.symm)
    · rename_i away
      rw [h.canceled, or_iff_left (Ne.symm away)]
  · simp only [canceledInAppend, approvedInAppend, reduceCtorEq, exists_const, or_false, Function.update_apply,
      OrderLog.orderCanceled.injEq, exists_and_right, exists_eq', true_and]
    split
    · rename_i same
      exact iff_of_false (by decide) fun told => told.2 (.inr same.symm)
    · rename_i away
      rw [h.approved, or_iff_left (Ne.symm away)]

theorem Told.fill {msg : Msg} {perpetual : Storage} {call : TraderCall} {result : TradeResult} (h : Told s)
    (ok : code.trade crypto msg perpetual call s = .ok (result,s')) : Told s' := by
  simp only [Code.trade, trade, Checked.bindOk, Checked.requireOk, exists_const, Checked.pureOk,
    Prod.mk.injEq, SafeMath.addOk] at ok
  obtain ⟨_,_,tradeData,_,_,_,_,_,filled,sum,_,_,_,_,rfl⟩ := ok
  generalize getOrderHash crypto s.eip712DomainHash tradeData.order = here at sum
  refine ⟨fun other => ?_,fun other => ?_,fun other => ?_⟩
  · have last : loggedFills other [.orderFilled here tradeData.order.flags tradeData.order.triggerPrice
        tradeData.fill] = if here = other then tradeData.fill.amount.toNat else 0 := Nat.add_zero _
    rw [loggedFillsAppend, last, ← h.filled]
    by_cases same : here = other
    · rw [if_pos same, ← same, ← sum]
      exact congrArg BitVec.toNat (Function.update_self ..)
    · rw [if_neg same, Nat.add_zero]
      exact congrArg BitVec.toNat (Function.update_of_ne (Ne.symm same) ..)
  · simp only [canceledInAppend, reduceCtorEq, exists_const, or_false]
    exact h.canceled other
  · simp only [canceledInAppend, approvedInAppend, reduceCtorEq, exists_const, or_false]
    exact h.approved other

theorem stepsTold {calls : List OrderCall} (steps : Steps code crypto s calls s') (h : Told s) : Told s' := by
  induction steps with
  | none => exact h
  | more _ next ih =>
    cases next with
    | approve msg order ok => exact ih.approve ok
    | cancel msg order ok => exact ih.cancel ok
    | fill msg perpetual call tradeData result decoded ok => exact ih.fill ok

theorem deployedTold (crypto : Crypto) (name : String) (perpetualV1 : Address) (chainId : Uint256) (this : Address) :
    Told (constructor crypto name perpetualV1 chainId this) where
  filled _ := rfl
  canceled _ := iff_of_false (fun same => by cases same) fun told => by
    obtain ⟨_,mem⟩ := told
    cases mem
  approved _ := iff_of_false (fun same => by cases same) fun told => by
    obtain ⟨⟨_,mem⟩,_⟩ := told
    cases mem

end
end Orders

/-- An indexer that has all logs of P1Orders needs neither their order nor anything else. -/
theorem ordersToldByLogs {ρ : Type} {crypto : Crypto} {this ordersAddress : Address} {chainId : Uint256}
    {w₀ w : World (OrdersHost ρ)}
    (deployed : w₀.ext.contract = Orders.constructor crypto P1Orders.EIP712_DOMAIN_NAME this chainId ordersAddress)
    (run : OrdersRun crypto this ordersAddress w₀ w) (h : Bytes32) :
    let s := w.ext.contract
    (s.filledAmount h).toNat = Orders.loggedFills h s.logs ∧
    (s.status h = .Canceled ↔ Orders.CanceledIn h s.logs) ∧
    (s.status h = .Approved ↔ Orders.ApprovedIn h s.logs ∧ ¬Orders.CanceledIn h s.logs) := by
  obtain ⟨calls,steps,_⟩ := runHistory run
  have told := Orders.stepsTold steps (deployed ▸ Orders.deployedTold ..)
  exact ⟨told.filled h,told.canceled h,told.approved h⟩

def sampleHash : Bytes32 := Orders.getOrderHash Crypto.sample sampleDeployment.ext.contract.eip712DomainHash sampleOrder

theorem sampleToldByLogs : sampleCanceled.ext.contract.logs.length = 3 ∧
    (sampleCanceled.ext.contract.filledAmount sampleHash).toNat =
      Orders.loggedFills sampleHash sampleCanceled.ext.contract.logs := by
  have first : OrdersRun Crypto.sample 7 9 sampleDeployment sampleFilled :=
    .call (.approve .none ⟨1,90⟩ sampleOrder) (ordersSample 100) ⟨2,100⟩ sampleFill (sampleEnvironment ⟨2,100⟩)
  have run : OrdersRun Crypto.sample 7 9 sampleDeployment sampleCanceled :=
    .call (.cancel first ⟨1,110⟩ sampleOrder) (ordersSample 120) ⟨2,120⟩ sampleFill (sampleEnvironment ⟨2,120⟩)
  have deployed : sampleDeployment.ext.contract =
      Orders.constructor Crypto.sample P1Orders.EIP712_DOMAIN_NAME 7 1 9 := rfl
  exact ⟨by decide +kernel,(ordersToldByLogs deployed run sampleHash).1⟩

/-! P1MirrorOracle. Only its owner is not told by its logs. -/

namespace P1MirrorOracle

structure Mirrored where
  val : Uint128
  age : Uint32
  bar : Uint256
  orcl : Address → Uint256
  readers : Address → Uint256
  slot : BitVec 8 → Address

def mirrored (c : MirrorOracleContract) : Mirrored := ⟨c.val,c.age,c.bar,c.orcl,c.readers,c.slot⟩

def Mirrored.apply (v : Mirrored) : MirrorOracleLog → Mirrored
  | .medianPrice val age => { v with val := val.setWidth 128, age := age.setWidth 32 }
  | .setSigner signer authorized => { v with
      orcl := Function.update v.orcl signer (if authorized then 1 else 0)
      slot := Function.update v.slot (getSignerId signer) (if authorized then signer else 0) }
  | .setBar bar => { v with bar := bar }
  | .setReader reader authorized =>
      { v with readers := Function.update v.readers reader (if authorized then 1 else 0) }

def mirrorLog : EventLog MirrorOracleContract MirrorOracleLog Mirrored where
  log := MirrorOracleContract.logs
  view := mirrored
  apply := Mirrored.apply

section
variable {crypto : Crypto} {wat : Bytes32} {c c' : MirrorOracleContract}

theorem widenNarrow {n : Nat} (a : BitVec n) (small : n ≤ 256) : (widen a : Uint256).setWidth n = a := by
  rw [widen, BitVec.setWidth_setWidth_of_le a small, BitVec.setWidth_eq]

theorem readersExplained (authorized : Bool) (readers : List Address) (c : MirrorOracleContract) :
    mirrorLog.Explained c (readers.foldl (setReader authorized) c) := by
  induction readers generalizing c with
  | nil => exact .refl c
  | cons reader rest ih =>
    have first : mirrorLog.Explained c (setReader authorized c reader) := .emitted rfl rfl
    exact first.trans (ih _)

theorem executeExplained {tx : Transaction} (ok : execute crypto wat tx c = .ok c') : mirrorLog.Explained c c' := by
  unfold execute at ok
  cases called : tx.call with
  | poke args =>
    rw [called] at ok
    simp only [poke, Checked.bindOk, Checked.requireOk, exists_const, Checked.pureOk] at ok
    obtain ⟨_,_,_,median,_,rfl⟩ := ok
    refine .emitted rfl ?_
    simp only [mirrorLog, Mirrored.apply, widenNarrow _ (by decide : 128 ≤ 256), widenNarrow _ (by decide : 32 ≤ 256)]
    rfl
  | lift signers =>
    rw [called] at ok
    refine Checked.loopKeeps (P := fun s => mirrorLog.Explained c s) (fun s signer s' _ before one => ?_) ok (.refl c)
    simp only [liftOne, Checked.bindOk, Checked.requireOk, exists_const, Checked.pureOk] at one
    obtain ⟨_,_,_,_,rfl⟩ := one
    exact before.trans (.emitted rfl rfl)
  | drop signers =>
    rw [called] at ok
    refine Checked.loopKeeps (P := fun s => mirrorLog.Explained c s) (fun s signer s' _ before one => ?_) ok (.refl c)
    simp only [dropOne, Checked.bindOk, Checked.requireOk, exists_const, Checked.pureOk] at one
    obtain ⟨_,_,_,_,rfl⟩ := one
    exact before.trans (.emitted rfl rfl)
  | setBar =>
    rw [called] at ok
    obtain ⟨_,_,last⟩ := Checked.bindOk.mp ok
    cases Checked.pureOk.mp last
    exact .emitted rfl rfl
  | setReaders msg authorized readers =>
    rw [called] at ok
    simp only [setReaders, Checked.bindOk, Checked.requireOk, exists_const, Checked.pureOk] at ok
    obtain ⟨_,rfl⟩ := ok
    exact readersExplained authorized readers c
  | owner newOwner =>
    rw [called] at ok
    cases ok
    exact .quiet rfl rfl

theorem performExplained (c : MirrorOracleContract) (tx : Transaction) :
    mirrorLog.Explained c (perform crypto wat c tx) := by
  unfold perform
  split
  · exact executeExplained (by assumption)
  · exact .refl c

end

theorem mirrorToldByLogs (crypto : Crypto) (wat : Bytes32) (txs : List Transaction) (c : MirrorOracleContract) :
    ∃ new, (run crypto wat txs c).logs = c.logs ++ new ∧
      mirrored (run crypto wat txs c) = new.foldl Mirrored.apply (mirrored c) := by
  suffices mirrorLog.Explained c (run crypto wat txs c) by
    obtain ⟨new,logged,viewed⟩ := this
    exact ⟨new,logged,viewed⟩
  induction txs generalizing c with
  | nil => exact .refl c
  | cons tx rest ih => exact (performExplained c tx).trans (ih _)

end P1MirrorOracle

/-! P1Deleveraging. Its logs tell who is marked, and not since when. -/

namespace P1Deleveraging

structure Marks where
  isMarked : Address → Bool
  deleveragingOperator : Address

def marks (s : DeleveragingContract) : Marks := ⟨isMarked s,s.deleveragingOperator⟩

def Marks.apply (v : Marks) : DeleveragingLog → Marks
  | .markedForDeleveraging account => { v with isMarked := Function.update v.isMarked account true }
  | .unmarkedForDeleveraging account => { v with isMarked := Function.update v.isMarked account false }
  | .deleveragingOperatorSet operator => { v with deleveragingOperator := operator }
  | .deleveraged _ _ _ _ _ => v

def marksLog : EventLog DeleveragingContract DeleveragingLog Marks where
  log := DeleveragingContract.logs
  view := marks
  apply := Marks.apply

section
variable {seen : Storage → Uint256 → Prop} {perpetual : Storage} {now : Uint256} {s s' : DeleveragingContract}
  {calls new : List DeleveragingCall}

theorem isMarkedUpdate (account : Address) (timestamp : Uint256) (s : DeleveragingContract) :
    isMarked { s with markedTimestamp := Function.update s.markedTimestamp account timestamp } =
      Function.update (isMarked s) account (timestamp != 0) := by
  funext other
  simp only [isMarked, Function.update_apply]
  split <;> rfl

theorem markExplained {timestamp : Uint256} (positive : timestamp ≠ 0) (account : Address)
    (s : DeleveragingContract) : marksLog.Explained s (markAccount timestamp account s) := by
  refine .emitted (e := .markedForDeleveraging account) rfl ?_
  have marked := isMarkedUpdate account timestamp s
  rw [bne_iff_ne.mpr positive] at marked
  exact congrArg (Marks.mk · s.deleveragingOperator) marked

theorem unmarkExplained (account : Address) (s : DeleveragingContract) :
    marksLog.Explained s (unmarkAccount account s) := by
  refine .emitted (e := .unmarkedForDeleveraging account) rfl ?_
  exact congrArg (Marks.mk · s.deleveragingOperator) (isMarkedUpdate account 0 s)

theorem stepExplained (step : Step perpetual now s new s') (positive : ∀ c ∈ new, c.timestamp ≠ 0) :
    marksLog.Explained s s' := by
  cases step with
  | mark sender getPrice account price answered ok =>
    obtain ⟨_,rfl⟩ := markOk.mp ok
    exact markExplained (positive _ (List.mem_singleton.mpr rfl)) account s
  | unmark getPrice account ok =>
    obtain ⟨_,rfl⟩ := unmarkOk.mp ok
    exact unmarkExplained account s
  | setOperator sender newOperator ok =>
    simp only [setDeleveragingOperator, Checked.bindOk, Checked.requireOk, exists_const, Checked.pureOk] at ok
    obtain ⟨_,rfl⟩ := ok
    exact .emitted rfl rfl
  | trade sender call result ok =>
    simp only [P1Deleveraging.trade, Checked.bindOk, Checked.requireOk, exists_const, Checked.pureOk,
      Prod.mk.injEq] at ok
    obtain ⟨_,_,_,_,tradeData,_,_,_,marginAmount,_,_,rfl⟩ := ok
    -- The mark goes first, if the position is closed, and the deleveraging is logged after it.
    split
    · exact (unmarkExplained call.maker s).trans (.emitted rfl rfl)
    · exact .emitted rfl rfl
  | owner owner => exact .quiet rfl rfl

theorem stepsExplained (steps : Steps seen s calls s') (positive : ∀ c ∈ calls, c.timestamp ≠ 0) :
    marksLog.Explained s s' := by
  induction steps with
  | none => exact .refl s
  | more _ perpetual now there next ih =>
    obtain ⟨before,last⟩ := List.forall_mem_append.mp positive
    exact (ih before).trans (stepExplained next last)

end
end P1Deleveraging

theorem marksToldByLogs {ρ : Type} {this deleveragingAddress : Address} {w w' : World (DeleveragingHost ρ)}
    (run : DeleveragingRun this deleveragingAddress w w') (positive : ∀ c ∈ w'.ext.journal, c.timestamp ≠ 0) :
    ∃ new, w'.ext.contract.logs = w.ext.contract.logs ++ new ∧
      P1Deleveraging.marks w'.ext.contract =
        new.foldl P1Deleveraging.Marks.apply (P1Deleveraging.marks w.ext.contract) := by
  obtain ⟨calls,steps,journal⟩ := deleveragingHistory run
  rw [journal, List.forall_mem_append] at positive
  obtain ⟨new,logged,viewed⟩ := P1Deleveraging.stepsExplained steps positive.2
  exact ⟨new,logged,viewed⟩

theorem sampleTakeoverRun : DeleveragingRun 7 9 sampleUnmarked sampleTakeover := by
  let getPrice : Address → Checked Uint256 := fun _ => .ok P1Deleveraging.samplePrice
  have found : P1Deleveraging.isAccountUnderwater getPrice sampleUnmarked.perpetual 1 = .ok true := by decide +kernel
  have first : DeleveragingRun 7 9 sampleUnmarked sampleMarked :=
    .step .none 100 (.mark 5 getPrice 1 P1Deleveraging.samplePrice rfl (P1Deleveraging.markOk.mpr ⟨found,rfl⟩))
  exact first.call (deleveragingSample 1900) ⟨5,1900⟩ _ (deleveragingSampleEnvironment ⟨5,1900⟩)

theorem sampleMarksTold : P1Deleveraging.isMarked sampleTakeover.ext.contract 1 = false ∧
    ∃ new, sampleTakeover.ext.contract.logs = sampleUnmarked.ext.contract.logs ++ new ∧
      P1Deleveraging.marks sampleTakeover.ext.contract =
        new.foldl P1Deleveraging.Marks.apply (P1Deleveraging.marks sampleUnmarked.ext.contract) :=
  ⟨by decide +kernel,marksToldByLogs sampleTakeoverRun (by decide +kernel)⟩

end Perpetual
