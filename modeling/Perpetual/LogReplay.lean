import Perpetual.EventLog
import Perpetual.LoggedWords
import Perpetual.Solvency

/-! What the logs of PerpetualV1 tell: who has seen its storage once can follow it by the logs. -/
namespace Perpetual
open Settlement
variable {σ : Type}

/-- All of the storage but the guard and the cached indexes of the accounts. -/
structure Observed where
  admin : Address
  initialized : Bool
  balances : Address → Balance
  globalOperators : Address → Bool
  localOperators : Address → Address → Bool
  token : Address
  oracle : Address
  funder : Address
  globalIndex : Index
  minCollateral : Uint256
  finalSettlementEnabled : Bool
  finalSettlementPrice : Uint256

def observe (s : Storage) : Observed where
  admin := s.admin
  initialized := s.initialized
  balances := s.balances
  globalOperators := s.globalOperators
  localOperators := s.localOperators
  token := s.token
  oracle := s.oracle
  funder := s.funder
  globalIndex := s.globalIndex
  minCollateral := s.minCollateral
  finalSettlementEnabled := s.finalSettlementEnabled
  finalSettlementPrice := s.finalSettlementPrice

def Observed.logBalance (v : Observed) (account : Address) (balance : Bytes32) : Observed :=
  { v with balances := Function.update v.balances account (.ofBytes32 balance) }

def Observed.apply (v : Observed) : Log → Observed
  | .index index => { v with globalIndex := .ofBytes32 index }
  | .accountSettled account _ _ balance => v.logBalance account balance
  | .deposit account _ balance => v.logBalance account balance
  | .withdraw account _ _ balance => v.logBalance account balance
  | .trade maker taker _ _ _ _ makerBalance takerBalance =>
      (v.logBalance maker makerBalance).logBalance taker takerBalance
  | .withdrawFinalSettlement account _ balance => v.logBalance account balance
  | .setGlobalOperator operator approved =>
      { v with globalOperators := Function.update v.globalOperators operator approved }
  | .setOracle oracle => { v with oracle := oracle }
  | .setFunder funder => { v with funder := funder }
  | .setMinCollateral minCollateral => { v with minCollateral := minCollateral }
  | .finalSettlementEnabled settlementPrice =>
      { v with finalSettlementEnabled := true, finalSettlementPrice := settlementPrice }
  | .setLocalOperator sender operator approved =>
      let ofSender := Function.update (v.localOperators sender) operator approved
      { v with localOperators := Function.update v.localOperators sender ofSender }

def eventLog (σ : Type) : EventLog (World σ) Log Observed where
  log := World.logs
  view w := observe w.perpetual
  apply := Observed.apply

def Log.isOperator (log : Log) : Prop := ∃ sender operator approved, log = .setLocalOperator sender operator approved

theorem logCommutes (account : Address) (amount : Uint256) (balance : Bytes32) (v : Observed) {log : Log}
    (operator : log.isOperator) :
    (v.apply log).apply (.withdrawFinalSettlement account amount balance) =
      (v.apply (.withdrawFinalSettlement account amount balance)).apply log := by
  obtain ⟨sender,operator,approved,rfl⟩ := operator
  rfl

theorem observeBalance (s : Storage) (account : Address) (b : Balance) :
    observe (s.setBalance account b) = (observe s).logBalance account b.toBytes32 := by
  rw [Observed.logBalance, Balance.recovered]
  rfl

theorem externalExplained {allow : σ → σ → Prop} {w w' : World σ} (h : External allow w w')
    (entered : w.perpetual.status = ENTERED) : (eventLog σ).ExplainedBy Log.isOperator w w' := by
  refine h.whileEntered (fun w w' => (eventLog σ).ExplainedBy Log.isOperator w w') .refl .trans
    (fun _ _ _ => .quiet rfl rfl) ?_ entered
  intro x msg entry w w' entered ok
  cases guarded : entry.isGuarded with
  | true => exact absurd entered (guardedOk guarded ok).1
  | false =>
    cases entry with
    | setLocalOperator operator approved =>
      cases Except.ok.inj ok
      exact ⟨[_],.emitted rfl rfl,by rintro e mem; exact ⟨_,_,_,List.mem_singleton.mp mem⟩⟩
    | _ => cases guarded

theorem loadExplained {x : Externals σ} {msg : Msg} {w w' : World σ} {context : Context}
    (ok : loadContext x msg w = .ok (context,w')) : (eventLog σ).Explained w w' := by
  have load := loaded ok
  refine .emitted load.logs ?_
  simp only [eventLog, load.storage, Observed.apply, Index.recovered]
  rfl

theorem settleExplained {context : Context} {account : Address} {w w' : World σ} {b : Balance}
    (ok : settleAccount context account w = .ok (b,w')) : (eventLog σ).Explained w w' := by
  simp only [settleAccount] at ok
  split at ok
  · cases Checked.pureOk.mp ok
    exact .refl w
  · split at ok
    · cases Checked.pureOk.mp ok
      exact .quiet rfl rfl
    · simp only [Checked.bindOk, Prod.exists, Checked.pureOk, Prod.mk.injEq] at ok
      obtain ⟨d,hd,isPositive,amount,out,applied,rfl,rfl⟩ := ok
      exact .emitted rfl (observeBalance _ _ _)

theorem settleAllExplained {context : Context} {accounts : List Address} {w w' : World σ} {balances : List Balance}
    (ok : settleAccounts context accounts w = .ok (balances,w')) : (eventLog σ).Explained w w' := by
  induction accounts generalizing w balances with
  | nil =>
    cases Except.ok.inj ok
    exact .refl _
  | cons account rest ih =>
    simp only [settleAccounts, Checked.bindOk, Prod.exists, Checked.pureOk, Prod.mk.injEq] at ok
    obtain ⟨balance,mid,first,balances,last,others,rfl,rfl⟩ := ok
    exact (settleExplained first).trans (ih others)

theorem statusExplained (w : World σ) (status : Uint256) : (eventLog σ).Explained w (w.setStatus status) :=
  .quiet rfl rfl

section
variable {allow : σ → σ → Prop} {x : Externals σ} {msg : Msg} {w w' : World σ}

theorem guardedExplained {body : World σ → Checked (World σ)} (ok : nonReentrant body w = .ok w')
    (explained : ∀ mid, body (w.setStatus ENTERED) = .ok mid → (eventLog σ).Explained (w.setStatus ENTERED) mid) :
    (eventLog σ).Explained w w' := by
  obtain ⟨_,mid,body,rfl⟩ := nonReentrantOk.mp ok
  exact (statusExplained w ENTERED).trans ((explained mid body).trans (statusExplained mid NOT_ENTERED))

theorem depositExplained (honest : Honest allow x) {account : Address} {amount : Uint256}
    (ok : Margin.deposit x msg account amount w = .ok w') : (eventLog σ).Explained w w' := by
  obtain ⟨_,guarded⟩ := noFinalSettlementOk.mp ok
  refine guardedExplained guarded fun mid body => ?_
  simp only [Checked.bindOk, Prod.exists, Checked.pureOk] at body
  obtain ⟨context,w₁,load,balance,w₂,settle,w₃,pull,out,add,rfl⟩ := body
  have entered : w₂.perpetual.status = ENTERED := (settled settle).status.trans (loaded load).status
  have called := externalExplained (honest.pulls _ _ _ _ _ pull) entered
  have credited : (eventLog σ).Explained w₃
      ((w₃.write fun s => s.setBalance account out).emit (.deposit account amount out.toBytes32)) :=
    .emitted rfl (observeBalance _ _ _)
  exact (loadExplained load).trans ((settleExplained settle).trans (called.explained.trans credited))

theorem withdrawExplained (honest : Honest allow x) {account destination : Address} {amount : Uint256}
    (ok : Margin.withdraw x msg account destination amount w = .ok w') : (eventLog σ).Explained w w' := by
  obtain ⟨_,guarded⟩ := noFinalSettlementOk.mp ok
  refine guardedExplained guarded fun mid body => ?_
  simp only [Checked.bindOk, Checked.requireOk, exists_const, Prod.exists, Checked.pureOk] at body
  obtain ⟨_,context,w₁,load,balance,w₂,settle,w₃,push,out,sub,_,_,_,rfl⟩ := body
  have entered : w₂.perpetual.status = ENTERED := (settled settle).status.trans (loaded load).status
  have called := externalExplained (honest.pushes _ _ _ _ _ push) entered
  have debited : (eventLog σ).Explained w₃ ((w₃.write fun s => s.setBalance account out).emit
      (.withdraw account destination amount out.toBytes32)) := .emitted rfl (observeBalance _ _ _)
  exact (loadExplained load).trans ((settleExplained settle).trans (called.explained.trans debited))

theorem tradeOneExplained (traders : Traders allow x) {context : Context} {accounts : List Address}
    {s s' : Trade.Batch σ} {tradeArg : TradeArg} (entered : s.world.perpetual.status = ENTERED)
    (ok : Trade.tradeOne x msg context accounts s tradeArg = .ok s') :
    (eventLog σ).Explained s.world s'.world := by
  simp only [Trade.tradeOne, Checked.bindOk, Checked.requireOk, Checked.atOk, Prod.exists, exists_const] at ok
  obtain ⟨_,maker,_,taker,_,result,called,trade,ok⟩ := ok
  have call := (externalExplained (traders _ _ _ _ _ trade) entered).explained
  split at ok
  · cases Checked.pureOk.mp ok
    exact call
  · simp only [Checked.bindOk, Checked.atOk, Prod.exists, Checked.pureOk] at ok
    obtain ⟨m,_,t,_,m',t',_,rfl⟩ := ok
    refine call.trans (.emitted rfl ?_)
    change observe ((called.perpetual.setBalance maker m').setBalance taker t') = _
    rw [observeBalance, observeBalance]
    rfl

theorem tradeExplained (traders : Traders allow x) {accounts : List Address} {trades : List TradeArg}
    (ok : Trade.trade x msg accounts trades w = .ok w') : (eventLog σ).Explained w w' := by
  obtain ⟨_,guarded⟩ := noFinalSettlementOk.mp ok
  refine guardedExplained guarded fun mid body => ?_
  simp only [Checked.bindOk, Prod.exists, Checked.pureOk] at body
  obtain ⟨_,_,context,w₁,load,balances,w₂,settle,batch,ran,_,_,rfl⟩ := body
  have entered : w₂.perpetual.status = ENTERED := (settledAll settle).status.trans (loaded load).status
  have loop := Checked.loopKeeps
    (P := fun s : Trade.Batch σ => s.world.perpetual.status = ENTERED ∧ (eventLog σ).Explained w₂ s.world)
    (fun s tradeArg s' _ before pass => ⟨tradedStatus traders before.1 pass,
      before.2.trans (tradeOneExplained traders before.1 pass)⟩) ran ⟨entered,.refl _⟩
  exact (loadExplained load).trans ((settleAllExplained settle).trans loop.2)

theorem payoutExplained (honest : Honest allow x)
    (ok : FinalSettlement.withdrawFinalSettlement x msg w = .ok w') : (eventLog σ).Explained w w' := by
  obtain ⟨_,guarded⟩ := onlyFinalSettlementOk.mp ok
  refine guardedExplained guarded fun mid body => ?_
  simp only [Checked.bindOk, Prod.exists] at body
  obtain ⟨balance,w₁,settle,positive,negative,_,last⟩ := body
  refine (settleExplained settle).trans ?_
  split at last
  · cases Checked.pureOk.mp last
    exact .refl _
  · simp only [Checked.bindOk, Checked.pureOk] at last
    obtain ⟨_,_,value,_,held,_,_,_,remaining,_,w₂,push,rfl⟩ := last
    have entered : w₁.perpetual.status = ENTERED := (settled settle).status
    -- The balance is written before the transfer and logged after it.
    have called := externalExplained (honest.pushes _ _ _ _ _ push) entered
    let rest : Balance := ⟨decide (remaining ≠ 0),false,remaining,0⟩
    let log : Log := .withdrawFinalSettlement msg.sender (Math.min held value) rest.toBytes32
    exact called.late (e := log) (fun v _ => logCommutes msg.sender (Math.min held value) _ v) rfl
      (observeBalance w₁.perpetual msg.sender rest) rfl rfl

theorem execExplained (honest : Honest allow x) {entry : Entry} (initialized : w.perpetual.initialized = true)
    (ok : exec x msg entry w = .ok w') : (eventLog σ).Explained w w' := by
  cases entry with
  | deposit account amount => exact depositExplained honest ok
  | withdraw account destination amount => exact withdrawExplained honest ok
  | trade accounts trades => exact tradeExplained honest.traders ok
  | withdrawFinalSettlement => exact payoutExplained honest ok
  | setGlobalOperator operator approved =>
    obtain ⟨_,guarded⟩ := onlyAdminOk.mp ok
    refine guardedExplained guarded fun mid body => ?_
    cases Checked.pureOk.mp body
    exact .emitted rfl rfl
  | setOracle oracle =>
    obtain ⟨_,guarded⟩ := onlyAdminOk.mp ok
    refine guardedExplained guarded fun mid body => ?_
    simp only [Checked.bindOk, Checked.requireOk, exists_const, Checked.pureOk] at body
    obtain ⟨_,_,_,rfl⟩ := body
    exact .emitted rfl rfl
  | setFunder funder =>
    obtain ⟨_,guarded⟩ := onlyAdminOk.mp ok
    refine guardedExplained guarded fun mid body => ?_
    simp only [Checked.bindOk, Checked.pureOk] at body
    obtain ⟨_,_,rfl⟩ := body
    exact .emitted rfl rfl
  | setMinCollateral minCollateral =>
    obtain ⟨_,guarded⟩ := onlyAdminOk.mp ok
    refine guardedExplained guarded fun mid body => ?_
    simp only [Checked.bindOk, Checked.requireOk, exists_const, Checked.pureOk] at body
    obtain ⟨_,rfl⟩ := body
    exact .emitted rfl rfl
  | enableFinalSettlement lower upper =>
    obtain ⟨_,gated⟩ := onlyAdminOk.mp ok
    obtain ⟨_,guarded⟩ := noFinalSettlementOk.mp gated
    refine guardedExplained guarded fun mid body => ?_
    simp only [Checked.bindOk, Checked.requireOk, exists_const, Prod.exists, Checked.pureOk] at body
    obtain ⟨context,w₁,load,_,_,rfl⟩ := body
    exact (loadExplained load).trans (.emitted rfl rfl)
  | initializeV1 token oracle funder minCollateral =>
    rw [(Perpetual.initialized ok).once] at initialized
    cases initialized
  | setLocalOperator operator approved =>
    cases Except.ok.inj ok
    exact .emitted rfl rfl

end

theorem Observed.replayInitialized (v : Observed) (logs : List Log) :
    ((eventLog σ).replay v logs).initialized = v.initialized := by
  induction logs generalizing v with
  | nil => rfl
  | cons log rest ih =>
    refine (ih _).trans ?_
    cases log <;> rfl

theorem explainedInitialized {w w' : World σ} (explained : (eventLog σ).Explained w w')
    (initialized : w.perpetual.initialized = true) : w'.perpetual.initialized = true := by
  have same := congrArg Observed.initialized explained.observed.2
  rw [Observed.replayInitialized] at same
  exact same.trans initialized

theorem transactionExplained {others : σ → σ → Prop} {w w' : World σ} (initialized : w.perpetual.initialized = true)
    (next : Transaction AnyEnvironment others w w') :
    (eventLog σ).Explained w w' ∧ w'.perpetual.initialized = true := by
  have explained : (eventLog σ).Explained w w' := by
    cases next with
    | call x msg entry honest =>
      unfold perform
      cases result : exec x msg entry w with
      | error reason => exact .refl w
      | ok w' => exact execExplained honest initialized result
    | elsewhere ext allowed => exact .quiet rfl rfl
  exact ⟨explained,explainedInitialized explained initialized⟩

/-- Who has seen the storage once can follow all of it but the cached indexes by the logs alone,
whatever the contracts called do, calls back into PerpetualV1 included. -/
theorem logsTellTheStorage {others : σ → σ → Prop} {w w' : World σ} (initialized : w.perpetual.initialized = true)
    (run : Relation.ReflTransGen (Transaction AnyEnvironment others) w w') :
    ∃ new, w'.logs = w.logs ++ new ∧ observe w'.perpetual = new.foldl Observed.apply (observe w.perpetual) := by
  have explained := EventLog.runDoes (R := (eventLog σ).Explained) (I := fun w => w.perpetual.initialized = true)
    .refl .trans transactionExplained initialized run
  obtain ⟨new,logged,viewed⟩ := explained.1
  exact ⟨new,logged,viewed⟩

theorem runTransactions (calls : List (Msg × Entry)) (w : World (Address → Nat)) :
    Relation.ReflTransGen (Transaction AnyEnvironment fun _ _ => True) w (runAll calls w) := by
  induction calls generalizing w with
  | nil => exact .refl
  | cons c rest ih => exact .head (.call w sample c.1 c.2 (plainHonest 7 _ _)) (ih _)

theorem settledRunReplayed : ∃ new, (runAll settledRun startWorld).logs = startWorld.logs ++ new ∧
    observe (runAll settledRun startWorld).perpetual = new.foldl Observed.apply (observe startWorld.perpetual) :=
  logsTellTheStorage (by decide +kernel) (runTransactions settledRun startWorld)

end Perpetual
