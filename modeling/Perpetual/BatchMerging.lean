import Perpetual.BlockMoves
import Perpetual.FinalBalances
import Perpetual.Solvency

/-! Calls of `trade` that one sender makes in one block, and the one call with all of their trades.
The checks of the final balances compose, so what the calls achieve the one call achieves. -/
namespace Perpetual
namespace Trade
open Settlement
open Checked (FailsOnly)

theorem NotWorse.trans {a b c : Balance} {price : Nat} (first : NotWorse a b price) (last : NotWorse b c price) :
    NotWorse a c price where
  value := last.value
  position := last.position.trans first.position
  sign := last.sign.trans first.sign
  debt := first.debt
  ratio := by
    have weight : 0 < b.positiveValue price * b.negativeValue price :=
      Nat.mul_pos (Nat.pos_of_ne_zero first.value) (Nat.pos_of_ne_zero last.debt)
    refine Nat.le_of_mul_le_mul_right ?_ weight
    calc a.positiveValue price * c.negativeValue price * (b.positiveValue price * b.negativeValue price)
        = a.positiveValue price * b.negativeValue price * (b.positiveValue price * c.negativeValue price) := by ring
      _ ≤ b.positiveValue price * a.negativeValue price * (c.positiveValue price * b.negativeValue price) :=
          Nat.mul_le_mul first.ratio last.ratio
      _ = c.positiveValue price * a.negativeValue price * (b.positiveValue price * b.negativeValue price) := by ring

theorem Collateralized.notWorse {context : Context} {b c : Balance} (enough : Collateralized context b)
    (last : NotWorse b c context.price.toNat) : Collateralized context c := by
  have owed : 0 < b.negativeValue context.price.toNat := Nat.pos_of_ne_zero last.debt
  refine Nat.le_of_mul_le_mul_right ?_ owed
  calc c.negativeValue context.price.toNat * context.minCollateral.toNat * b.negativeValue context.price.toNat
      = c.negativeValue context.price.toNat * (b.negativeValue context.price.toNat * context.minCollateral.toNat) := by
        ring
    _ ≤ c.negativeValue context.price.toNat * (b.positiveValue context.price.toNat * 10 ^ 18) :=
        Nat.mul_le_mul_left _ enough
    _ = b.positiveValue context.price.toNat * c.negativeValue context.price.toNat * 10 ^ 18 := by ring
    _ ≤ c.positiveValue context.price.toNat * b.negativeValue context.price.toNat * 10 ^ 18 :=
        Nat.mul_le_mul_right _ last.ratio
    _ = c.positiveValue context.price.toNat * 10 ^ 18 * b.negativeValue context.price.toNat := by ring

theorem Accepted.trans {context : Context} {account : Address} {a b c : Balance}
    (first : Accepted context (account,a,b)) (last : Accepted context (account,b,c)) :
    Accepted context (account,a,c) := by
  rcases last with enough | kept
  · exact .inl enough
  · rcases first with before | worse
    · exact .inl (before.notWorse kept)
    · exact .inr (worse.trans kept)

theorem verifyMaps (context : Context) (accounts : List Address) (before after : Address → Balance) :
    verifyAccountsFinalBalances context accounts (accounts.map before) (accounts.map after) =
      verifyAll context (accounts.map fun a => (a,before a,after a)) := by
  simp only [verifyAll, List.map_map, Function.comp_def, List.map_id']

variable {σ : Type}

structure SameButLogs (w v : World σ) : Prop where
  perpetual : v.perpetual = w.perpetual
  ext : v.ext = w.ext

theorem SameButLogs.status {w v : World σ} (h : SameButLogs w v) (status : Uint256) :
    SameButLogs (w.setStatus status) (v.setStatus status) :=
  ⟨congrArg (fun s : Storage => { s with status := status }) h.perpetual,h.ext⟩

def FlagBlind (x : Externals σ) (trader : Address) : Prop :=
  ∀ (call : TraderCall) (flags : Bytes32) (r : TradeResult) (w w' v : World σ), SameButLogs w v →
    x.trade trader call w = .ok (r,w') →
    ∃ v', x.trade trader { call with traderFlags := flags } v = .ok (r,v') ∧ SameButLogs w' v'

structure Together (s t : Batch σ) : Prop where
  world : SameButLogs s.world t.world
  balances : t.currentBalances = s.currentBalances

section
variable {allow : σ → σ → Prop} {x : Externals σ} {msg : Msg} {context : Context} {accounts : List Address}

theorem Together.pass {s t s' : Batch σ} {tradeArg : TradeArg} (blind : FlagBlind x tradeArg.trader)
    (together : Together s t) (ok : tradeOne x msg context accounts s tradeArg = .ok s') :
    ∃ t', tradeOne x msg context accounts t tradeArg = .ok t' ∧ Together s' t' := by
  simp only [tradeOne, Checked.bindOk, Checked.requireOk, Checked.atOk, Prod.exists, exists_const] at ok
  obtain ⟨operator,maker,atMaker,taker,atTaker,result,w,called,ok⟩ := ok
  obtain ⟨v,again,same⟩ := blind _ t.traderFlags _ _ _ _ together.world called
  have operator : t.world.perpetual.globalOperators tradeArg.trader = true := by
    rw [together.world.perpetual]
    exact operator
  simp only [tradeOne, Checked.requireThen operator, Checked.atOk.mpr atMaker, Checked.atOk.mpr atTaker,
    Checked.okBind, again]
  split at ok
  · rename_i self
    cases Checked.pureOk.mp ok
    rw [if_pos self]
    exact ⟨_,rfl,same,together.balances⟩
  · rename_i different
    simp only [Checked.bindOk, Checked.atOk, Prod.exists, Checked.pureOk] at ok
    obtain ⟨m,makerBalance,n,takerBalance,m',n',moves,rfl⟩ := ok
    rw [← together.balances] at makerBalance takerBalance
    rw [if_neg different, Checked.atOk.mpr makerBalance, Checked.okBind, Checked.atOk.mpr takerBalance,
      Checked.okBind, moves, Checked.okBind]
    refine ⟨_,rfl,⟨?_,same.ext⟩,?_⟩
    · exact congrArg (fun p : Storage => (p.setBalance maker m').setBalance taker n') same.perpetual
    · rw [together.balances]

theorem Together.run {s t s' : Batch σ} {trades : List TradeArg} (blind : ∀ arg ∈ trades, FlagBlind x arg.trader)
    (together : Together s t) (ok : trades.foldlM (tradeOne x msg context accounts) s = .ok s') :
    ∃ t', trades.foldlM (tradeOne x msg context accounts) t = .ok t' ∧ Together s' t' := by
  induction trades generalizing s t with
  | nil =>
    cases Except.ok.inj ok
    exact ⟨t,rfl,together⟩
  | cons first rest ih =>
    obtain ⟨now,later⟩ := List.forall_mem_cons.mp blind
    simp only [List.foldlM_cons, Checked.bindOk] at ok ⊢
    obtain ⟨mid,pass,others⟩ := ok
    obtain ⟨mid',pass',together⟩ := together.pass now pass
    obtain ⟨t',others',together⟩ := ih later together others
    exact ⟨t',⟨mid',pass',others'⟩,together⟩

theorem settledAlready {w : World σ}
    (timed : ∀ a ∈ accounts, (w.perpetual.localIndexes a).timestamp = context.index.timestamp) :
    settleAccounts context accounts w = .ok (accounts.map w.perpetual.balances,w) := by
  induction accounts with
  | nil => rfl
  | cons first rest ih =>
    obtain ⟨now,later⟩ := List.forall_mem_cons.mp timed
    have one : settleAccount context first w = .ok (w.perpetual.balances first,w) := if_pos now
    simp only [settleAccounts, one, Checked.okBind, ih later]
    rfl

inductive Merged (x : Externals σ) (msg : Msg) (accounts : List Address) (w : World σ) (trades : List TradeArg) :
    World σ → Prop where
  | done {context : Context} {initialBalances : List Balance} {w₁ w₂ w' : World σ} {batch : Batch σ}
      (live : w.perpetual.finalSettlementEnabled = false)
      (free : w.perpetual.status ≠ ENTERED)
      (checked : verifyAccounts accounts = .ok ())
      (load : loadContext x msg (w.setStatus ENTERED) = .ok (context,w₁))
      (settle : settleAccounts context accounts w₁ = .ok (initialBalances,w₂))
      (start : InStep context accounts ⟨w₂,initialBalances,0⟩)
      (ran : runTrades x msg context accounts trades initialBalances w₂ = .ok batch)
      (inStep : InStep context accounts batch)
      (minCollateral : batch.world.perpetual.minCollateral = context.minCollateral)
      (accepted : ∀ a ∈ accounts, Accepted context
        (a,w₂.perpetual.balances a,batch.world.perpetual.balances a))
      (same : SameButLogs w' (batch.world.setStatus NOT_ENTERED)) : Merged x msg accounts w trades w'

theorem passMinCollateral (traders : Traders allow x) {s s' : Batch σ} {tradeArg : TradeArg}
    (entered : s.world.perpetual.status = ENTERED) (ok : tradeOne x msg context accounts s tradeArg = .ok s') :
    s'.world.perpetual.minCollateral = s.world.perpetual.minCollateral := by
  obtain ⟨maker,taker,result,w,_,_,called,moved,_⟩ := (traded ok).called
  have kept := ((traders _ _ _ _ _ called).untouched entered).minCollateral
  obtain ⟨after,balances,flags⟩ := s'
  cases moved with
  | self => exact kept
  | between _ _ _ _ _ _ storage =>
    rw [storage]
    exact kept

theorem loopInStep (traders : Traders allow x) (unique : accounts.Nodup) {s s' : Batch σ} {trades : List TradeArg}
    (inStep : InStep context accounts s) (ran : trades.foldlM (tradeOne x msg context accounts) s = .ok s') :
    InStep context accounts s' ∧ s'.world.perpetual.minCollateral = s.world.perpetual.minCollateral :=
  Checked.loopKeeps
    (P := fun t : Batch σ => InStep context accounts t ∧
      t.world.perpetual.minCollateral = s.world.perpetual.minCollateral)
    (fun _ _ _ _ before pass => ⟨inStepPass traders unique before.1 pass,
      (passMinCollateral traders before.1.status pass).trans before.2⟩) ran ⟨inStep,rfl⟩

theorem verifiedAfter {s : Batch σ} {before : Address → Balance} (inStep : InStep context accounts s)
    (ok : verifyAccountsFinalBalances context accounts (accounts.map before) s.currentBalances = .ok ()) :
    ∀ a ∈ accounts, Accepted context (a,before a,s.world.perpetual.balances a) := by
  rw [inStep.memory, verifyMaps] at ok
  intro a mem
  exact verifiedAccepted ok _ (List.mem_map_of_mem mem)

theorem oneMerged (traders : Traders allow x) {trades : List TradeArg} {w w' : World σ}
    (ok : trade x msg accounts trades w = .ok w') : Merged x msg accounts w trades w' := by
  obtain ⟨live,guarded⟩ := noFinalSettlementOk.mp ok
  obtain ⟨free,mid,body,rfl⟩ := nonReentrantOk.mp guarded
  simp only [Checked.bindOk, Prod.exists, Checked.pureOk] at body
  obtain ⟨_,checked,context,w₁,load,balances,w₂,settle,batch,ran,_,verified,rfl⟩ := body
  have unique := verifiedNodup checked
  have index : w₁.perpetual.globalIndex = context.index := by rw [(loaded load).storage]
  have settles := settledAll settle
  have start : InStep context accounts (⟨w₂,balances,0⟩ : Batch σ) :=
    inStepStart unique settles (loaded load).status index
  obtain ⟨inStep,same⟩ := loopInStep traders unique start ran
  refine .done live free checked load settle start ran inStep ?_ ?_ ⟨rfl,rfl⟩
  · have kept : w₂.perpetual.minCollateral = w₁.perpetual.minCollateral :=
      settles.same (fun w => w.perpetual.minCollateral) fun one => by
        obtain ⟨index,storage,_⟩ := one.storage
        rw [storage]
        rfl
    rw [same, kept, (loaded load).minCollateral, (loaded load).storage]
  · have memory : balances = accounts.map w₂.perpetual.balances := start.memory
    rw [memory] at verified
    exact verifiedAfter inStep verified

def readPrice (x : Externals σ) (w : World σ) : Checked Uint256 := x.getPrice w.perpetual.oracle (w.setStatus ENTERED)

theorem loadedPrice {w w' : World σ} (ok : loadContext x msg w = .ok (context,w')) :
    x.getPrice w.perpetual.oracle w = .ok context.price := by
  simp only [loadContext, Checked.bindOk, Checked.pureOk, Prod.mk.injEq] at ok
  obtain ⟨price,answer,index,_,rfl,_⟩ := ok
  exact answer

theorem loadedAgain {context' : Context} {w w₁ u mid : World σ} {s : Batch σ} (inStep : InStep context accounts s)
    (minCollateral : s.world.perpetual.minCollateral = context.minCollateral)
    (same : SameButLogs mid (s.world.setStatus NOT_ENTERED))
    (load : loadContext x msg (w.setStatus ENTERED) = .ok (context,w₁))
    (price : readPrice x mid = readPrice x w)
    (again : loadContext x msg (mid.setStatus ENTERED) = .ok (context',u)) :
    context' = context ∧ SameButLogs u s.world := by
  obtain ⟨now,_⟩ := loadedCurrent load
  obtain ⟨_,still⟩ := loadedCurrent again
  have stored : mid.perpetual = { s.world.perpetual with status := NOT_ENTERED } := same.perpetual.symm
  have index : context'.index = context.index := by
    have global : mid.perpetual.globalIndex = context.index := by rw [stored]; exact inStep.index
    have current : Current msg (mid.setStatus ENTERED).perpetual := by
      change mid.perpetual.globalIndex.timestamp.toNat = _
      rw [global, now]
    exact (still current).trans global
  have answer : context'.price = context.price :=
    Except.ok.inj ((loadedPrice again).symm.trans (price.trans (loadedPrice load)))
  have collateral : context'.minCollateral = context.minCollateral := by
    rw [(loaded again).minCollateral]
    change mid.perpetual.minCollateral = _
    rw [stored]
    exact minCollateral
  have both : context' = context := by
    cases context'
    cases context
    cases index
    cases answer
    cases collateral
    rfl
  refine ⟨both,?_,same.ext.trans (loaded again).ext.symm⟩
  have storage : u.perpetual = { s.world.perpetual with status := ENTERED, globalIndex := context.index } := by
    rw [(loaded again).storage, index]
    change { mid.perpetual with status := ENTERED, globalIndex := context.index } = _
    rw [stored]
  rw [storage, ← inStep.status, ← inStep.index]

theorem Merged.next (traders : Traders allow x) {done trades : List TradeArg} {w mid w' : World σ}
    (before : Merged x msg accounts w done mid) (blind : ∀ arg ∈ trades, FlagBlind x arg.trader)
    (price : readPrice x mid = readPrice x w) (ok : trade x msg accounts trades mid = .ok w') :
    Merged x msg accounts w (done ++ trades) w' := by
  cases before with
  | @done context initialBalances w₁ w₂ _ batch live free checked load settle start ran inStep minCollateral accepted
      same =>
    obtain ⟨_,guarded⟩ := noFinalSettlementOk.mp ok
    obtain ⟨_,_,body,rfl⟩ := nonReentrantOk.mp guarded
    simp only [Checked.bindOk, Prod.exists, Checked.pureOk] at body
    obtain ⟨_,_,context',u₁,again,balances,u₂,settle',last,ran',_,verified,rfl⟩ := body
    obtain ⟨rfl,world⟩ := loadedAgain inStep minCollateral same load price again
    have timed : ∀ a ∈ accounts, (u₁.perpetual.localIndexes a).timestamp = context'.index.timestamp := by
      rw [← world.perpetual]
      exact inStep.timed
    obtain ⟨rfl,rfl⟩ := Prod.mk.inj (Except.ok.inj (settle'.symm.trans (settledAlready timed)))
    have together : Together ⟨u₂,accounts.map u₂.perpetual.balances,0⟩ batch :=
      ⟨world,by rw [inStep.memory, world.perpetual]⟩
    obtain ⟨final,ran'',together⟩ := together.run blind ran'
    obtain ⟨inStep',kept⟩ := loopInStep traders (verifiedNodup checked) inStep ran''
    refine .done live free checked load settle start ?_ inStep' (kept.trans minCollateral) (fun a mem => ?_)
      (together.world.status NOT_ENTERED)
    · rw [runTrades, List.foldlM_append, ← runTrades, ran, Checked.okBind]
      exact ran''
    · rw [← together.balances, ← world.perpetual] at verified
      exact (accepted a mem).trans (verifiedAfter inStep' verified a mem)

theorem Merged.call {trades : List TradeArg} {w w' : World σ} (merged : Merged x msg accounts w trades w') :
    (∃ once, trade x msg accounts trades w = .ok once ∧ SameButLogs w' once) ∨
      ∃ reason ∈ SafeMath.overflows, trade x msg accounts trades w = .error reason := by
  cases merged with
  | @done context initialBalances w₁ w₂ _ batch live free checked load settle start ran inStep minCollateral accepted
      same =>
    have memory : initialBalances = accounts.map w₂.perpetual.balances := start.memory
    have upToCheck : trade x msg accounts trades w = (do
        verifyAccountsFinalBalances context accounts initialBalances batch.currentBalances
        return batch.world.setStatus NOT_ENTERED) := by
      simp only [trade, noFinalSettlement, Checked.requireThen live, nonReentrant, Checked.requireThen free, checked,
        load, settle, ran, Checked.okBind, bind_assoc]
      rfl
    have only : FailsOnly SafeMath.overflows
        (verifyAccountsFinalBalances context accounts initialBalances batch.currentBalances) := by
      rw [memory, inStep.memory, verifyMaps]
      refine acceptedOnly fun a mem => ?_
      obtain ⟨account,inside,rfl⟩ := List.mem_map.mp mem
      exact accepted account inside
    rw [upToCheck]
    cases result : verifyAccountsFinalBalances context accounts initialBalances batch.currentBalances with
    | error reason => exact .inr ⟨reason,only reason result,rfl⟩
    | ok u => exact .inl ⟨_,rfl,same⟩

/-- Calls of `trade` with the same accounts, one after the other in a block in which the oracle
answers the same. All but those of the first go to traders that look at no flags. -/
inductive CallsInBlock (x : Externals σ) (msg : Msg) (accounts : List Address) (w : World σ) :
    List TradeArg → World σ → Prop where
  | first {trades : List TradeArg} {w' : World σ} (ok : trade x msg accounts trades w = .ok w') :
      CallsInBlock x msg accounts w trades w'
  | next {done trades : List TradeArg} {mid w' : World σ} (before : CallsInBlock x msg accounts w done mid)
      (blind : ∀ arg ∈ trades, FlagBlind x arg.trader) (price : readPrice x mid = readPrice x w)
      (ok : trade x msg accounts trades mid = .ok w') : CallsInBlock x msg accounts w (done ++ trades) w'

/-- What any number of calls does in a block one call with all of their trades does as well, to every
balance and index and to every other contract, unless a check of the final balances overflows in it. -/
theorem callsMerge (traders : Traders allow x) {trades : List TradeArg} {w w' : World σ}
    (calls : CallsInBlock x msg accounts w trades w') :
    (∃ once, trade x msg accounts trades w = .ok once ∧ SameButLogs w' once) ∨
      ∃ reason ∈ SafeMath.overflows, trade x msg accounts trades w = .error reason := by
  suffices Merged x msg accounts w trades w' from this.call
  induction calls with
  | first ok => exact oneMerged traders ok
  | next before blind price ok ih => exact ih.next traders blind price ok

end

theorem performed (x : Externals σ) (msg : Msg) (entry : Entry) {w : World σ}
    (ok : (exec x msg entry w).isOk = true) : exec x msg entry w = .ok (perform x msg entry w) := by
  obtain ⟨w',result⟩ := Checked.okExists ok
  rw [perform, result]

def unitTrade : List TradeArg := [⟨0,1,9,[]⟩]

def bothDeposited : World (Address → Nat) := runAll (settledRun.take 3) startWorld

def calledOnce : World (Address → Nat) := perform sample ⟨1,130⟩ (.trade [1,2] unitTrade) bothDeposited

def calledTwice : World (Address → Nat) := perform sample ⟨1,130⟩ (.trade [1,2] unitTrade) calledOnce

theorem sampleMerge : (calledTwice.perpetual.balances 1).positionInt = 2 ∧
    ((∃ once, trade sample ⟨1,130⟩ [1,2] (unitTrade ++ unitTrade) bothDeposited = .ok once ∧
        SameButLogs calledTwice once) ∨
      ∃ reason ∈ SafeMath.overflows,
        trade sample ⟨1,130⟩ [1,2] (unitTrade ++ unitTrade) bothDeposited = .error reason) := by
  have plain : Honest (fun _ _ => True) sample := plainHonest 7 _ _
  have blind : FlagBlind sample 9 := by
    intro call flags r w w' v same ok
    cases Except.ok.inj ok
    exact ⟨v,rfl,same⟩
  have first : CallsInBlock sample ⟨1,130⟩ [1,2] bothDeposited unitTrade calledOnce :=
    .first (performed sample ⟨1,130⟩ (.trade [1,2] unitTrade) (by decide +kernel))
  have second : CallsInBlock sample ⟨1,130⟩ [1,2] bothDeposited (unitTrade ++ unitTrade) calledTwice := by
    refine .next first (fun arg mem => ?_) rfl (performed sample ⟨1,130⟩ (.trade [1,2] unitTrade) (by decide +kernel))
    cases List.mem_singleton.mp mem
    exact blind
  exact ⟨by decide +kernel,callsMerge plain.traders second⟩

end Trade
end Perpetual
