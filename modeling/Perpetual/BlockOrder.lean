import Perpetual.AccountLedger
import Perpetual.BatchMerging

/-! The calls of one block in any order. Every account pays its funding once and to the same index,
so the books at the end of the block are told by what was moved and not by when. -/
namespace Perpetual
open Settlement
variable {σ : Type}

def Log.move : Log → Option Log
  | .deposit account amount _ => some (.deposit account amount 0)
  | .withdraw account destination amount _ => some (.withdraw account destination amount 0)
  | .trade maker taker trader marginAmount positionAmount isBuy _ _ =>
      some (.trade maker taker trader marginAmount positionAmount isBuy 0 0)
  | _ => none

theorem moveAmounts {log move : Log} (account : Address) (told : log.move = some move) :
    move.marginOf account = log.marginOf account ∧ move.positionOf account = log.positionOf account := by
  cases log <;> cases told <;> exact ⟨rfl,rfl⟩

def total (read : Log → Int) (logs : List Log) : Int := sumOf read (logs.filterMap Log.move)

theorem totalAppend (read : Log → Int) (first last : List Log) :
    total read (first ++ last) = total read first + total read last := by
  rw [total, List.filterMap_append, sumOfAppend]
  rfl

theorem totalNone (read : Log → Int) {logs : List Log} (still : ∀ l ∈ logs, l.move = none) : total read logs = 0 := by
  rw [total, List.filterMap_eq_nil_iff.mpr still, sumOfNil]

theorem totalOne (read : Log → Int) {log move : Log} (told : log.move = some move) : total read [log] = read move := by
  rw [total, List.filterMap_cons_some told]
  exact sumOfOne read move

theorem totalPerm (read : Log → Int) {first last : List Log}
    (same : (first.filterMap Log.move).Perm (last.filterMap Log.move)) : total read first = total read last :=
  (same.map read).sum_eq

structure Tallied (account : Address) (w w' : World σ) (new : List Log) : Prop where
  logged : w'.logs = w.logs ++ new
  moved : AccountMoved w.perpetual w'.perpetual account (total (Log.marginOf account) new)
    (total (Log.positionOf account) new)
  index : w'.perpetual.localIndexes account = w.perpetual.localIndexes account ∨
    (w.perpetual.localIndexes account).timestamp ≠ w'.perpetual.globalIndex.timestamp ∧
      w'.perpetual.localIndexes account = w'.perpetual.globalIndex

def Timed (account : Address) (s : Storage) : Prop :=
  (s.localIndexes account).timestamp = s.globalIndex.timestamp

structure BlockKept (account : Address) (w w' : World σ) : Prop where
  tallied : ∃ new, Tallied account w w' new
  globalIndex : w'.perpetual.globalIndex = w.perpetual.globalIndex

section
variable {account : Address} {w mid w' : World σ}

theorem Tallied.trans {first last : List Log} (before : Tallied account w mid first)
    (after : Tallied account mid w' last) (still : w'.perpetual.globalIndex = mid.perpetual.globalIndex) :
    Tallied account w w' (first ++ last) where
  logged := by rw [after.logged, before.logged, List.append_assoc]
  moved := by
    rw [totalAppend, totalAppend]
    exact before.moved.trans after.moved still
  index := by
    rcases after.index with same | ⟨untimed,now⟩
    · rw [same, still]
      exact before.index
    · rcases before.index with same | ⟨_,now⟩
      · rw [same] at untimed
        exact .inr ⟨untimed,‹_›⟩
      · rw [now, still] at untimed
        exact absurd rfl untimed

theorem Tallied.aside {new : List Log} (logged : w'.logs = w.logs ++ new)
    (balance : w'.perpetual.balances account = w.perpetual.balances account)
    (index : w'.perpetual.localIndexes account = w.perpetual.localIndexes account)
    (margin : total (Log.marginOf account) new = 0) (position : total (Log.positionOf account) new = 0) :
    Tallied account w w' new := by
  refine ⟨logged,?_,.inl index⟩
  rw [margin, position]
  exact .untouched balance index

theorem FundedTo.timed {s : Storage} {index : Index}
    (timed : (s.localIndexes account).timestamp = index.timestamp) :
    FundedTo s index account (s.balances account) :=
  ⟨rfl,fun _ => rfl,fun untimed => absurd timed untimed⟩

theorem Tallied.moves {log move : Log} (timed : Timed account w.perpetual)
    (logged : w'.logs = w.logs ++ [log]) (told : log.move = some move)
    (globalIndex : w'.perpetual.globalIndex = w.perpetual.globalIndex)
    (index : w'.perpetual.localIndexes account = w.perpetual.localIndexes account)
    (margin : (w'.perpetual.balances account).marginInt =
      (w.perpetual.balances account).marginInt + log.marginOf account)
    (position : (w'.perpetual.balances account).positionInt =
      (w.perpetual.balances account).positionInt + log.positionOf account) : Tallied account w w' [log] := by
  obtain ⟨sameMargin,samePosition⟩ := moveAmounts account told
  refine ⟨logged,?_,.inl index⟩
  rw [totalOne _ told, totalOne _ told, sameMargin, samePosition]
  refine .settled (b := w.perpetual.balances account) (.timed ?_) ?_ margin position
  · rw [globalIndex]
    exact timed
  · rw [index, globalIndex]
    exact timed

theorem BlockKept.trans (before : BlockKept account w mid) (after : BlockKept account mid w') :
    BlockKept account w w' := by
  obtain ⟨first,tallied⟩ := before.tallied
  obtain ⟨last,later⟩ := after.tallied
  exact ⟨⟨_,tallied.trans later after.globalIndex⟩,after.globalIndex.trans before.globalIndex⟩

theorem BlockKept.refl (w : World σ) : BlockKept account w w :=
  ⟨⟨[],.aside (List.append_nil _).symm rfl rfl rfl rfl⟩,rfl⟩

theorem statusTallied (w : World σ) (status : Uint256) : BlockKept account w (w.setStatus status) :=
  ⟨⟨[],.aside (List.append_nil _).symm rfl rfl rfl rfl⟩,rfl⟩

theorem operatorStill {log : Log} (operator : log.isOperator) : log.move = none := by
  obtain ⟨sender,operator,approved,rfl⟩ := operator
  rfl

variable (account) in
theorem externalTallied {allow : σ → σ → Prop} (h : External allow w w')
    (entered : w.perpetual.status = ENTERED) : BlockKept account w w' := by
  obtain ⟨new,explains,ofKind⟩ := externalExplained h entered
  have kept := h.untouched entered
  refine ⟨⟨new,.aside explains.logged ?_ ?_ ?_ ?_⟩,kept.globalIndex⟩
  · rw [kept.balances]
  · rw [kept.localIndexes]
  · exact totalNone _ fun l mem => operatorStill (ofKind l mem)
  · exact totalNone _ fun l mem => operatorStill (ofKind l mem)

variable (account) in
theorem settleTallied {context : Context} {other : Address} {b : Balance}
    (settle : Settled context other w b w') (global : w.perpetual.globalIndex = context.index) :
    BlockKept account w w' := by
  obtain ⟨new,logged,names⟩ := settle.logs
  have still (l : Log) (mem : l ∈ new) : l.move = none := by
    obtain ⟨isPositive,amount,balance,rfl⟩ := names l mem
    rfl
  have after : w'.perpetual.globalIndex = context.index := settle.globalIndex.trans global
  refine ⟨⟨new,?_⟩,settle.globalIndex⟩
  by_cases here : account = other
  · subst here
    obtain ⟨stored,timed⟩ := settle.here
    refine ⟨logged,?_,?_⟩
    · rw [totalNone _ still, totalNone _ still]
      refine .settled (b := b) (after ▸ settle.funded) (timed.trans (congrArg Index.timestamp after.symm)) ?_ ?_
      · rw [stored, Int.add_zero]
      · rw [stored, Int.add_zero]
    · obtain ⟨index,storage,_,moved⟩ := settle.storage
      have written : w'.perpetual.localIndexes account = index := by
        rw [storage]
        exact Function.update_self _ _ _
      rw [written, after]
      rcases moved with ⟨_,same,_⟩ | later
      · exact .inl same
      · exact .inr later
  · obtain ⟨balance,index⟩ := settle.elsewhere here
    exact .aside logged balance index (totalNone _ still) (totalNone _ still)

variable (account) in
theorem settleAllTallied {context : Context} {accounts : List Address} {balances : List Balance}
    (settles : SettledAll context accounts w balances w') (global : w.perpetual.globalIndex = context.index) :
    BlockKept account w w' := by
  induction settles with
  | nil w => exact .refl w
  | cons head tail ih =>
    exact (settleTallied account head global).trans (ih (head.globalIndex.trans global))

variable (account) in
theorem marginTallied {other : Address} {balance out : Balance} {amount : Int} (log : Log) {move : Log}
    (timed : Timed other w.perpetual) (stored : w.perpetual.balances other = balance)
    (moved : Balance.MarginMoved balance out amount) (told : log.move = some move)
    (margin : log.marginOf account = if other = account then amount else 0) (position : log.positionOf account = 0) :
    BlockKept account w ((w.write fun s => s.setBalance other out).emit log) := by
  refine ⟨⟨[log],?_⟩,rfl⟩
  by_cases here : other = account
  · subst here
    obtain ⟨after,same⟩ := marginAmounts w.perpetual.balances stored moved other
    refine .moves timed rfl told rfl rfl ?_ ?_
    · rw [margin]
      exact after
    · rw [position, Int.add_zero]
      exact same
  · obtain ⟨sameMargin,samePosition⟩ := moveAmounts account told
    rw [if_neg here] at margin
    refine .aside rfl (Function.update_of_ne (Ne.symm here) _ _) rfl ?_ ?_
    · rw [totalOne _ told, sameMargin, margin]
    · rw [totalOne _ told, samePosition, position]

theorem exchangeTallied {maker taker : Address} {m t m' t' : Balance} {result : TradeResult}
    (makerTimed : Timed maker w.perpetual) (takerTimed : Timed taker w.perpetual)
    (different : maker ≠ taker) (makerStored : w.perpetual.balances maker = m)
    (takerStored : w.perpetual.balances taker = t) (moved : Trade.Applied result m t m' t') (trader : Address) :
    BlockKept account w ((w.write fun s => (s.setBalance maker m').setBalance taker t').emit
      (.trade maker taker trader result.marginAmount result.positionAmount result.isBuy m'.toBytes32
        t'.toBytes32)) := by
  let log : Log := .trade maker taker trader result.marginAmount result.positionAmount result.isBuy m'.toBytes32
    t'.toBytes32
  refine ⟨⟨[log],?_⟩,rfl⟩
  by_cases timed : Timed account w.perpetual
  · obtain ⟨margin,position⟩ := exchangeAmounts w.perpetual.balances different makerStored takerStored moved account
      trader m'.toBytes32 t'.toBytes32
    exact .moves timed rfl rfl rfl rfl margin position
  · have isMaker : maker ≠ account := fun same => timed (same ▸ makerTimed)
    have isTaker : taker ≠ account := fun same => timed (same ▸ takerTimed)
    refine .aside rfl ?_ rfl ?_ ?_
    · exact (Function.update_of_ne isTaker.symm _ _).trans (Function.update_of_ne isMaker.symm _ _)
    · rw [totalOne _ rfl, Log.marginOf, if_neg isMaker, if_neg isTaker, Int.sub_zero]
    · rw [totalOne _ rfl, Log.positionOf, if_neg isMaker, if_neg isTaker, Int.sub_zero]

variable {allow : σ → σ → Prop} {x : Externals σ} {msg : Msg}

theorem passTallied (traders : Traders allow x) {context : Context} {accounts : List Address}
    {s s' : Trade.Batch σ} {tradeArg : TradeArg} (inStep : Trade.InStep context accounts s)
    (ok : Trade.tradeOne x msg context accounts s tradeArg = .ok s') : BlockKept account s.world s'.world := by
  simp only [Trade.tradeOne, Checked.bindOk, Checked.requireOk, Checked.atOk, Prod.exists, exists_const] at ok
  obtain ⟨_,maker,atMaker,taker,atTaker,result,called,trade,ok⟩ := ok
  have external := traders _ _ _ _ _ trade
  have kept := external.untouched inStep.status
  have call := externalTallied account external inStep.status
  split at ok
  · cases Checked.pureOk.mp ok
    exact call
  · rename_i different
    simp only [Checked.bindOk, Checked.atOk, Prod.exists, Checked.pureOk] at ok
    obtain ⟨m,makerBalance,t,takerBalance,m',t',moves,rfl⟩ := ok
    have stored {a : Address} {i : Nat} {b : Balance} (here : accounts[i]? = some a)
        (balance : s.currentBalances[i]? = some b) : called.perpetual.balances a = b := by
      rw [kept.balances]
      exact (inStep.stored here balance).symm
    have timed {a : Address} {i : Nat} (here : accounts[i]? = some a) : Timed a called.perpetual := by
      rw [Timed, kept.localIndexes, kept.globalIndex, inStep.index]
      exact inStep.timed a (List.mem_of_getElem? here)
    exact call.trans (exchangeTallied (timed atMaker) (timed atTaker) different (stored atMaker makerBalance)
      (stored atTaker takerBalance) (Trade.applied moves) _)

def blockIndex (x : Externals σ) (timestamp : Uint256) (w : World σ) : Checked Index := do
  let price ← x.getPrice w.perpetual.oracle w
  currentIndex x ⟨0,timestamp⟩ w price w.perpetual.globalIndex

theorem loadIndex {context : Context} (ok : loadContext x msg w = .ok (context,w')) :
    blockIndex x msg.timestamp w = .ok context.index := by
  simp only [loadContext, Checked.bindOk, Checked.pureOk, Prod.mk.injEq] at ok
  obtain ⟨price,priced,index,moved,rfl,_⟩ := ok
  exact Checked.bindOk.mpr ⟨price,priced,moved⟩

structure InCall (account : Address) (x : Externals σ) (timestamp : Uint256) (w w' : World σ) : Prop where
  tallied : ∃ new, Tallied account w w' new
  current : w'.perpetual.globalIndex.timestamp.toNat = timestamp.toNat
  moved : blockIndex x timestamp (w.setStatus ENTERED) = .ok w'.perpetual.globalIndex
  still : w.perpetual.globalIndex.timestamp.toNat = timestamp.toNat →
    w'.perpetual.globalIndex = w.perpetual.globalIndex

theorem InCall.ofLoad {context : Context} {w₁ : World σ}
    (load : loadContext x msg (w.setStatus ENTERED) = .ok (context,w₁)) (kept : BlockKept account w₁ mid) :
    InCall account x msg.timestamp w (mid.setStatus NOT_ENTERED) := by
  have loads := loaded load
  obtain ⟨now,still⟩ := loadedCurrent load
  have index : mid.perpetual.globalIndex = context.index := by
    rw [kept.globalIndex, loads.storage]
  refine ⟨?_,?_,?_,?_⟩
  · have loading : Tallied account w w₁ [.index context.index.toBytes32] := by
      refine .aside loads.logs ?_ ?_ rfl rfl
      · rw [loads.storage]
        rfl
      · rw [loads.storage]
        rfl
    have rest := kept.trans (statusTallied mid NOT_ENTERED)
    obtain ⟨new,tallied⟩ := rest.tallied
    exact ⟨_,loading.trans tallied rest.globalIndex⟩
  · exact (congrArg (fun index : Index => index.timestamp.toNat) index).trans now
  · exact (loadIndex load).trans (congrArg Except.ok index.symm)
  · exact fun before => index.trans (still before)

theorem accountTallied {context : Context} {other : Address} {b : Balance} {w₁ w₂ w₃ : World σ}
    (load : loadContext x msg (w.setStatus ENTERED) = .ok (context,w₁))
    (settle : Settled context other w₁ b w₂) (external : External allow w₂ w₃) :
    BlockKept account w₁ w₃ ∧ Timed other w₃.perpetual ∧ w₃.perpetual.balances other = b := by
  have global : w₁.perpetual.globalIndex = context.index := by rw [(loaded load).storage]
  have entered : w₂.perpetual.status = ENTERED := settle.status.trans (loaded load).status
  have kept := external.untouched entered
  obtain ⟨stored,timed⟩ := settle.here
  refine ⟨(settleTallied account settle global).trans (externalTallied account external entered),?_,?_⟩
  · rw [Timed, kept.localIndexes, kept.globalIndex, settle.globalIndex, global]
    exact timed
  · rw [kept.balances, stored]

def Entry.isMoving : Entry → Bool
  | .deposit _ _ | .withdraw _ _ _ | .trade _ _ => true
  | _ => false

variable (account) in
theorem callTallied (honest : Honest allow x) {entry : Entry} (moving : entry.isMoving = true)
    (ok : exec x msg entry w = .ok w') : InCall account x msg.timestamp w w' := by
  cases entry with
  | deposit other amount =>
    obtain ⟨_,guarded⟩ := noFinalSettlementOk.mp ok
    obtain ⟨_,mid,body,rfl⟩ := nonReentrantOk.mp guarded
    simp only [Checked.bindOk, Prod.exists, Checked.pureOk] at body
    obtain ⟨context,w₁,load,balance,w₂,settle,w₃,pull,out,add,rfl⟩ := body
    obtain ⟨kept,timed,stored⟩ := accountTallied load (settled settle) (honest.pulls _ _ _ _ _ pull)
    exact .ofLoad load (kept.trans (marginTallied account (.deposit other amount out.toBytes32) timed stored
      (Balance.addToMarginMoved add) rfl rfl rfl))
  | withdraw other destination amount =>
    cases withdrawn ok with
    | @done context balance out w₁ w₂ w₃ live permission load settle push moved collateralized =>
      obtain ⟨kept,timed,stored⟩ := accountTallied load settle (honest.pushes _ _ _ _ _ push)
      exact .ofLoad load (kept.trans (marginTallied account (.withdraw other destination amount out.toBytes32) timed
        stored moved rfl rfl rfl))
  | trade accounts trades =>
    cases batchTraded ok with
    | @done context initialBalances w₁ w₂ batch live unique load settle start ran verified =>
      have loop := Checked.loopKeeps
        (P := fun s : Trade.Batch σ => Trade.InStep context accounts s ∧ BlockKept account w₂ s.world)
        (fun s tradeArg s' _ before pass => ⟨Trade.inStepPass honest.traders unique before.1 pass,
          before.2.trans (passTallied honest.traders before.1 pass)⟩) ran ⟨start,.refl _⟩
      have global : w₁.perpetual.globalIndex = context.index := by rw [(loaded load).storage]
      exact .ofLoad load ((settleAllTallied account (settledAll settle) global).trans loop.2)
  | _ => cases moving

end

/-- Calls that one block makes from the same start, and what others do between them. -/
inductive InBlock (allow : σ → σ → Prop) (x : Externals σ) (timestamp : Uint256) (w : World σ) : World σ → Prop where
  | first {sender : Address} {entry : Entry} {w' : World σ} (honest : Honest allow x)
      (moving : entry.isMoving = true) (ok : exec x ⟨sender,timestamp⟩ entry w = .ok w') :
      InBlock allow x timestamp w w'
  | next {y : Externals σ} {sender : Address} {entry : Entry} {mid w' : World σ}
      (before : InBlock allow x timestamp w mid) (honest : Honest allow y) (moving : entry.isMoving = true)
      (ok : exec y ⟨sender,timestamp⟩ entry mid = .ok w') : InBlock allow x timestamp w w'
  | elsewhere {mid : World σ} (before : InBlock allow x timestamp w mid) (ext : σ) :
      InBlock allow x timestamp w { mid with ext := ext }

section
variable {allow : σ → σ → Prop} {x : Externals σ} {timestamp : Uint256} {w w' v' : World σ}

theorem blockTallied (account : Address) (run : InBlock allow x timestamp w w') :
    InCall account x timestamp w w' := by
  induction run with
  | first honest moving ok => exact callTallied account honest moving ok
  | @next y sender entry mid w' before honest moving ok ih =>
    obtain ⟨⟨first,earlier⟩,current,moved,still⟩ := ih
    obtain ⟨⟨last,later⟩,current',_,still'⟩ := callTallied account honest moving ok
    have same := still' current
    exact ⟨⟨_,earlier.trans later same⟩,current',moved.trans (congrArg Except.ok same.symm),
      fun now => same.trans (still now)⟩
  | elsewhere before ext ih =>
    obtain ⟨⟨new,tallied⟩,current,moved,still⟩ := ih
    exact ⟨⟨new,tallied.logged,tallied.moved,tallied.index⟩,current,moved,still⟩

def movesSince (w w' : World σ) : List Log := (w'.logs.drop w.logs.length).filterMap Log.move

theorem Tallied.since {account : Address} {new : List Log} (h : Tallied account w w' new) :
    new = w'.logs.drop w.logs.length := by
  rw [h.logged, List.drop_left]

theorem AccountMoved.same {s t u : Storage} {account : Address} {margin position : Int}
    (one : AccountMoved s t account margin position) (two : AccountMoved s u account margin position)
    (index : u.globalIndex = t.globalIndex)
    (settled : (u.localIndexes account).timestamp = (t.localIndexes account).timestamp) :
    (u.balances account).marginInt = (t.balances account).marginInt := by
  cases one with
  | untouched balances indexes =>
    cases two with
    | untouched balances' indexes' => rw [balances, balances']
    | settled funded timed marginMoved positionMoved =>
      rw [settled, indexes] at timed
      rw [marginMoved, funded.same timed, balances, Int.add_zero]
  | @settled _ _ b funded timed marginMoved positionMoved =>
    rw [← index] at funded timed
    generalize marginSum : margin = sum at two
    generalize positionSum : position = moved at two
    cases two with
    | untouched balances' indexes' =>
      subst marginSum
      rw [← settled, indexes'] at timed
      rw [marginMoved, funded.same timed, balances', Int.add_zero]
    | @settled _ _ b' funded' timed' marginMoved' positionMoved' =>
      rw [marginMoved, marginMoved', marginSum]
      by_cases paid : (s.localIndexes account).timestamp = u.globalIndex.timestamp
      · rw [funded.same paid, funded'.same paid]
      · have one := funded.funding paid
        have two := funded'.funding paid
        dsimp only at one two
        omega

theorem Tallied.sameIndex {account : Address} {first last : List Log} (one : Tallied account w w' first)
    (two : Tallied account w v' last) (index : v'.perpetual.globalIndex = w'.perpetual.globalIndex)
    (settled : (v'.perpetual.localIndexes account).timestamp = (w'.perpetual.localIndexes account).timestamp) :
    v'.perpetual.localIndexes account = w'.perpetual.localIndexes account := by
  rcases one.index with same | ⟨untimed,now⟩
  · rcases two.index with same' | ⟨untimed',now'⟩
    · rw [same, same']
    · rw [same, now'] at settled
      exact absurd settled.symm untimed'
  · rcases two.index with same' | ⟨untimed',now'⟩
    · rw [same', now] at settled
      exact absurd settled untimed
    · rw [now, now', index]

/-- In a block only what is moved counts: two runs from one start that log the same moves in any order
end with the same index, positions, and margin of every account that both or neither have settled. -/
theorem orderInBlock (one : InBlock allow x timestamp w w') (two : InBlock allow x timestamp w v')
    (same : (movesSince w v').Perm (movesSince w w')) :
    v'.perpetual.globalIndex = w'.perpetual.globalIndex ∧ ∀ a,
      (v'.perpetual.balances a).positionInt = (w'.perpetual.balances a).positionInt ∧
      ((v'.perpetual.localIndexes a).timestamp = (w'.perpetual.localIndexes a).timestamp →
        (v'.perpetual.balances a).marginInt = (w'.perpetual.balances a).marginInt ∧
        v'.perpetual.localIndexes a = w'.perpetual.localIndexes a) := by
  have index : v'.perpetual.globalIndex = w'.perpetual.globalIndex :=
    Except.ok.inj ((blockTallied 0 two).moved.symm.trans (blockTallied 0 one).moved)
  refine ⟨index,fun a => ?_⟩
  obtain ⟨⟨first,earlier⟩,_,_,_⟩ := blockTallied a one
  obtain ⟨⟨last,later⟩,_,_,_⟩ := blockTallied a two
  have moved := later.moved
  obtain rfl := earlier.since
  obtain rfl := later.since
  rw [totalPerm _ same, totalPerm _ same] at moved
  refine ⟨?_,fun settled => ⟨earlier.moved.same moved index settled,earlier.sameIndex later index settled⟩⟩
  rw [moved.position, earlier.moved.position]

end

def depositedFirst : World (Address → Nat) :=
  perform raised ⟨1,135⟩ (.withdraw 1 1 3) (perform raised ⟨1,135⟩ (.deposit 2 5) beforeRaise)

def withdrawnFirst : World (Address → Nat) :=
  perform raised ⟨1,135⟩ (.deposit 2 5) (perform raised ⟨1,135⟩ (.withdraw 1 1 3) beforeRaise)

theorem raisedInAnyOrder : withdrawnFirst.perpetual.globalIndex = depositedFirst.perpetual.globalIndex ∧
    (withdrawnFirst.perpetual.balances 2).marginInt = (depositedFirst.perpetual.balances 2).marginInt := by
  have plain : Honest (fun _ _ => True) sample := plainHonest 7 _ _
  have honest : Honest (fun _ _ => True) raised := ⟨plain.traders,plain.pulls,plain.pushes⟩
  have one : InBlock (fun _ _ => True) raised 135 beforeRaise depositedFirst :=
    .next (.first honest rfl (Trade.performed raised ⟨1,135⟩ (.deposit 2 5) (by decide +kernel))) honest rfl
      (Trade.performed raised ⟨1,135⟩ (.withdraw 1 1 3) (by decide +kernel))
  have two : InBlock (fun _ _ => True) raised 135 beforeRaise withdrawnFirst :=
    .next (.first honest rfl (Trade.performed raised ⟨1,135⟩ (.withdraw 1 1 3) (by decide +kernel))) honest rfl
      (Trade.performed raised ⟨1,135⟩ (.deposit 2 5) (by decide +kernel))
  obtain ⟨index,books⟩ := orderInBlock one two (by decide +kernel)
  exact ⟨index,((books 2).2 (by decide +kernel)).1⟩

end Perpetual
