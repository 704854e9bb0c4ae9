import Perpetual.LogReplay
import Perpetual.Passes

/-! An account's books, followed by the amounts in the logs: what moved its margin and its
position, and what an account that others trade around can lose. -/
namespace Perpetual
open Settlement
variable {σ : Type}

def Log.marginOf (account : Address) : Log → Int
  | .accountSettled settled isPositive amount _ => if settled = account then signed isPositive amount.toNat else 0
  | .deposit credited amount _ => if credited = account then amount.toNat else 0
  | .withdraw debited _ amount _ => if debited = account then -amount.toNat else 0
  | .trade maker taker _ marginAmount _ isBuy _ _ =>
      (if maker = account then signed isBuy marginAmount.toNat else 0) -
        if taker = account then signed isBuy marginAmount.toNat else 0
  | _ => 0

def Log.positionOf (account : Address) : Log → Int
  | .trade maker taker _ _ positionAmount isBuy _ _ =>
      (if taker = account then signed isBuy positionAmount.toNat else 0) -
        if maker = account then signed isBuy positionAmount.toNat else 0
  | _ => 0

def Log.transferOf (account : Address) : Log → Int
  | .deposit credited amount _ => if credited = account then amount.toNat else 0
  | .withdraw debited _ amount _ => if debited = account then -amount.toNat else 0
  | _ => 0

def Log.settles (account : Address) : Log → Bool
  | .accountSettled settled _ _ _ => settled = account
  | _ => false

def Log.trades (account : Address) : Log → Bool
  | .trade maker taker _ _ _ _ _ _ => maker = account || taker = account
  | _ => false

def Log.paysOut (account : Address) : Log → Bool
  | .withdrawFinalSettlement paid _ _ => paid = account
  | _ => false

/-- The account's balance with the funding up to the index `G`, in units of 10^-18. -/
def Storage.fundedTo (s : Storage) (account : Address) (G : Int) : Int :=
  10 ^ 18 * (s.balances account).marginInt -
    (G - (s.localIndexes account).toInt) * (s.balances account).positionInt

theorem Log.untradedPosition {account : Address} (l : Log) (untraded : l.trades account = false) :
    l.positionOf account = 0 := by
  cases l with
  | trade maker taker trader marginAmount positionAmount isBuy makerBalance takerBalance =>
    simp only [Log.trades, Bool.or_eq_false_iff, decide_eq_false_iff_not] at untraded
    rw [Log.positionOf, if_neg untraded.1, if_neg untraded.2, Int.sub_zero]
  | _ => rfl

def sumOf (read : Log → Int) (logs : List Log) : Int := (logs.map read).sum

@[simp] theorem sumOfNil (read : Log → Int) : sumOf read [] = 0 := rfl

theorem sumOfAppend (read : Log → Int) (first last : List Log) :
    sumOf read (first ++ last) = sumOf read first + sumOf read last := by
  simp only [sumOf, List.map_append, List.sum_append]

theorem sumOfOne (read : Log → Int) (log : Log) : sumOf read [log] = read log := Int.add_zero _

structure Accounted (account : Address) (w w' : World σ) (new : List Log) : Prop where
  logged : w'.logs = w.logs ++ new
  margin : (∀ l ∈ new, l.paysOut account = false) → (w'.perpetual.balances account).marginInt =
    (w.perpetual.balances account).marginInt + sumOf (Log.marginOf account) new
  position : (∀ l ∈ new, l.paysOut account = false) → (w'.perpetual.balances account).positionInt =
    (w.perpetual.balances account).positionInt + sumOf (Log.positionOf account) new
  value : (∀ l ∈ new, l.paysOut account = false) → (∀ l ∈ new, l.trades account = false) → ∀ G,
    let exact := w.perpetual.fundedTo account G + 10 ^ 18 * sumOf (Log.transferOf account) new
    w'.perpetual.fundedTo account G ≤ exact ∧
      exact ≤ w'.perpetual.fundedTo account G + (10 ^ 18 - 1) * new.countP (Log.settles account)

def AccountKept (account : Address) (w w' : World σ) : Prop := ∃ new, Accounted account w w' new

section
variable {account : Address} {w mid w' : World σ}

theorem Accounted.trans {first last : List Log} (before : Accounted account w mid first)
    (after : Accounted account mid w' last) : Accounted account w w' (first ++ last) where
  logged := by rw [after.logged, before.logged, List.append_assoc]
  margin unpaid := by
    obtain ⟨early,late⟩ := List.forall_mem_append.mp unpaid
    rw [after.margin late, before.margin early, sumOfAppend, Int.add_assoc]
  position unpaid := by
    obtain ⟨early,late⟩ := List.forall_mem_append.mp unpaid
    rw [after.position late, before.position early, sumOfAppend, Int.add_assoc]
  value unpaid untraded G := by
    obtain ⟨early,late⟩ := List.forall_mem_append.mp unpaid
    obtain ⟨earlier,later⟩ := List.forall_mem_append.mp untraded
    have one := before.value early earlier G
    have two := after.value late later G
    simp only [sumOfAppend, List.countP_append, Nat.cast_add] at one two ⊢
    omega

theorem Accounted.aside {new : List Log} (logged : w'.logs = w.logs ++ new)
    (balance : w'.perpetual.balances account = w.perpetual.balances account)
    (index : w'.perpetual.localIndexes account = w.perpetual.localIndexes account)
    (others : ∀ l ∈ new, l.marginOf account = 0 ∧ l.positionOf account = 0 ∧ l.transferOf account = 0) :
    Accounted account w w' new := by
  have none (read : Log → Int) (zero : ∀ l ∈ new, read l = 0) : sumOf read new = 0 :=
    List.sum_eq_zero fun _ mem => by
      obtain ⟨l,inside,rfl⟩ := List.mem_map.mp mem
      exact zero l inside
  refine ⟨logged,fun _ => ?_,fun _ => ?_,fun _ _ G => ?_⟩
  · rw [balance, none _ fun l mem => (others l mem).1, Int.add_zero]
  · rw [balance, none _ fun l mem => (others l mem).2.1, Int.add_zero]
  · rw [none _ fun l mem => (others l mem).2.2, Storage.fundedTo, Storage.fundedTo, balance, index]
    dsimp only
    omega

theorem Accounted.one {log : Log} (logged : w'.logs = w.logs ++ [log])
    (margin : (w'.perpetual.balances account).marginInt =
      (w.perpetual.balances account).marginInt + log.marginOf account)
    (position : (w'.perpetual.balances account).positionInt =
      (w.perpetual.balances account).positionInt + log.positionOf account)
    (value : log.trades account = false → ∀ G,
      let exact := w.perpetual.fundedTo account G + 10 ^ 18 * log.transferOf account
      w'.perpetual.fundedTo account G ≤ exact ∧
        exact ≤ w'.perpetual.fundedTo account G + (10 ^ 18 - 1) * if log.settles account then 1 else 0) :
    Accounted account w w' [log] := by
  refine ⟨logged,fun _ => ?_,fun _ => ?_,fun _ untraded G => ?_⟩
  · rw [sumOfOne, margin]
  · rw [sumOfOne, position]
  · rw [sumOfOne, List.countP_singleton, Nat.cast_ite, Nat.cast_one, Nat.cast_zero]
    exact value (untraded log List.mem_cons_self) G

theorem Accounted.paid {new : List Log} (logged : w'.logs = w.logs ++ new)
    (payout : ∃ l ∈ new, l.paysOut account = true) : Accounted account w w' new := by
  have not : ¬∀ l ∈ new, l.paysOut account = false := by
    obtain ⟨l,mem,paid⟩ := payout
    intro unpaid
    rw [unpaid l mem] at paid
    cases paid
  exact ⟨logged,fun unpaid => absurd unpaid not,fun unpaid => absurd unpaid not,
    fun unpaid => absurd unpaid not⟩

theorem Accounted.positionStays {new : List Log} (kept : Accounted account w w' new)
    (unpaid : ∀ l ∈ new, l.paysOut account = false) (untraded : ∀ l ∈ new, l.trades account = false) :
    (w'.perpetual.balances account).positionInt = (w.perpetual.balances account).positionInt := by
  rw [kept.position unpaid, sumOf, List.sum_eq_zero, Int.add_zero]
  intro _ mem
  obtain ⟨l,inside,rfl⟩ := List.mem_map.mp mem
  exact l.untradedPosition (untraded l inside)

theorem AccountKept.refl (w : World σ) : AccountKept account w w :=
  ⟨[],.aside (List.append_nil _).symm rfl rfl (List.forall_mem_nil _)⟩

theorem AccountKept.trans (before : AccountKept account w mid) (after : AccountKept account mid w') :
    AccountKept account w w' := by
  obtain ⟨first,before⟩ := before
  obtain ⟨last,after⟩ := after
  exact ⟨_,before.trans after⟩

theorem AccountKept.quiet (logged : w'.logs = w.logs) (balances : w'.perpetual.balances = w.perpetual.balances)
    (indexes : w'.perpetual.localIndexes = w.perpetual.localIndexes) : AccountKept account w w' :=
  ⟨[],.aside (by rw [logged, List.append_nil]) (congrFun balances account) (congrFun indexes account)
    (List.forall_mem_nil _)⟩

theorem AccountKept.emitted {log : Log} (logged : w'.logs = w.logs ++ [log])
    (balances : w'.perpetual.balances = w.perpetual.balances)
    (indexes : w'.perpetual.localIndexes = w.perpetual.localIndexes)
    (silent : log.marginOf account = 0 ∧ log.positionOf account = 0 ∧ log.transferOf account = 0) :
    AccountKept account w w' := by
  refine ⟨[log],.aside logged (congrFun balances account) (congrFun indexes account) fun l mem => ?_⟩
  cases List.mem_singleton.mp mem
  exact silent

theorem statusAccounted (w : World σ) (status : Uint256) : AccountKept account w (w.setStatus status) :=
  .quiet rfl rfl rfl

theorem AccountKept.guarded (kept : AccountKept account (w.setStatus ENTERED) w') :
    AccountKept account w (w'.setStatus NOT_ENTERED) :=
  (statusAccounted w ENTERED).trans (kept.trans (statusAccounted w' NOT_ENTERED))

variable (account) in
theorem externalAccounted {allow : σ → σ → Prop} (h : External allow w w')
    (entered : w.perpetual.status = ENTERED) :
    ∃ new, Accounted account w w' new ∧ ∀ l ∈ new, l.isOperator := by
  obtain ⟨new,explains,ofKind⟩ := externalExplained h entered
  have kept := h.untouched entered
  refine ⟨new,.aside explains.logged (congrFun kept.balances account) (congrFun kept.localIndexes account)
    fun l mem => ?_,ofKind⟩
  obtain ⟨sender,operator,approved,rfl⟩ := ofKind l mem
  exact ⟨rfl,rfl,rfl⟩

theorem loadAccounted {context : Context} (load : Loaded w context w') : AccountKept account w w' := by
  refine .emitted load.logs ?_ ?_ ⟨rfl,rfl,rfl⟩
  · rw [load.storage]
  · rw [load.storage]

theorem fundedAmount {d : SignedInt} {b out : Balance} {isPositive : Bool} {amount : Uint256}
    (ok : applyFunding d b = .ok (isPositive,amount,out)) :
    Balance.MarginMoved b out (signed isPositive amount.toNat) := by
  simp only [applyFunding] at ok
  split at ok
  · simp only [Checked.bindOk, Checked.pureOk, Prod.mk.injEq] at ok
    obtain ⟨a,_,out',add,rfl,rfl,rfl⟩ := ok
    rw [Signed.positive]
    exact Balance.addToMarginMoved add
  · simp only [Checked.bindOk, Checked.pureOk, Prod.mk.injEq] at ok
    obtain ⟨a,_,out',sub,rfl,rfl,rfl⟩ := ok
    rw [Signed.negative]
    exact Balance.subFromMarginMoved sub

theorem settleAside {context : Context} {other : Address} {b : Balance}
    (settle : Settled context other w b w') (away : account ≠ other) : AccountKept account w w' := by
  obtain ⟨new,logged,names⟩ := settle.logs
  have kept := settle.elsewhere away
  refine ⟨new,.aside logged kept.1 kept.2 fun l mem => ?_⟩
  obtain ⟨isPositive,amount,balance,rfl⟩ := names l mem
  exact ⟨if_neg away.symm,rfl,rfl⟩

theorem Storage.fundedFlat {t : Storage} (s : Storage) (balance : t.balances account = s.balances account)
    (flat : (s.balances account).position = 0) (G : Int) : t.fundedTo account G = s.fundedTo account G := by
  have none : (s.balances account).positionInt = 0 := by
    rw [Balance.positionInt, flat]
    exact ite_self _
  rw [Storage.fundedTo, Storage.fundedTo, balance, none, Int.mul_zero, Int.mul_zero]

theorem Storage.fundedMoved {s t : Storage} {amount : Int}
    (margin : (t.balances account).marginInt = (s.balances account).marginInt + amount)
    (position : (t.balances account).positionInt = (s.balances account).positionInt)
    (index : t.localIndexes account = s.localIndexes account) (G : Int) :
    t.fundedTo account G = s.fundedTo account G + 10 ^ 18 * amount := by
  rw [Storage.fundedTo, Storage.fundedTo, margin, position, index]
  omega

theorem settledHere {context : Context} {b : Balance} (settle : Settled context account w b w')
    (later : (w.perpetual.localIndexes account).timestamp ≠ context.index.timestamp) (G : Int) :
    w'.perpetual.fundedTo account G ≤ w.perpetual.fundedTo account G ∧
      w.perpetual.fundedTo account G ≤ w'.perpetual.fundedTo account G + (10 ^ 18 - 1) := by
  have here := settle.here.1
  have index : w'.perpetual.localIndexes account = context.index := by
    obtain ⟨index,same,_,moved⟩ := settle.storage
    rw [same, ← (moved.resolve_left fun still => later still.1).2]
    exact Function.update_self _ _ _
  have position : b.positionInt = (w.perpetual.balances account).positionInt := by
    rw [Balance.positionInt, Balance.positionInt, settle.position, settle.positionIsPositive]
  have funding := settle.funding later
  dsimp only at funding
  rw [Storage.fundedTo, Storage.fundedTo, here, index, position]
  rw [Int.sub_mul] at funding ⊢
  rw [Int.sub_mul]
  omega

variable (account) in
theorem settleAccounted {context : Context} {other : Address} {b : Balance}
    (ok : settleAccount context other w = .ok (b,w')) : AccountKept account w w' := by
  by_cases here : account = other
  · subst here
    have settle := settled ok
    simp only [settleAccount] at ok
    split at ok
    · cases Checked.pureOk.mp ok
      exact .refl w
    · rename_i later
      split at ok
      · rename_i flat
        cases Checked.pureOk.mp ok
        have same := Storage.fundedFlat w.perpetual (t := w.perpetual.setLocalIndex account context.index) rfl flat
        refine ⟨[],(List.append_nil _).symm,fun _ => (Int.add_zero _).symm,fun _ => (Int.add_zero _).symm,
          fun _ _ G => ?_⟩
        dsimp only [sumOfNil, List.countP_nil, World.write]
        rw [same G]
        omega
      · simp only [Checked.bindOk, Prod.exists, Checked.pureOk, Prod.mk.injEq] at ok
        obtain ⟨d,hd,isPositive,amount,out,applied,rfl,rfl⟩ := ok
        have moved := fundedAmount applied
        refine ⟨[_],.one rfl ?_ ?_ fun _ G => ?_⟩
        · rw [settle.here.1, moved.margin, Log.marginOf, if_pos rfl]
        · rw [settle.here.1, moved.positionInt]
          exact (Int.add_zero _).symm
        · have bounds := settledHere settle later G
          simp only [Log.transferOf, Log.settles, decide_true, if_true, Int.mul_zero, Int.add_zero, Int.mul_one]
          exact bounds
  · exact settleAside (settled ok) here

theorem settleAllAccounted {context : Context} {accounts : List Address} {balances : List Balance}
    (ok : settleAccounts context accounts w = .ok (balances,w')) : AccountKept account w w' := by
  induction accounts generalizing w balances with
  | nil =>
    cases Except.ok.inj ok
    exact .refl _
  | cons first rest ih =>
    simp only [settleAccounts, Checked.bindOk, Prod.exists, Checked.pureOk, Prod.mk.injEq] at ok
    obtain ⟨balance,mid,first,balances,last,others,rfl,rfl⟩ := ok
    exact (settleAccounted account first).trans (ih others)

theorem marginAmounts {other : Address} {balance out : Balance} {amount : Int} (balances : Address → Balance)
    (stored : balances other = balance) (moved : Balance.MarginMoved balance out amount) (account : Address) :
    let after := Function.update balances other out
    (after account).marginInt = (balances account).marginInt + (if other = account then amount else 0) ∧
      (after account).positionInt = (balances account).positionInt := by
  intro after
  by_cases here : other = account
  · subst here
    have written : after other = out := Function.update_self _ _ _
    rw [written, if_pos rfl, stored]
    exact ⟨moved.margin,moved.positionInt⟩
  · have elsewhere : after account = balances account := Function.update_of_ne (Ne.symm here) _ _
    rw [elsewhere, if_neg here, Int.add_zero]
    exact ⟨rfl,rfl⟩

variable (account) in
theorem marginAccounted {other : Address} {balance out : Balance} {amount : Int} (log : Log)
    (stored : w.perpetual.balances other = balance) (moved : Balance.MarginMoved balance out amount)
    (margin : log.marginOf account = if other = account then amount else 0)
    (transfer : log.transferOf account = if other = account then amount else 0)
    (position : log.positionOf account = 0) (unsettled : log.settles account = false) :
    AccountKept account w ((w.write fun s => s.setBalance other out).emit log) := by
  obtain ⟨after,same⟩ := marginAmounts w.perpetual.balances stored moved account
  refine ⟨[log],.one rfl ?_ ?_ fun _ G => ?_⟩
  · rw [margin]
    exact after
  · rw [position, Int.add_zero]
    exact same
  · have value := Storage.fundedMoved (s := w.perpetual) (t := w.perpetual.setBalance other out) after same rfl G
    rw [transfer, unsettled]
    dsimp only [World.emit, World.write]
    rw [value]
    omega

variable {allow : σ → σ → Prop} {x : Externals σ} {msg : Msg}

theorem depositAccounted (honest : Honest allow x) {other : Address} {amount : Uint256}
    (ok : Margin.deposit x msg other amount w = .ok w') : AccountKept account w w' := by
  obtain ⟨_,guarded⟩ := noFinalSettlementOk.mp ok
  obtain ⟨_,mid,body,rfl⟩ := nonReentrantOk.mp guarded
  simp only [Checked.bindOk, Prod.exists, Checked.pureOk] at body
  obtain ⟨context,w₁,load,balance,w₂,settle,w₃,pull,out,add,rfl⟩ := body
  have entered : w₂.perpetual.status = ENTERED := (settled settle).status.trans (loaded load).status
  have external := honest.pulls _ _ _ _ _ pull
  obtain ⟨new,called,_⟩ := externalAccounted account external entered
  have stored : w₃.perpetual.balances other = balance := by
    rw [(external.untouched entered).balances, (settled settle).here.1]
  have credited := marginAccounted account (.deposit other amount out.toBytes32) stored
    (Balance.addToMarginMoved add) rfl rfl rfl rfl
  have mid := (settleAccounted account settle).trans (.trans ⟨new,called⟩ credited)
  exact .guarded ((loadAccounted (loaded load)).trans mid)

theorem withdrawAccounted (honest : Honest allow x) {other destination : Address} {amount : Uint256}
    (ok : Margin.withdraw x msg other destination amount w = .ok w') : AccountKept account w w' := by
  obtain ⟨_,guarded⟩ := noFinalSettlementOk.mp ok
  obtain ⟨_,mid,body,rfl⟩ := nonReentrantOk.mp guarded
  simp only [Checked.bindOk, Checked.requireOk, exists_const, Prod.exists, Checked.pureOk] at body
  obtain ⟨_,context,w₁,load,balance,w₂,settle,w₃,push,out,sub,_,_,_,rfl⟩ := body
  have entered : w₂.perpetual.status = ENTERED := (settled settle).status.trans (loaded load).status
  have external := honest.pushes _ _ _ _ _ push
  obtain ⟨new,called,_⟩ := externalAccounted account external entered
  have stored : w₃.perpetual.balances other = balance := by
    rw [(external.untouched entered).balances, (settled settle).here.1]
  have debited := marginAccounted account (.withdraw other destination amount out.toBytes32) stored
    (Balance.subFromMarginMoved sub) rfl rfl rfl rfl
  have mid := (settleAccounted account settle).trans (.trans ⟨new,called⟩ debited)
  exact .guarded ((loadAccounted (loaded load)).trans mid)

theorem exchangeAmounts {maker taker : Address} {m t m' t' : Balance} {result : TradeResult}
    (balances : Address → Balance) (different : maker ≠ taker) (makerStored : balances maker = m)
    (takerStored : balances taker = t) (moved : Trade.Applied result m t m' t') (account trader : Address)
    (makerBalance takerBalance : Bytes32) :
    let log : Log := .trade maker taker trader result.marginAmount result.positionAmount result.isBuy makerBalance
      takerBalance
    let after := Function.update (Function.update balances maker m') taker t'
    (after account).marginInt = (balances account).marginInt + log.marginOf account ∧
      (after account).positionInt = (balances account).positionInt + log.positionOf account := by
  intro log after
  have ofMaker : after maker = m' := (Function.update_of_ne different _ _).trans (Function.update_self _ _ _)
  have ofTaker : after taker = t' := Function.update_self _ _ _
  rw [Log.marginOf, Log.positionOf]
  by_cases isMaker : maker = account
  · subst isMaker
    rw [ofMaker, if_pos rfl, if_pos rfl, if_neg different.symm, if_neg different.symm, Int.sub_zero, Int.zero_sub,
      makerStored]
    exact ⟨moved.makerMargin,moved.makerPosition.trans Int.sub_eq_add_neg⟩
  · by_cases isTaker : taker = account
    · subst isTaker
      rw [ofTaker, if_neg different, if_neg different, if_pos rfl, if_pos rfl, Int.sub_zero, Int.zero_sub, takerStored]
      exact ⟨moved.takerMargin.trans Int.sub_eq_add_neg,moved.takerPosition⟩
    · have elsewhere : after account = balances account :=
        (Function.update_of_ne (Ne.symm isTaker) _ _).trans (Function.update_of_ne (Ne.symm isMaker) _ _)
      rw [elsewhere, if_neg isMaker, if_neg isMaker, if_neg isTaker, if_neg isTaker, Int.sub_zero, Int.add_zero,
        Int.add_zero]
      exact ⟨rfl,rfl⟩

theorem exchangeAccounted {maker taker : Address} {m t m' t' : Balance} {result : TradeResult}
    (different : maker ≠ taker) (makerStored : w.perpetual.balances maker = m)
    (takerStored : w.perpetual.balances taker = t) (moved : Trade.Applied result m t m' t') (trader : Address) :
    AccountKept account w ((w.write fun s => (s.setBalance maker m').setBalance taker t').emit
      (.trade maker taker trader result.marginAmount result.positionAmount result.isBuy m'.toBytes32
        t'.toBytes32)) := by
  obtain ⟨margin,position⟩ := exchangeAmounts w.perpetual.balances different makerStored takerStored moved account
    trader m'.toBytes32 t'.toBytes32
  refine ⟨[_],.one rfl margin position fun untraded G => ?_⟩
  rw [Log.trades, Bool.or_eq_false_iff, decide_eq_false_iff_not, decide_eq_false_iff_not] at untraded
  obtain ⟨notMaker,notTaker⟩ := untraded
  rw [Log.marginOf, if_neg notMaker, if_neg notTaker] at margin
  rw [Log.positionOf, if_neg notMaker, if_neg notTaker, Int.sub_zero, Int.add_zero] at position
  have value := Storage.fundedMoved (s := w.perpetual)
    (t := (w.perpetual.setBalance maker m').setBalance taker t') margin position rfl G
  simp only [Log.transferOf, Log.settles, World.emit, World.write]
  omega

theorem passAccounted (traders : Traders allow x) {context : Context} {accounts : List Address}
    {s s' : Trade.Batch σ} {tradeArg : TradeArg} (inStep : Trade.InStep context accounts s)
    (ok : Trade.tradeOne x msg context accounts s tradeArg = .ok s') :
    AccountKept account s.world s'.world := by
  simp only [Trade.tradeOne, Checked.bindOk, Checked.requireOk, Checked.atOk, Prod.exists, exists_const] at ok
  obtain ⟨_,maker,atMaker,taker,atTaker,result,called,trade,ok⟩ := ok
  have external := traders _ _ _ _ _ trade
  have kept := external.untouched inStep.status
  obtain ⟨new,call,_⟩ := externalAccounted account external inStep.status
  split at ok
  · cases Checked.pureOk.mp ok
    exact ⟨new,call⟩
  · rename_i different
    simp only [Checked.bindOk, Checked.atOk, Prod.exists, Checked.pureOk] at ok
    obtain ⟨m,makerBalance,t,takerBalance,m',t',moves,rfl⟩ := ok
    have makerStored : called.perpetual.balances maker = m := by
      rw [kept.balances]
      exact (inStep.stored atMaker makerBalance).symm
    have takerStored : called.perpetual.balances taker = t := by
      rw [kept.balances]
      exact (inStep.stored atTaker takerBalance).symm
    exact .trans ⟨new,call⟩ (exchangeAccounted different makerStored takerStored (Trade.applied moves) _)

theorem tradeAccounted (traders : Traders allow x) {accounts : List Address} {trades : List TradeArg}
    (ok : Trade.trade x msg accounts trades w = .ok w') : AccountKept account w w' := by
  cases batchTraded ok with
  | @done context initialBalances w₁ w₂ batch live unique load settle start ran verified =>
    have loop := Checked.loopKeeps
      (P := fun s : Trade.Batch σ => Trade.InStep context accounts s ∧ AccountKept account w₂ s.world)
      (fun s tradeArg s' _ before pass => ⟨Trade.inStepPass traders unique before.1 pass,
        before.2.trans (passAccounted traders before.1 pass)⟩) ran ⟨start,.refl _⟩
    exact .guarded ((loadAccounted (loaded load)).trans ((settleAllAccounted settle).trans loop.2))

theorem payoutAccounted (honest : Honest allow x)
    (ok : FinalSettlement.withdrawFinalSettlement x msg w = .ok w') : AccountKept account w w' := by
  cases paidOut ok with
  | @early balance w₁ enabled settle debt => exact .guarded (settleAccounted account settle)
  | @paid balance rest w₁ w₂ held amount value enabled settle credit floor holds least restMargin restPosition push =>
    have entered : w₁.perpetual.status = ENTERED := (settled settle).status
    have external := honest.pushes _ _ _ _ _ push
    obtain ⟨settles,settle⟩ := settleAccounted account settle
    obtain ⟨calls,called,_⟩ := externalAccounted account external entered
    let log : Log := .withdrawFinalSettlement msg.sender amount rest.toBytes32
    have logged : (w₂.emit log).logs = w₁.logs ++ (calls ++ [log]) := by
      rw [World.emit, called.logged]
      exact List.append_assoc _ _ _
    by_cases here : msg.sender = account
    · refine .guarded (.trans ⟨settles,settle⟩ ⟨calls ++ [log],.paid logged ⟨log,?_,decide_eq_true here⟩⟩)
      exact List.mem_append_right _ List.mem_cons_self
    · refine .guarded (.trans ⟨settles,settle⟩ (.trans ?_ (.trans ⟨calls,called⟩ ⟨[log],.aside rfl rfl rfl ?_⟩)))
      · exact ⟨[],.aside (List.append_nil _).symm (Function.update_of_ne (Ne.symm here) _ _) rfl
          (List.forall_mem_nil _)⟩
      · intro l mem
        cases List.mem_singleton.mp mem
        exact ⟨rfl,rfl,rfl⟩

theorem execAccounted (honest : Honest allow x) {entry : Entry} (ok : exec x msg entry w = .ok w') :
    AccountKept account w w' := by
  cases entry with
  | deposit other amount => exact depositAccounted honest ok
  | withdraw other destination amount => exact withdrawAccounted honest ok
  | trade accounts trades => exact tradeAccounted honest.traders ok
  | withdrawFinalSettlement => exact payoutAccounted honest ok
  | enableFinalSettlement lower upper =>
    cases enabled ok with
    | @done context w₁ live load => exact .guarded ((loadAccounted load).trans (.emitted rfl rfl rfl ⟨rfl,rfl,rfl⟩))
  | initializeV1 token oracle funder minCollateral =>
    have done := initialized ok
    exact .quiet done.logs done.balances done.localIndexes
  | setGlobalOperator operator approved =>
    obtain ⟨_,guarded⟩ := onlyAdminOk.mp ok
    obtain ⟨_,mid,body,rfl⟩ := nonReentrantOk.mp guarded
    cases Checked.pureOk.mp body
    exact .emitted rfl rfl rfl ⟨rfl,rfl,rfl⟩
  | setOracle oracle =>
    obtain ⟨_,guarded⟩ := onlyAdminOk.mp ok
    obtain ⟨_,mid,body,rfl⟩ := nonReentrantOk.mp guarded
    simp only [Checked.bindOk, Checked.requireOk, exists_const, Checked.pureOk] at body
    obtain ⟨_,_,_,rfl⟩ := body
    exact .emitted rfl rfl rfl ⟨rfl,rfl,rfl⟩
  | setFunder funder =>
    obtain ⟨_,guarded⟩ := onlyAdminOk.mp ok
    obtain ⟨_,mid,body,rfl⟩ := nonReentrantOk.mp guarded
    simp only [Checked.bindOk, Checked.pureOk] at body
    obtain ⟨_,_,rfl⟩ := body
    exact .emitted rfl rfl rfl ⟨rfl,rfl,rfl⟩
  | setMinCollateral minCollateral =>
    obtain ⟨_,guarded⟩ := onlyAdminOk.mp ok
    obtain ⟨_,mid,body,rfl⟩ := nonReentrantOk.mp guarded
    simp only [Checked.bindOk, Checked.requireOk, exists_const, Checked.pureOk] at body
    obtain ⟨_,rfl⟩ := body
    exact .emitted rfl rfl rfl ⟨rfl,rfl,rfl⟩
  | setLocalOperator operator approved =>
    cases Except.ok.inj ok
    exact .emitted rfl rfl rfl ⟨rfl,rfl,rfl⟩

variable (account) in
theorem runAccounted {others : σ → σ → Prop}
    (run : Relation.ReflTransGen (Transaction AnyEnvironment others) w w') : AccountKept account w w' := by
  induction run with
  | refl => exact .refl w
  | @tail mid w' _ last ih =>
    refine ih.trans ?_
    cases last with
    | call x msg entry honest =>
      unfold perform
      cases result : exec x msg entry mid with
      | error reason => exact .refl mid
      | ok w' => exact execAccounted honest result
    | elsewhere ext allowed => exact .quiet rfl rfl rfl

theorem amountsTellTheBooks {others : σ → σ → Prop} (account : Address)
    (run : Relation.ReflTransGen (Transaction AnyEnvironment others) w w') :
    ∃ new, w'.logs = w.logs ++ new ∧ ((∀ l ∈ new, l.paysOut account = false) →
      (w'.perpetual.balances account).marginInt =
        (w.perpetual.balances account).marginInt + sumOf (Log.marginOf account) new ∧
      (w'.perpetual.balances account).positionInt =
        (w.perpetual.balances account).positionInt + sumOf (Log.positionOf account) new) := by
  obtain ⟨new,kept⟩ := runAccounted account run
  exact ⟨new,kept.logged,fun unpaid => ⟨kept.margin unpaid,kept.position unpaid⟩⟩

theorem settledRunAdds : let w := runAll settledRun startWorld
    (w.perpetual.balances 1).marginInt = sumOf (Log.marginOf 1) w.logs ∧
      (w.perpetual.balances 1).positionInt = sumOf (Log.positionOf 1) w.logs := by
  obtain ⟨new,logged,told⟩ := amountsTellTheBooks 1 (runTransactions settledRun startWorld)
  obtain rfl : (runAll settledRun startWorld).logs = new := logged
  obtain ⟨margin,position⟩ := told (by decide +kernel)
  exact ⟨margin.trans (Int.zero_add _),position.trans (Int.zero_add _)⟩

/-- An account that nobody trades with or pays out keeps its position, and its funded balance moves
by what was paid in or taken out, less than a unit of margin rounded away in each of its settlements. -/
theorem bystanderKeepsItsValue {others : σ → σ → Prop} (account : Address) (G : Int)
    (run : Relation.ReflTransGen (Transaction AnyEnvironment others) w w') :
    ∃ new, w'.logs = w.logs ++ new ∧ ((∀ l ∈ new, l.paysOut account = false) →
      (∀ l ∈ new, l.trades account = false) →
      (w'.perpetual.balances account).positionInt = (w.perpetual.balances account).positionInt ∧
      let exact := w.perpetual.fundedTo account G + 10 ^ 18 * sumOf (Log.transferOf account) new
      w'.perpetual.fundedTo account G ≤ exact ∧
        exact ≤ w'.perpetual.fundedTo account G + (10 ^ 18 - 1) * new.countP (Log.settles account)) := by
  obtain ⟨new,kept⟩ := runAccounted account run
  exact ⟨new,kept.logged,fun unpaid untraded => ⟨kept.positionStays unpaid untraded,kept.value unpaid untraded G⟩⟩

def raised : Externals (Address → Nat) := { sample with getFunding := fun _ _ _ => .ok (true,BaseMath.BASE / 7) }

def beforeRaise : World (Address → Nat) := runAll (settledRun.take 4) startWorld

def afterRaise : World (Address → Nat) := perform raised ⟨1,135⟩ (.deposit 2 5) beforeRaise

theorem raisedBystander :
    (afterRaise.perpetual.balances 2).positionInt = (beforeRaise.perpetual.balances 2).positionInt ∧
    let exact := beforeRaise.perpetual.fundedTo 2 0 + 10 ^ 18 * 5
    afterRaise.perpetual.fundedTo 2 0 ≤ exact ∧ exact ≤ afterRaise.perpetual.fundedTo 2 0 + (10 ^ 18 - 1) := by
  have plain : Honest (fun _ _ => True) sample := plainHonest 7 _ _
  have honest : AnyEnvironment raised ⟨1,135⟩ := ⟨plain.traders,plain.pulls,plain.pushes⟩
  have run : Relation.ReflTransGen (Transaction AnyEnvironment fun _ _ => True) beforeRaise afterRaise :=
    .single (.call beforeRaise raised ⟨1,135⟩ (.deposit 2 5) honest)
  obtain ⟨new,logged,told⟩ := bystanderKeepsItsValue 2 0 run
  obtain rfl : afterRaise.logs.drop beforeRaise.logs.length = new := by rw [logged, List.drop_left]
  obtain ⟨position,value⟩ := told (by decide +kernel) (by decide +kernel)
  have five : sumOf (Log.transferOf 2) (afterRaise.logs.drop beforeRaise.logs.length) = 5 := by decide +kernel
  have once : (afterRaise.logs.drop beforeRaise.logs.length).countP (Log.settles 2) = 1 := by decide +kernel
  rw [five, once] at value
  exact ⟨position,value.1,value.2⟩

end

end Perpetual
