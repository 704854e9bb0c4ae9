import Perpetual.Solvency
import Mathlib.Algebra.Order.BigOperators.Group.Finset

/-! Final settlement pays the same in every order. A run of payouts leaves each account
waiting, known to be in debt, or closed, and what the contract still holds covers the
claims of the first two and the remaining margins of the third. -/
namespace Perpetual
namespace FinalSettlement
open Settlement FundingPool
variable {σ : Type}

def settledBalance (w : World σ) (account : Address) : Checked Balance := do
  let (balance,_) ← settleAccount (finalContext w.perpetual) account w
  return balance

/-- The settled value of a balance, in units of `10^-18` tokens. -/
def settledValue (w : World σ) (b : Balance) : Int := b.netValue w.perpetual.finalSettlementPrice.toNat

def exactValue (w : World σ) (a : Address) : Int :=
  10 ^ 18 * (w.perpetual.balances a).marginInt -
    (w.perpetual.globalIndex.toInt - (w.perpetual.localIndexes a).toInt) *
      (w.perpetual.balances a).positionInt +
    w.perpetual.finalSettlementPrice.toNat * (w.perpetual.balances a).positionInt

inductive Payouts (ledger : σ → Address → Nat) (this token : Address) (start : World σ) :
    List Address → World σ → Prop where
  | none : Payouts ledger this token start [] start
  | served {senders : List Address} {w w' : World σ} (before : Payouts ledger this token start senders w)
      (x : Externals σ) (msg : Msg) (allowed : PlainEnvironment ledger this token x msg)
      (ok : exec x msg .withdrawFinalSettlement w = .ok w') :
      Payouts ledger this token start (senders ++ [msg.sender]) w'
  | reverted {senders : List Address} {w : World σ} (before : Payouts ledger this token start senders w)
      (x : Externals σ) (msg : Msg) (allowed : PlainEnvironment ledger this token x msg)
      (reason : String) (failed : exec x msg .withdrawFinalSettlement w = .error reason) :
      Payouts ledger this token start senders w

def Paid (start w : World σ) (account : Address) : Prop :=
  ∃ amount balance, .withdrawFinalSettlement account amount balance ∈ w.logs.drop start.logs.length

theorem settledBalanceOk {w : World σ} {a : Address} {b : Balance} :
    settledBalance w a = .ok b ↔ ∃ w', settleAccount (finalContext w.perpetual) a w = .ok (b,w') := by
  simp only [settledBalance, Checked.bindOk, Prod.exists, Checked.pureOk]
  constructor
  · rintro ⟨b',w',ok,rfl⟩
    exact ⟨w',ok⟩
  · rintro ⟨w',ok⟩
    exact ⟨b,w',ok,rfl⟩

theorem settledLocal {v w : World σ} {a : Address}
    (context : finalContext w.perpetual = finalContext v.perpetual)
    (balance : w.perpetual.balances a = v.perpetual.balances a)
    (index : w.perpetual.localIndexes a = v.perpetual.localIndexes a) :
    settledBalance w a = settledBalance v a := by
  simp only [settledBalance, settleAccount, context, balance, index]
  split
  · rfl
  · split
    · rfl
    · cases indexDiff (finalContext v.perpetual).index (v.perpetual.localIndexes a) with
      | error reason => rfl
      | ok d =>
        change (applyFunding d (v.perpetual.balances a) >>= _ >>= _) = (applyFunding d _ >>= _ >>= _)
        cases applyFunding d (v.perpetual.balances a) with
        | error reason => rfl
        | ok out => rfl

theorem settledSkip {w : World σ} {a : Address}
    (time : (w.perpetual.localIndexes a).timestamp = w.perpetual.globalIndex.timestamp) :
    settledBalance w a = .ok (w.perpetual.balances a) := by
  refine settledBalanceOk.mpr ⟨w,?_⟩
  unfold settleAccount
  exact if_pos time

theorem settledBounds {token : Address} {w : World σ} {a : Address} {b : Balance}
    (ready : Ready token w.perpetual) (ok : settledBalance w a = .ok b) :
    settledValue w b ≤ exactValue w a := by
  obtain ⟨w',ok⟩ := settledBalanceOk.mp ok
  have settle := settled ok
  have position : b.positionInt = (w.perpetual.balances a).positionInt := by
    rw [Balance.positionInt, Balance.positionInt, settle.position, settle.positionIsPositive]
  obtain ⟨index,_,_,cases⟩ := settle.storage
  rcases cases with ⟨time,_,rfl⟩ | ⟨later,_⟩
  · simp only [settledValue, exactValue, Balance.netValue, ready.sameTime a time]
    linarith
  · have rounded := (settle.funding later).1
    simp only [finalContext] at rounded
    simp only [settledValue, exactValue, Balance.netValue, position]
    linarith

section
variable {ledger : σ → Address → Nat} {this token : Address}

structure Called (w w' : World σ) (sender : Address) : Prop where
  elsewhere : ∀ a ≠ sender, w'.perpetual.balances a = w.perpetual.balances a ∧
    w'.perpetual.localIndexes a = w.perpetual.localIndexes a
  time : (w'.perpetual.localIndexes sender).timestamp = w.perpetual.globalIndex.timestamp
  context : finalContext w'.perpetual = finalContext w.perpetual
  enabled : w'.perpetual.finalSettlementEnabled = true

inductive Outcome (ledger : σ → Address → Nat) (this : Address) (w w' : World σ) (sender : Address)
    (b : Balance) : Prop where
  | early (debt : settledValue w b < 0) (balance : w'.perpetual.balances sender = b)
      (tokens : w'.ext = w.ext)
      (logs : ∃ new, w'.logs = w.logs ++ new ∧ ∀ l ∈ new, l.isPayout = false)
  | paid (amount value : Nat) (floor : (value : Int) = settledValue w b / 10 ^ 18)
      (least : amount = min (ledger w.ext this) value)
      (margin : (w'.perpetual.balances sender).marginInt = value - amount)
      (position : (w'.perpetual.balances sender).positionInt = 0)
      (tokens : ledger w'.ext = moveTokens this sender amount (ledger w.ext))
      (logs : ∃ new n balance, w'.logs = w.logs ++ (new ++ [.withdrawFinalSettlement sender n balance]) ∧
        ∀ l ∈ new, l.isPayout = false)

theorem outcome {x : Externals σ} {msg : Msg} {w w' : World σ}
    (allowed : PlainEnvironment ledger this token x msg) (ready : Ready token w.perpetual)
    (ok : exec x msg .withdrawFinalSettlement w = .ok w') :
    Called w w' msg.sender ∧
      ∃ b, settledBalance w msg.sender = .ok b ∧ Outcome ledger this w w' msg.sender b := by
  have up : ∀ {b w₁}, settleAccount (finalContext w.perpetual) msg.sender (w.setStatus ENTERED) =
      .ok (b,w₁) → settledBalance w msg.sender = .ok b := by
    intro b w₁ settle
    rw [← settledLocal (v := w) (w := w.setStatus ENTERED) rfl rfl rfl]
    exact settledBalanceOk.mpr ⟨w₁,settle⟩
  have silent : ∀ {l : Log}, (∃ p m c, l = .accountSettled msg.sender p m c) → l.isPayout = false := by
    rintro l ⟨p,m,c,rfl⟩
    rfl
  cases paidOut ok with
  | @early b w₁ enabled settle debt =>
    have done := settled settle
    obtain ⟨index,storage,_⟩ := done.storage
    obtain ⟨new,logs,only⟩ := done.logs
    refine ⟨⟨fun a away => done.elsewhere away,done.here.2,?_,?_⟩,b,up settle,
      .early debt done.here.1 done.ext ⟨new,logs,fun l mem => silent (only l mem)⟩⟩
    · change finalContext w₁.perpetual = _
      rw [storage]; rfl
    · change w₁.perpetual.finalSettlementEnabled = true
      rw [storage]; exact enabled
  | @paid b rest w₁ w₂ held amount value enabled settle credit floor holds least restMargin
      restPosition push =>
    have done := settled settle
    obtain ⟨index,storage,_⟩ := done.storage
    obtain ⟨new,logs,only⟩ := done.logs
    have margin : w₁.perpetual.token = token := by rw [storage]; exact ready.token
    rw [margin] at holds push
    have exact := allowed.plain.balanceOf _ _ holds
    obtain ⟨ext,rfl,_,tokens⟩ := allowed.plain.transfer _ _ _ _ push
    have same : w₁.ext = w.ext := done.ext
    rw [exact, same] at least
    change ledger ext = moveTokens this msg.sender amount.toNat (ledger w₁.ext) at tokens
    rw [same] at tokens
    have here : (w₁.perpetual.setBalance msg.sender rest).balances msg.sender = rest :=
      Function.update_self _ _ _
    refine ⟨⟨fun a away => ?_,done.here.2,?_,?_⟩,b,up settle,
      .paid amount.toNat value floor least ?_ ?_ tokens
        ⟨new,amount,rest.toBytes32,?_,fun l mem => silent (only l mem)⟩⟩
    · have before := done.elsewhere away
      exact ⟨(Function.update_of_ne away _ _).trans before.1,before.2⟩
    · change finalContext (w₁.perpetual.setBalance msg.sender rest) = _
      rw [storage]; rfl
    · change w₁.perpetual.finalSettlementEnabled = true
      rw [storage]; exact enabled
    · change ((w₁.perpetual.setBalance msg.sender rest).balances msg.sender).marginInt = _
      rw [here, restMargin]
    · change ((w₁.perpetual.setBalance msg.sender rest).balances msg.sender).positionInt = _
      rw [here, restPosition]
    · change w₁.logs ++ [_] = _
      rw [logs, List.append_assoc]
      rfl

inductive Standing (ledger : σ → Address → Nat) (this : Address) (start w : World σ)
    (senders : List Address) (a : Address) : Int → Prop where
  | waiting (unserved : a ∉ senders) (unpaid : ¬ Paid start w a)
      (balance : w.perpetual.balances a = start.perpetual.balances a)
      (index : w.perpetual.localIndexes a = start.perpetual.localIndexes a)
      (tokens : a ≠ this → ledger w.ext a = ledger start.ext a) :
      Standing ledger this start w senders a (exactValue start a)
  | inDebt (unpaid : ¬ Paid start w a) (away : a ≠ this)
      (settle : settledBalance start a = .ok (w.perpetual.balances a))
      (debt : settledValue start (w.perpetual.balances a) < 0)
      (time : (w.perpetual.localIndexes a).timestamp = start.perpetual.globalIndex.timestamp)
      (tokens : ledger w.ext a = ledger start.ext a) :
      Standing ledger this start w senders a (exactValue start a)
  | closed (b : Balance) (away : a ≠ this) (settle : settledBalance start a = .ok b)
      (credit : 0 ≤ settledValue start b)
      (time : (w.perpetual.localIndexes a).timestamp = start.perpetual.globalIndex.timestamp)
      (position : (w.perpetual.balances a).positionInt = 0)
      (rest : 0 ≤ (w.perpetual.balances a).marginInt)
      (sum : (ledger w.ext a : Int) - ledger start.ext a + (w.perpetual.balances a).marginInt =
        settledValue start b / 10 ^ 18)
      (full : (∀ c, 0 ≤ exactValue start c) → (w.perpetual.balances a).marginInt = 0) :
      Standing ledger this start w senders a (10 ^ 18 * (w.perpetual.balances a).marginInt)

structure Progress (ledger : σ → Address → Nat) (this token : Address) (start : World σ)
    (senders : List Address) (w : World σ) (reserved : Address → Int) : Prop where
  ready : Ready token w.perpetual
  enabled : w.perpetual.finalSettlementEnabled = true
  context : finalContext w.perpetual = finalContext start.perpetual
  logs : start.logs <+: w.logs
  standing : ∀ a, Standing ledger this start w senders a (reserved a)
  covered : ∑ a, reserved a ≤ 10 ^ 18 * ledger w.ext this
  falls : ledger w.ext this ≤ ledger start.ext this

theorem Standing.nonneg {start w : World σ} {senders : List Address} {a : Address} {c : Int}
    (h : Standing ledger this start w senders a c) (solvent : ∀ b, 0 ≤ exactValue start b) : 0 ≤ c := by
  cases h with
  | waiting => exact solvent a
  | inDebt => exact solvent a
  | closed b apart settle credit time position rest sum full => exact Int.mul_nonneg (by decide) rest

theorem paidSince {start w w' : World σ} {new : List Log} (before : start.logs <+: w.logs)
    (logs : w'.logs = w.logs ++ new) (a : Address) :
    Paid start w' a ↔ Paid start w a ∨ ∃ n b, .withdrawFinalSettlement a n b ∈ new := by
  have split : w'.logs.drop start.logs.length = w.logs.drop start.logs.length ++ new := by
    rw [logs, List.drop_append_of_le_length before.length_le]
  simp only [Paid, split, List.mem_append]
  constructor
  · rintro ⟨n,b,old | fresh⟩
    · exact .inl ⟨n,b,old⟩
    · exact .inr ⟨n,b,fresh⟩
  · rintro (⟨n,b,old⟩ | ⟨n,b,fresh⟩)
    · exact ⟨n,b,.inl old⟩
    · exact ⟨n,b,.inr fresh⟩

theorem unpaidSilent {new : List Log} (silent : ∀ l ∈ new, l.isPayout = false) (a : Address) :
    ¬ ∃ n b, Log.withdrawFinalSettlement a n b ∈ new := by
  rintro ⟨n,b,mem⟩
  cases silent _ mem

theorem Outcome.elsewhere {start w w' : World σ} {a sender : Address} {b : Balance}
    (out : Outcome ledger this w w' sender b) (before : start.logs <+: w.logs) (away : a ≠ sender) :
    (a ≠ this → ledger w'.ext a = ledger w.ext a) ∧ (Paid start w' a ↔ Paid start w a) := by
  cases out with
  | early debt balance tokens logs =>
    obtain ⟨new,events,silent⟩ := logs
    refine ⟨fun _ => by rw [tokens],?_⟩
    rw [paidSince before events, or_iff_left (unpaidSilent silent a)]
  | paid amount value floor least margin position tokens logs =>
    obtain ⟨new,n,c,events,silent⟩ := logs
    refine ⟨fun apart => ?_,?_⟩
    · rw [tokens]
      simp only [moveTokens, Function.update_of_ne away, Function.update_of_ne apart]
    · rw [paidSince before events, or_iff_left]
      rintro ⟨m,d,mem⟩
      rcases List.mem_append.mp mem with early | last
      · exact unpaidSilent silent a ⟨m,d,early⟩
      · cases List.mem_singleton.mp last
        exact away rfl

theorem Outcome.falls {w w' : World σ} {sender : Address} {b : Balance}
    (out : Outcome ledger this w w' sender b) (outside : sender ≠ this) :
    ledger w'.ext this ≤ ledger w.ext this := by
  cases out with
  | early debt balance tokens logs => rw [tokens]
  | paid amount value floor least margin position tokens logs =>
    rw [tokens, tokensOut outside]
    exact Nat.sub_le _ _

theorem Standing.other {start w w' : World σ} {senders : List Address} {a sender : Address} {c : Int}
    (h : Standing ledger this start w senders a c) (away : a ≠ sender)
    (balance : w'.perpetual.balances a = w.perpetual.balances a)
    (index : w'.perpetual.localIndexes a = w.perpetual.localIndexes a)
    (tokens : a ≠ this → ledger w'.ext a = ledger w.ext a)
    (events : Paid start w' a ↔ Paid start w a) :
    Standing ledger this start w' (senders ++ [sender]) a c := by
  cases h with
  | waiting unserved unpaid same sameIndex held =>
    refine .waiting ?_ (fun p => unpaid (events.mp p)) (balance.trans same) (index.trans sameIndex)
      fun other => (tokens other).trans (held other)
    simp [unserved, away]
  | inDebt unpaid apart settle debt time held =>
    refine .inDebt (fun p => unpaid (events.mp p)) apart ?_ ?_ ?_ ((tokens apart).trans held)
    · rw [balance]; exact settle
    · rw [balance]; exact debt
    · rw [index]; exact time
  | closed b apart settle credit time position rest sum full =>
    rw [← balance]
    refine .closed b apart settle credit (by rw [index]; exact time) (by rw [balance]; exact position)
      (by rw [balance]; exact rest) ?_ (fun solvent => by rw [balance]; exact full solvent)
    rw [tokens apart, balance]
    exact sum

theorem Progress.price {start w : World σ} {senders : List Address} {reserved : Address → Int}
    (progress : Progress ledger this token start senders w reserved) (b : Balance) :
    settledValue w b = settledValue start b := by
  have same := congrArg Context.price progress.context
  change w.perpetual.finalSettlementPrice = start.perpetual.finalSettlementPrice at same
  rw [settledValue, settledValue, same]

theorem Progress.globalIndex {start w : World σ} {senders : List Address} {reserved : Address → Int}
    (progress : Progress ledger this token start senders w reserved) :
    w.perpetual.globalIndex = start.perpetual.globalIndex :=
  congrArg Context.index progress.context

theorem Progress.settledOnce {start w : World σ} {senders : List Address} {a : Address} {b : Balance}
    {reserved : Address → Int} (progress : Progress ledger this token start senders w reserved)
    (settle : settledBalance w a = .ok b)
    (time : (w.perpetual.localIndexes a).timestamp = start.perpetual.globalIndex.timestamp) :
    w.perpetual.balances a = b := by
  rw [settledSkip (time.trans (congrArg Index.timestamp progress.globalIndex.symm))] at settle
  exact Except.ok.inj settle

theorem settledAtFirst {start w : World σ} {senders : List Address} {a : Address} {b : Balance}
    {reserved : Address → Int} (progress : Progress ledger this token start senders w reserved)
    (settle : settledBalance w a = .ok b)
    (balance : w.perpetual.balances a = start.perpetual.balances a)
    (index : w.perpetual.localIndexes a = start.perpetual.localIndexes a) :
    settledBalance start a = .ok b := by
  rw [← settle]
  exact (settledLocal progress.context balance index).symm

theorem standingEarly {start w w' : World σ} {senders : List Address} {sender : Address}
    {reserved : Address → Int} {b : Balance}
    (progress : Progress ledger this token start senders w reserved) (outside : sender ≠ this)
    (settle : settledBalance w sender = .ok b)
    (time : (w'.perpetual.localIndexes sender).timestamp = start.perpetual.globalIndex.timestamp)
    (debt : settledValue start b < 0) (balance : w'.perpetual.balances sender = b)
    (tokens : w'.ext = w.ext) (unpaid : Paid start w' sender ↔ Paid start w sender) :
    Standing ledger this start w' (senders ++ [sender]) sender (reserved sender) := by
  have standing := progress.standing sender
  generalize reserved sender = c at standing
  cases standing with
  | waiting unserved before same sameIndex held =>
    refine .inDebt (fun p => before (unpaid.mp p)) outside ?_ (by rw [balance]; exact debt) time
      (by rw [tokens]; exact held outside)
    rw [balance]
    exact settledAtFirst progress settle same sameIndex
  | inDebt before apart settle₀ debt₀ time₀ held =>
    obtain rfl := progress.settledOnce settle time₀
    exact .inDebt (fun p => before (unpaid.mp p)) outside (by rw [balance]; exact settle₀)
      (by rw [balance]; exact debt) time (by rw [tokens]; exact held)
  | closed b₀ apart settle₀ credit₀ time₀ position rest sum full =>
    obtain rfl := progress.settledOnce settle time₀
    exfalso
    simp only [settledValue, Balance.netValue, position] at debt
    omega

theorem owedBefore {start w : World σ} {senders : List Address} {sender : Address}
    {reserved : Address → Int} {b : Balance} {value : Nat} (ready : Ready token start.perpetual)
    (progress : Progress ledger this token start senders w reserved) (outside : sender ≠ this)
    (settle : settledBalance w sender = .ok b)
    (floor : (value : Int) = settledValue start b / 10 ^ 18) :
    ∃ b₀, settledBalance start sender = .ok b₀ ∧ 0 ≤ settledValue start b₀ ∧
      (ledger w.ext sender : Int) - ledger start.ext sender + value = settledValue start b₀ / 10 ^ 18 ∧
      10 ^ 18 * (value : Int) ≤ reserved sender := by
  have credit : 0 ≤ settledValue start b := by omega
  have standing := progress.standing sender
  generalize reserved sender = c at standing
  cases standing with
  | waiting unserved before same sameIndex held =>
    have settle₀ := settledAtFirst progress settle same sameIndex
    have exact := settledBounds ready settle₀
    exact ⟨b,settle₀,credit,by rw [held outside]; omega,by omega⟩
  | inDebt before apart settle₀ debt₀ time₀ held =>
    obtain rfl := progress.settledOnce settle time₀
    exact absurd credit (by omega)
  | closed b₀ apart settle₀ credit₀ time₀ closedPosition rest sum full =>
    obtain rfl := progress.settledOnce settle time₀
    have whole : settledValue start (w.perpetual.balances sender) =
        10 ^ 18 * (w.perpetual.balances sender).marginInt := by
      rw [settledValue, Balance.netValue, closedPosition, Int.mul_zero, Int.add_zero]
    exact ⟨b₀,settle₀,credit₀,by omega,by omega⟩

theorem standingHere {start w w' : World σ} {senders : List Address} {sender : Address}
    {reserved : Address → Int} {b : Balance} (ready : Ready token start.perpetual)
    (progress : Progress ledger this token start senders w reserved) (outside : sender ≠ this)
    (settle : settledBalance w sender = .ok b) (called : Called w w' sender)
    (out : Outcome ledger this w w' sender b) :
    ∃ c, Standing ledger this start w' (senders ++ [sender]) sender c ∧
      c - reserved sender ≤ 10 ^ 18 * ((ledger w'.ext this : Int) - ledger w.ext this) := by
  have time : (w'.perpetual.localIndexes sender).timestamp = start.perpetual.globalIndex.timestamp := by
    rw [← progress.globalIndex]
    exact called.time
  cases out with
  | early debt balance tokens logs =>
    obtain ⟨new,events,silent⟩ := logs
    have unpaid : Paid start w' sender ↔ Paid start w sender := by
      rw [paidSince progress.logs events, or_iff_left (unpaidSilent silent sender)]
    rw [progress.price] at debt
    refine ⟨reserved sender,?_,by rw [tokens]; omega⟩
    exact standingEarly progress outside settle time debt balance tokens unpaid
  | paid amount value floor least margin position tokens logs =>
    rw [progress.price] at floor
    have gained : ledger w'.ext sender = ledger w.ext sender + amount := by
      rw [tokens]
      exact tokensIn outside.symm amount _
    have left : (ledger w'.ext this : Int) - ledger w.ext this = -amount := by
      rw [tokens, tokensOut outside]
      omega
    obtain ⟨b₀,settle₀,credit₀,sum,bounded⟩ := owedBefore ready progress outside settle floor
    rw [left]
    refine ⟨10 ^ 18 * (w'.perpetual.balances sender).marginInt,?_,by rw [margin]; omega⟩
    refine .closed b₀ outside settle₀ credit₀ time position (by omega) (by omega) fun solvent => ?_
    have one : reserved sender ≤ ∑ a, reserved a :=
      Finset.single_le_sum (fun a _ => (progress.standing a).nonneg solvent) (Finset.mem_univ sender)
    have covered := one.trans progress.covered
    clear one
    omega

theorem payoutProgress {start : World σ} {senders : List Address} {w : World σ}
    (ready : Ready token start.perpetual) (enabled : start.perpetual.finalSettlementEnabled = true)
    (solvent : ∑ a, exactValue start a ≤ 10 ^ 18 * ledger start.ext this)
    (run : Payouts ledger this token start senders w) :
    ∃ reserved, Progress ledger this token start senders w reserved := by
  induction run with
  | none =>
    refine ⟨exactValue start,ready,enabled,rfl,List.prefix_rfl,fun a => ?_,solvent,Nat.le_refl _⟩
    refine .waiting List.not_mem_nil ?_ rfl rfl fun _ => rfl
    rintro ⟨n,b,mem⟩
    rw [List.drop_length] at mem
    cases mem
  | reverted before x msg allowed reason failed ih => exact ih
  | @served senders w w' before x msg allowed ok ih =>
    obtain ⟨reserved,progress⟩ := ih
    obtain ⟨called,b,settle,out⟩ := outcome allowed progress.ready ok
    obtain ⟨c,here,change⟩ := standingHere ready progress allowed.outside settle called out
    obtain ⟨gained,followed⟩ := followed allowed.civil progress.ready ok
    refine ⟨Function.update reserved msg.sender c,followed.step.ready,called.enabled,
      called.context.trans progress.context,progress.logs.trans followed.logs,fun a => ?_,?_,
      (out.falls allowed.outside).trans progress.falls⟩
    · by_cases same : a = msg.sender
      · subst same
        rw [Function.update_self]
        exact here
      · rw [Function.update_of_ne same]
        obtain ⟨balance,index⟩ := called.elsewhere a same
        obtain ⟨tokens,events⟩ := out.elsewhere progress.logs same
        exact (progress.standing a).other same balance index tokens events
    · have total := sumAt (f := reserved) (g := Function.update reserved msg.sender c) msg.sender
        fun b away => Function.update_of_ne away _ _
      rw [Function.update_self] at total
      rw [total]
      linarith [progress.covered]

end

def received (ledger : σ → Address → Nat) (start w : World σ) (a : Address) : Int :=
  ledger w.ext a - ledger start.ext a

theorem reachableProgress {ledger : σ → Address → Nat} {this token : Address} {start w : World σ}
    (reachable : Reachable (PlainEnvironment ledger this token) (Grows ledger this) token start)
    (enabled : start.perpetual.finalSettlementEnabled = true) {senders : List Address}
    (run : Payouts ledger this token start senders w) :
    Ready token start.perpetual ∧ ∃ reserved, Progress ledger this token start senders w reserved := by
  obtain ⟨ready,sound⟩ := reachableReady reachable
  have covered : ∑ a, exactValue start a ≤ 10 ^ 18 * ledger start.ext this := by
    simpa only [Pool.owed, poolOf, enabled, if_true, unit, exactValue] using sound.solvent
  exact ⟨ready,payoutProgress ready enabled covered run⟩

/-- Whatever the order of the calls: no account gets more than its exact value; from its first
payout on, what it got and what it still holds add up to its settled value; and if no account
is in debt, every account with a call that did not revert got its settled value in full. -/
theorem payoutsInAnyOrder {ledger : σ → Address → Nat} {this token : Address} {start w : World σ}
    (reachable : Reachable (PlainEnvironment ledger this token) (Grows ledger this) token start)
    (enabled : start.perpetual.finalSettlementEnabled = true) {senders : List Address}
    (run : Payouts ledger this token start senders w) :
    (∀ a, 10 ^ 18 * received ledger start w a ≤ max 0 (exactValue start a)) ∧
    (∀ a, Paid start w a → ∃ b, settledBalance start a = .ok b ∧
      received ledger start w a + (w.perpetual.balances a).marginInt =
        settledValue start b / 10 ^ 18) ∧
    ((∀ a, 0 ≤ exactValue start a) → ∀ a ∈ senders, ∃ b, settledBalance start a = .ok b ∧
      received ledger start w a = max 0 (settledValue start b / 10 ^ 18)) := by
  obtain ⟨ready,reserved,progress⟩ := reachableProgress reachable enabled run
  unfold received
  refine ⟨fun a => ?_,fun a paid => ?_,fun solvent a served => ?_⟩
  · have standing := progress.standing a
    generalize reserved a = c at standing
    cases standing with
    | waiting unserved unpaid balance index tokens =>
      refine le_max_of_le_left ?_
      have falls := progress.falls
      by_cases same : a = this
      · rw [same]; omega
      · rw [tokens same]; omega
    | inDebt unpaid apart settle debt time tokens =>
      rw [tokens, sub_self, mul_zero]
      exact le_max_left _ _
    | closed b apart settle credit time position rest sum full =>
      have exact := settledBounds ready settle
      refine le_max_of_le_right ?_
      omega
  · have standing := progress.standing a
    generalize reserved a = c at standing
    cases standing with
    | waiting unserved unpaid => exact absurd paid unpaid
    | inDebt unpaid => exact absurd paid unpaid
    | closed b apart settle credit time position rest sum full => exact ⟨b,settle,sum⟩
  · have standing := progress.standing a
    generalize reserved a = c at standing
    cases standing with
    | waiting unserved => exact absurd served unserved
    | inDebt unpaid apart settle debt time tokens =>
      refine ⟨_,settle,?_⟩
      rw [tokens, sub_self, max_eq_left (by omega)]
    | closed b apart settle credit time position rest sum full =>
      have none := full solvent
      exact ⟨b,settle,by omega⟩

theorem settledRunPaysOut :
    let start := runAll settledRun startWorld
    let w := runAll [(⟨2,150⟩,.withdrawFinalSettlement),(⟨1,160⟩,.withdrawFinalSettlement),
      (⟨2,170⟩,.withdrawFinalSettlement)] start
    (∀ a, 10 ^ 18 * received id start w a ≤ max 0 (exactValue start a)) ∧
    (∀ a, Paid start w a → ∃ b, settledBalance start a = .ok b ∧
      received id start w a + (w.perpetual.balances a).marginInt = settledValue start b / 10 ^ 18) ∧
    ((∀ a, 0 ≤ exactValue start a) → ∀ a ∈ [2,1,2], ∃ b, settledBalance start a = .ok b ∧
      received id start w a = max 0 (settledValue start b / 10 ^ 18)) := by
  have outside : ∀ c ∈ settledRun, c.1.sender ≠ 7 := by decide
  have reachable : Reachable (PlainEnvironment id 7 8) (Grows id 7) 8 (runAll settledRun startWorld) :=
    runReachable _ fun c mem => plainEnvironment 7 8 _ _ (outside c mem)
  have first := Payouts.served .none sample ⟨2,150⟩ (plainEnvironment 7 8 _ _ (by decide))
    (show exec sample ⟨2,150⟩ .withdrawFinalSettlement (runAll settledRun startWorld) = .ok _ from rfl)
  have second := Payouts.served first sample ⟨1,160⟩ (plainEnvironment 7 8 _ _ (by decide)) rfl
  have third := Payouts.served second sample ⟨2,170⟩ (plainEnvironment 7 8 _ _ (by decide)) rfl
  exact payoutsInAnyOrder reachable (by decide +kernel) third

end FinalSettlement
end Perpetual
