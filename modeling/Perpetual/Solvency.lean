import Perpetual.Books

/-! Every call of PerpetualV1 is a run of the pool's moves, so the pool's invariants
hold of every state that transactions can reach. -/
namespace Perpetual
open Settlement FundingPool Relation
variable {σ : Type}

def moveTokens (sender recipient : Address) (amount : Nat) (balances : Address → Nat) : Address → Nat :=
  let taken := Function.update balances sender (balances sender - amount)
  Function.update taken recipient (taken recipient + amount)

theorem tokensIn {sender this : Address} (outside : sender ≠ this) (amount : Nat)
    (balances : Address → Nat) :
    moveTokens sender this amount balances this = balances this + amount := by
  simp [moveTokens, Function.update_of_ne outside.symm]

theorem tokensOut {this recipient : Address} (outside : recipient ≠ this) (amount : Nat)
    (balances : Address → Nat) :
    moveTokens this recipient amount balances this = balances this - amount := by
  simp [moveTokens, Function.update_of_ne outside.symm]

theorem tokensKept (this recipient : Address) {amount : Nat} {balances : Address → Nat}
    (enough : amount ≤ balances this) :
    balances this - amount ≤ moveTokens this recipient amount balances this := by
  by_cases same : recipient = this
  · subst same
    simp [moveTokens]
  · rw [tokensOut same]

structure PlainToken (ledger : σ → Address → Nat) (this token : Address) (x : Externals σ) :
    Prop where
  balanceOf : ∀ w held, x.balanceOf token w = .ok held → held.toNat = ledger w.ext this
  transferFrom : ∀ sender amount w w', x.transferFrom token sender amount w = .ok w' →
    ∃ ext, w' = { w with ext := ext } ∧ amount.toNat ≤ ledger w.ext sender ∧
      ledger ext = moveTokens sender this amount.toNat (ledger w.ext)
  transfer : ∀ recipient amount w w', x.transfer token recipient amount w = .ok w' →
    ∃ ext, w' = { w with ext := ext } ∧ amount.toNat ≤ ledger w.ext this ∧
      ledger ext = moveTokens this recipient amount.toNat (ledger w.ext)

structure Civil (allow : σ → σ → Prop) (token : Address) (x : Externals σ) : Prop where
  traders : Traders allow x
  pulls : ∀ sender amount w w',
    x.transferFrom token sender amount w = .ok w' → External (fun _ _ => True) w w'
  pushes : ∀ recipient amount w w',
    x.transfer token recipient amount w = .ok w' → External (fun _ _ => True) w w'

def Log.isPayout : Log → Bool
  | .withdrawFinalSettlement _ _ _ => true
  | _ => false

def Unpaid (logs : List Log) : Prop := ∀ l ∈ logs, l.isPayout = false

instance (logs : List Log) : Decidable (Unpaid logs) :=
  inferInstanceAs (Decidable (∀ l ∈ logs, l.isPayout = false))

def Grows (ledger : σ → Address → Nat) (this : Address) (e e' : σ) : Prop :=
  ledger e this ≤ ledger e' this

theorem Grows.refl (ledger : σ → Address → Nat) (this : Address) (e : σ) : Grows ledger this e e :=
  Nat.le_refl _

theorem Grows.trans {ledger : σ → Address → Nat} {this : Address} {a b c : σ}
    (first : Grows ledger this a b) (last : Grows ledger this b c) : Grows ledger this a c :=
  Nat.le_trans first last

section
variable {ledger : σ → Address → Nat} {this token : Address} {x : Externals σ} {msg : Msg}

structure Followed (ledger : σ → Address → Nat) (this token : Address) (x : Externals σ) (msg : Msg)
    (w w' : World σ) (gained : Int) : Prop where
  logs : w.logs <+: w'.logs
  step : Follows (Pool.Step unit) token w.perpetual w'.perpetual gained
  quiet : Unpaid w'.logs → Follows (Pool.Quiet unit) token w.perpetual w'.perpetual gained
  tokens : PlainToken ledger this token x → msg.sender ≠ this →
    (ledger w.ext this : Int) + gained ≤ ledger w'.ext this

structure Opened (token : Address) (w w' : World σ) : Prop where
  follows : Follows (Pool.Quiet unit) token w.perpetual w'.perpetual 0
  logs : w.logs <+: w'.logs
  ext : w'.ext = w.ext
  status : w'.perpetual.status = ENTERED

theorem Settlement.Settled.opened {context : Context} {account : Address} {w w' : World σ} {b : Balance}
    (settle : Settled context account w b w') (ready : Ready token w.perpetual)
    (global : w.perpetual.globalIndex = context.index) (entered : w.perpetual.status = ENTERED) :
    Opened token w w' := by
  obtain ⟨new,logs,_⟩ := settle.logs
  exact ⟨settleFollows ready global settle,logs ▸ List.prefix_append _ _,settle.ext,
    settle.status.trans entered⟩

theorem Settlement.SettledAll.opened {context : Context} {accounts : List Address} {w w' : World σ}
    {balances : List Balance} (settle : SettledAll context accounts w balances w')
    (ready : Ready token w.perpetual) (global : w.perpetual.globalIndex = context.index)
    (entered : w.perpetual.status = ENTERED) : Opened token w w' := by
  have logs : w.logs <+: w'.logs := by
    refine settle.keeps (fun w w' => w.logs <+: w'.logs) (fun _ => List.prefix_rfl) .trans fun head => ?_
    obtain ⟨new,logs,_⟩ := head.logs
    exact logs ▸ List.prefix_append _ _
  exact ⟨settleAllFollows ready global settle,logs,settledExt settle,settle.status.trans entered⟩

theorem Opened.trans {w₁ w₂ w₃ : World σ} (first : Opened token w₁ w₂) (last : Opened token w₂ w₃) :
    Opened token w₁ w₃ :=
  ⟨first.follows.andThen last.follows,first.logs.trans last.logs,last.ext.trans first.ext,last.status⟩

theorem Settlement.Loaded.opened {context : Context} {w w' : World σ} (load : Loaded (w.setStatus ENTERED) context w')
    (ready : Ready token w.perpetual) (live : w.perpetual.finalSettlementEnabled = false) :
    Opened token w w' ∧ w'.perpetual.globalIndex = context.index := by
  have up : Follows (Pool.Quiet unit) token w.perpetual (w.setStatus ENTERED).perpetual 0 :=
    .books ready (statusBooks w ENTERED)
  refine ⟨⟨up.andThen (loadFollows up.ready live load),?_,load.ext,load.status⟩,?_⟩
  · rw [load.logs]; exact List.prefix_append _ _
  · rw [load.storage]

theorem accountOpened {context : Context} {account : Address} {balance : Balance} {w w₁ w₂ : World σ}
    (ready : Ready token w.perpetual) (live : w.perpetual.finalSettlementEnabled = false)
    (load : Loaded (w.setStatus ENTERED) context w₁) (settle : Settled context account w₁ balance w₂) :
    Opened token w w₂ := by
  obtain ⟨loadedIn,global⟩ := load.opened ready live
  exact loadedIn.trans (settle.opened loadedIn.follows.ready global loadedIn.status)

theorem marginFollowed {context : Context} {account : Address} {balance out : Balance} {amount : Int}
    {w w₁ w₂ w₃ : World σ} (opened : Opened token w w₂) (settle : Settled context account w₁ balance w₂)
    (external : External (fun _ _ => True) w₂ w₃) (moved : Balance.MarginMoved balance out amount) (log : Log) :
    let w' := ((w₃.write fun s => s.setBalance account out).emit log).setStatus NOT_ENTERED
    w.logs <+: w'.logs ∧ Follows (Pool.Quiet unit) token w.perpetual w'.perpetual amount := by
  have kept := external.untouched opened.status
  have stored : w₃.perpetual.balances account = balance := by rw [kept.balances]; exact settle.here.1
  have mid := opened.follows.thenBooks kept.books
  have follows := mid.andThen (depositFollows mid.ready (stored ▸ moved))
  refine ⟨?_,follows.thenBooks (statusBooks (w₃.write fun s => s.setBalance account out) NOT_ENTERED)⟩
  exact (opened.logs.trans (external.logged opened.status)).trans (List.prefix_append _ _)

theorem depositFollowed {account : Address} {amount : Uint256} {w w' : World σ}
    (civil : Civil (Grows ledger this) token x) (ready : Ready token w.perpetual)
    (call : Deposited x msg account amount w w') :
    Followed ledger this token x msg w w' amount.toNat := by
  cases call with
  | @done context balance out w₁ w₂ w₃ live load settle pull moved =>
    have opened := accountOpened ready live load settle
    rw [opened.follows.ready.token] at pull
    obtain ⟨logs,last⟩ := marginFollowed opened settle (civil.pulls _ _ _ _ pull) moved
      (.deposit account amount out.toBytes32)
    refine ⟨logs,last.anyStep,fun _ => last,fun plain outside => ?_⟩
    obtain ⟨ext,rfl,enough,after⟩ := plain.transferFrom _ _ _ _ pull
    have same : w₂.ext = w.ext := opened.ext
    change (ledger w.ext this : Int) + amount.toNat ≤ ledger ext this
    rw [after, tokensIn outside, same]
    omega

theorem withdrawFollowed {account destination : Address} {amount : Uint256} {w w' : World σ}
    (civil : Civil (Grows ledger this) token x) (ready : Ready token w.perpetual)
    (call : Withdrawn x msg account destination amount w w') :
    Followed ledger this token x msg w w' (-amount.toNat) := by
  cases call with
  | @done context balance out w₁ w₂ w₃ live permission load settle push moved collateralized =>
    have opened := accountOpened ready live (loaded load) settle
    rw [opened.follows.ready.token] at push
    obtain ⟨logs,last⟩ := marginFollowed opened settle (civil.pushes _ _ _ _ push) moved
      (.withdraw account destination amount out.toBytes32)
    refine ⟨logs,last.anyStep,fun _ => last,fun plain _ => ?_⟩
    obtain ⟨ext,rfl,enough,after⟩ := plain.transfer _ _ _ _ push
    have same : w₂.ext = w.ext := opened.ext
    have left := tokensKept this destination enough
    rw [same] at left enough
    change (ledger w.ext this : Int) + -amount.toNat ≤ ledger ext this
    rw [after, same]
    omega

structure InLoop (ledger : σ → Address → Nat) (this token : Address) (context : Context)
    (accounts : List Address) (start : World σ) (s : Trade.Batch σ) : Prop where
  inStep : Trade.InStep context accounts s
  follows : Follows (Pool.Quiet unit) token start.perpetual s.world.perpetual 0
  logs : start.logs <+: s.world.logs
  grows : Grows ledger this start.ext s.world.ext

theorem inLoopPass (traders : Traders (Grows ledger this) x) {context : Context}
    {accounts : List Address} (unique : accounts.Nodup) {start : World σ} {s s' : Trade.Batch σ}
    {tradeArg : TradeArg} (inLoop : InLoop ledger this token context accounts start s)
    (ok : Trade.tradeOne x msg context accounts s tradeArg = .ok s') :
    InLoop ledger this token context accounts start s' := by
  have inStep := Trade.inStepPass traders unique inLoop.inStep ok
  obtain ⟨maker,taker,result,w,_,_,called,moved,_⟩ := (Trade.traded ok).called
  have external := traders _ _ _ _ _ called
  have entered := inLoop.inStep.status
  have kept := external.untouched entered
  have asked := inLoop.follows.thenBooks kept.books
  have logs := inLoop.logs.trans (external.logged entered)
  have grows : Grows ledger this start.ext w.ext :=
    inLoop.grows.trans (external.allowed (.refl _ _) .trans entered)
  obtain ⟨after,balances,flags⟩ := s'
  cases moved with
  | self => exact ⟨inStep,asked,logs,grows⟩
  | @between maker taker m t m' t' _ atMaker atTaker different bm bt applied storage more ext =>
    have memory : s.currentBalances = accounts.map w.perpetual.balances := by
      rw [kept.balances]; exact inLoop.inStep.memory
    have timed : ∀ a ∈ accounts,
        (w.perpetual.localIndexes a).timestamp = w.perpetual.globalIndex.timestamp := by
      rw [kept.localIndexes, kept.globalIndex, inLoop.inStep.index]
      exact inLoop.inStep.timed
    rw [memory, List.getElem?_map, atMaker] at bm
    rw [memory, List.getElem?_map, atTaker] at bt
    cases Option.some.inj bm
    cases Option.some.inj bt
    refine ⟨inStep,?_,logs.trans more,?_⟩
    · rw [storage]
      exact asked.andThen (tradeFollows asked.ready different
        (timed maker (List.mem_of_getElem? atMaker)) (timed taker (List.mem_of_getElem? atTaker)) applied)
    · rw [ext]; exact grows

theorem tradeFollowed {accounts : List Address} {trades : List TradeArg} {w w' : World σ}
    (civil : Civil (Grows ledger this) token x) (ready : Ready token w.perpetual)
    (call : BatchTraded x msg accounts trades w w') : Followed ledger this token x msg w w' 0 := by
  cases call with
  | @done context initialBalances w₁ w₂ batch live unique load settle start ran verified =>
    obtain ⟨loadedIn,global⟩ := (loaded load).opened ready live
    have opened := loadedIn.trans ((settledAll settle).opened loadedIn.follows.ready global loadedIn.status)
    have loop : InLoop ledger this token context accounts w₂ batch :=
      Checked.loopKeeps (fun _ _ _ _ inLoop ok => inLoopPass civil.traders unique inLoop ok) ran
        ⟨start,.books opened.follows.ready (.refl _),List.prefix_rfl,Nat.le_refl _⟩
    have last := (opened.follows.andThen loop.follows).thenBooks (statusBooks batch.world NOT_ENTERED)
    refine ⟨opened.logs.trans loop.logs,last.anyStep,fun _ => last,fun _ _ => ?_⟩
    have grows := loop.grows
    rw [Grows, opened.ext] at grows
    change (ledger w.ext this : Int) + 0 ≤ ledger batch.world.ext this
    omega

theorem payOutFollowed {w w' : World σ} (civil : Civil (Grows ledger this) token x)
    (ready : Ready token w.perpetual) (call : PaidOut x msg w w') :
    ∃ gained, Followed ledger this token x msg w w' gained := by
  have up : Follows (Pool.Quiet unit) token w.perpetual (w.setStatus ENTERED).perpetual 0 :=
    .books ready (statusBooks w ENTERED)
  cases call with
  | @early balance w₁ enabled settle debt =>
    have settle := settled settle
    have opened := settle.opened up.ready rfl rfl
    have last := (up.andThen opened.follows).thenBooks (statusBooks w₁ NOT_ENTERED)
    refine ⟨0,opened.logs,last.anyStep,fun _ => last,fun _ _ => ?_⟩
    have same : w₁.ext = w.ext := opened.ext
    change (ledger w.ext this : Int) + 0 ≤ ledger w₁.ext this
    rw [same, Int.add_zero]
  | @paid balance rest w₁ w₂ held amount value enabled settle credit floor holds least restMargin
      restPosition push =>
    have settle := settled settle
    have opened := settle.opened up.ready rfl rfl
    have frozen : w₁.perpetual.finalSettlementEnabled = true := by
      obtain ⟨index,storage,_⟩ := settle.storage
      rw [storage]; exact enabled
    have price : w₁.perpetual.finalSettlementPrice = w.perpetual.finalSettlementPrice := by
      obtain ⟨index,storage,_⟩ := settle.storage
      rw [storage]; rfl
    have current : (w₁.perpetual.localIndexes msg.sender).toInt = w₁.perpetual.globalIndex.toInt := by
      have index : w₁.perpetual.globalIndex = (w.setStatus ENTERED).perpetual.globalIndex := by
        obtain ⟨index,storage,_⟩ := settle.storage
        rw [storage]; rfl
      rw [index]
      exact settledIndex up.ready rfl settle
    rw [opened.follows.ready.token] at push
    have external := civil.pushes _ _ _ _ push
    have kept := external.untouched opened.status
    have bounded : unit * (amount.toNat + rest.marginInt) ≤
        (w₁.perpetual.balances msg.sender).netValue w₁.perpetual.finalSettlementPrice.toNat := by
      rw [settle.here.1, price, restMargin, unit]
      omega
    have paid := (up.andThen opened.follows).anyStep.andThen
      (payOutFollows opened.follows.ready frozen current restPosition bounded)
    have last := (paid.thenBooks kept.books).thenBooks (statusBooks w₂ NOT_ENTERED)
    refine ⟨-amount.toNat,?_,last,fun unpaid => ?_,fun plain outside => ?_⟩
    · exact (opened.logs.trans (external.logged opened.status)).trans (List.prefix_append _ _)
    · cases unpaid _ (List.mem_append_right _ (List.mem_singleton.mpr rfl))
    · obtain ⟨ext,rfl,enough,after⟩ := plain.transfer _ _ _ _ push
      have same : w₁.ext = w.ext := opened.ext
      change (ledger w.ext this : Int) + -amount.toNat ≤ ledger ext this
      change amount.toNat ≤ ledger w₁.ext this at enough
      change ledger ext = moveTokens this msg.sender amount.toNat (ledger w₁.ext) at after
      rw [same] at after enough
      rw [after, tokensOut outside]
      omega

theorem followed {entry : Entry} {w w' : World σ} (civil : Civil (Grows ledger this) token x)
    (ready : Ready token w.perpetual) (ok : exec x msg entry w = .ok w') :
    ∃ gained, Followed ledger this token x msg w w' gained := by
  have set : entry.isSetter = true → ∃ gained, Followed ledger this token x msg w w' gained := by
    intro setter
    have done := fieldSet setter ok
    have same : Follows (Pool.Quiet unit) token w.perpetual w'.perpetual 0 := .books ready done.books
    refine ⟨0,done.logs,same.anyStep,fun _ => same,fun _ _ => ?_⟩
    rw [done.ext, Int.add_zero]
  cases entry with
  | deposit account amount => exact ⟨_,depositFollowed civil ready (deposited ok)⟩
  | withdraw account destination amount => exact ⟨_,withdrawFollowed civil ready (withdrawn ok)⟩
  | trade accounts trades => exact ⟨_,tradeFollowed civil ready (batchTraded ok)⟩
  | withdrawFinalSettlement => exact payOutFollowed civil ready (paidOut ok)
  | enableFinalSettlement lower upper =>
    cases enabled ok with
    | @done context w₁ live load =>
      obtain ⟨opened,global⟩ := load.opened ready live
      have still : w₁.perpetual.finalSettlementEnabled = false := by rw [load.storage]; exact live
      have frozen := opened.follows.andThen
        (freezeFollows context.price opened.follows.ready still)
      have last := frozen.thenBooks (statusBooks (w₁.write fun s =>
        { s with finalSettlementPrice := context.price, finalSettlementEnabled := true }) NOT_ENTERED)
      refine ⟨0,opened.logs.trans (List.prefix_append _ _),last.anyStep,fun _ => last,fun _ _ => ?_⟩
      have same : w₁.ext = w.ext := opened.ext
      change (ledger w.ext this : Int) + 0 ≤ ledger w₁.ext this
      rw [same, Int.add_zero]
  | initializeV1 token oracle funder minCollateral =>
    have once := (initialized ok).once
    rw [ready.initialized] at once
    cases once
  | setGlobalOperator | setOracle | setFunder | setMinCollateral | setLocalOperator => exact set rfl

end

/-! Runs. -/

def perform (x : Externals σ) (msg : Msg) (entry : Entry) (w : World σ) : World σ :=
  match exec x msg entry w with
  | .ok w' => w'
  | .error _ => w

inductive Transaction (environment : Externals σ → Msg → Prop) (others : σ → σ → Prop) :
    World σ → World σ → Prop where
  | call (w : World σ) (x : Externals σ) (msg : Msg) (entry : Entry) (allowed : environment x msg) :
      Transaction environment others w (perform x msg entry w)
  | elsewhere (w : World σ) (ext : σ) (allowed : others w.ext ext) :
      Transaction environment others w { w with ext := ext }

inductive Reachable (environment : Externals σ → Msg → Prop) (others : σ → σ → Prop)
    (token : Address) : World σ → Prop where
  | initialized (x : Externals σ) (msg : Msg) (admin oracle funder : Address)
      (minCollateral : Uint256) (ext : σ) (w : World σ)
      (ok : exec x msg (.initializeV1 token oracle funder minCollateral)
        ⟨Storage.deployed admin,[],ext⟩ = .ok w) : Reachable environment others token w
  | step {w w' : World σ} (before : Reachable environment others token w)
      (next : Transaction environment others w w') : Reachable environment others token w'

/-- The margin token is plain, and nobody else takes tokens out of the contract.
The sender is another address: PerpetualV1 calls its own functions from none of its own. -/
structure PlainEnvironment (ledger : σ → Address → Nat) (this token : Address) (x : Externals σ)
    (msg : Msg) : Prop where
  plain : PlainToken ledger this token x
  traders : Traders (Grows ledger this) x
  outside : msg.sender ≠ this

theorem PlainEnvironment.civil {ledger : σ → Address → Nat} {this token : Address}
    {x : Externals σ} {msg : Msg} (h : PlainEnvironment ledger this token x msg) :
    Civil (Grows ledger this) token x where
  traders := h.traders
  pulls := by
    intro sender amount w w' ok
    obtain ⟨ext,rfl,_⟩ := h.plain.transferFrom _ _ _ _ ok
    exact .own w ext trivial
  pushes := by
    intro recipient amount w w' ok
    obtain ⟨ext,rfl,_⟩ := h.plain.transfer _ _ _ _ ok
    exact .own w ext trivial

theorem startReady {x : Externals σ} {msg : Msg} {token admin oracle funder : Address}
    {minCollateral : Uint256} {ext : σ} {w : World σ}
    (ok : exec x msg (.initializeV1 token oracle funder minCollateral)
      ⟨Storage.deployed admin,[],ext⟩ = .ok w) : Ready token w.perpetual := by
  have done := initialized ok
  refine ⟨done.initialized,done.token,?_,?_⟩
  · intro a
    rw [done.localIndexes]
    exact Nat.zero_le _
  · intro a _
    rw [done.localIndexes, done.globalIndex]
    rfl

theorem startEmpty {x : Externals σ} {msg : Msg} {token admin oracle funder : Address}
    {minCollateral : Uint256} {ext : σ} {w : World σ}
    (ok : exec x msg (.initializeV1 token oracle funder minCollateral)
      ⟨Storage.deployed admin,[],ext⟩ = .ok w) (a : Address) :
    (w.perpetual.balances a).marginInt = 0 ∧ (w.perpetual.balances a).positionInt = 0 := by
  rw [(initialized ok).balances]
  exact ⟨rfl,rfl⟩

theorem reachableReady {ledger : σ → Address → Nat} {this token : Address} {w : World σ}
    (reachable : Reachable (PlainEnvironment ledger this token) (Grows ledger this) token w) :
    Ready token w.perpetual ∧ Pool.Sound unit (poolOf w.perpetual (ledger w.ext this)) := by
  induction reachable with
  | initialized x msg admin oracle funder minCollateral ext w ok =>
    have empty := startEmpty ok
    refine ⟨startReady ok,?_,fun _ => ?_⟩
    · have none : ∀ a, (poolOf w.perpetual (ledger w.ext this)).owed unit a = 0 := by
        intro a
        simp only [Pool.owed, poolOf, (empty a).1, (empty a).2, Int.mul_zero, Int.sub_zero,
          Int.add_zero]
      rw [Finset.sum_eq_zero fun a _ => none a]
      exact Int.mul_nonneg (by decide) (Int.natCast_nonneg _)
    · exact Finset.sum_eq_zero fun a _ => (empty a).2
  | @step w w' before next ih =>
    obtain ⟨ready,sound⟩ := ih
    cases next with
    | call x msg entry allowed =>
      unfold perform
      cases result : exec x msg entry w with
      | error reason => exact ⟨ready,sound⟩
      | ok w' =>
        obtain ⟨gained,done⟩ := followed allowed.civil ready result
        refine ⟨done.step.ready,?_⟩
        have after := Pool.runSound (by decide) (done.step.run _) sound
        have held := done.tokens allowed.plain allowed.outside
        exact Pool.soundMore (by decide) after held
    | elsewhere ext allowed =>
      exact ⟨ready,Pool.soundMore (by decide) sound (Int.ofNat_le.mpr allowed)⟩

/-- The contract holds what it owes, to the last rounding, before and after settlement. -/
theorem owesNoMoreThanItHolds {ledger : σ → Address → Nat} {this token : Address} {w : World σ}
    (reachable : Reachable (PlainEnvironment ledger this token) (Grows ledger this) token w) :
    let m a := (w.perpetual.balances a).marginInt
    let p a := (w.perpetual.balances a).positionInt
    let L a := (w.perpetual.localIndexes a).toInt
    let G := w.perpetual.globalIndex.toInt
    let P := (w.perpetual.finalSettlementPrice.toNat : Int)
    let T := (ledger w.ext this : Int)
    (w.perpetual.finalSettlementEnabled = false →
      ∑ a, (10 ^ 18 * m a - (G - L a) * p a) ≤ 10 ^ 18 * T) ∧
    (w.perpetual.finalSettlementEnabled = true →
      ∑ a, (10 ^ 18 * m a - (G - L a) * p a + P * p a) ≤ 10 ^ 18 * T) := by
  have solvent := (reachableReady reachable).2.solvent
  refine ⟨fun live => ?_,fun frozen => ?_⟩
  · simpa only [Pool.owed, poolOf, live, Bool.false_eq_true, if_false, Int.zero_mul, Int.add_zero,
      unit] using solvent
  · simpa only [Pool.owed, poolOf, frozen, if_true, unit] using solvent

def Externals.plain (this : Address) (price : Uint256) (result : TradeResult) :
    Externals (Address → Nat) where
  getPrice := fun _ _ => .ok price
  getFunding := fun _ _ _ => .ok (true,0)
  balanceOf := fun _ w => do
    Checked.require (w.ext this < 2 ^ 256) "balance overflow"
    return BitVec.ofNat 256 (w.ext this)
  transferFrom := fun _ sender amount w => do
    Checked.require (amount.toNat ≤ w.ext sender) "insufficient balance"
    return { w with ext := moveTokens sender this amount.toNat w.ext }
  transfer := fun _ recipient amount w => do
    Checked.require (amount.toNat ≤ w.ext this) "insufficient balance"
    return { w with ext := moveTokens this recipient amount.toNat w.ext }
  trade := fun _ _ w => .ok (result,w)

theorem plainEnvironment (this token : Address) (price : Uint256) (result : TradeResult) {msg : Msg}
    (outside : msg.sender ≠ this) :
    PlainEnvironment id this token (Externals.plain this price result) msg where
  plain := by
    refine ⟨?_,?_,?_⟩
    · intro w held ok
      simp only [Externals.plain, Checked.bindOk, Checked.requireOk, exists_const, Checked.pureOk] at ok
      obtain ⟨small,rfl⟩ := ok
      simpa using Nat.mod_eq_of_lt small
    · intro sender amount w w' ok
      simp only [Externals.plain, Checked.bindOk, Checked.requireOk, exists_const, Checked.pureOk] at ok
      obtain ⟨enough,rfl⟩ := ok
      exact ⟨_,rfl,enough,rfl⟩
    · intro recipient amount w w' ok
      simp only [Externals.plain, Checked.bindOk, Checked.requireOk, exists_const, Checked.pureOk] at ok
      obtain ⟨enough,rfl⟩ := ok
      exact ⟨_,rfl,enough,rfl⟩
  traders := by
    intro trader call w r w' ok
    cases Except.ok.inj ok
    exact .refl _
  outside := outside

theorem plainHonest (this : Address) (price : Uint256) (result : TradeResult) :
    Honest (fun _ _ => True) (Externals.plain this price result) where
  traders := by
    intro trader call w r w' ok
    cases Except.ok.inj ok
    exact .refl _
  pulls := by
    intro token sender amount w w' ok
    simp only [Externals.plain, Checked.bindOk, Checked.requireOk, exists_const, Checked.pureOk] at ok
    obtain ⟨_,rfl⟩ := ok
    exact .own _ _ trivial
  pushes := by
    intro token recipient amount w w' ok
    simp only [Externals.plain, Checked.bindOk, Checked.requireOk, exists_const, Checked.pureOk] at ok
    obtain ⟨_,rfl⟩ := ok
    exact .own _ _ trivial

def settledRun : List (Msg × Entry) :=
  [(⟨3,100⟩,.setGlobalOperator 9 true),(⟨1,110⟩,.deposit 1 40),(⟨2,120⟩,.deposit 2 40),
    (⟨1,130⟩,.trade [1,2] [⟨0,1,9,[]⟩]),(⟨3,140⟩,.enableFinalSettlement 0 (BaseMath.BASE * 9))]

def sample : Externals (Address → Nat) := .plain 7 (BaseMath.BASE * 6) ⟨5,1,true,0⟩

def startWorld : World (Address → Nat) :=
  perform sample ⟨3,100⟩ (.initializeV1 8 4 5 BaseMath.BASE) ⟨Storage.deployed 3,[],fun _ => 100⟩

def runAll (calls : List (Msg × Entry)) (w : World (Address → Nat)) : World (Address → Nat) :=
  calls.foldl (fun w c => perform sample c.1 c.2 w) w

theorem runReachable {environment : Externals (Address → Nat) → Msg → Prop}
    {others : (Address → Nat) → (Address → Nat) → Prop} (calls : List (Msg × Entry))
    (allowed : ∀ c ∈ calls, environment sample c.1) :
    Reachable environment others 8 (runAll calls startWorld) := by
  suffices ∀ w, Reachable environment others 8 w → Reachable environment others 8 (runAll calls w) from
    this _ (.initialized sample ⟨3,100⟩ 3 4 5 BaseMath.BASE (fun _ => 100) _ rfl)
  induction calls with
  | nil => exact fun w h => h
  | cons c rest ih =>
    intro w h
    exact ih (fun c mem => allowed c (List.mem_cons_of_mem _ mem)) _
      (.step h (.call w sample c.1 c.2 (allowed c List.mem_cons_self)))

theorem settledRunSolvent :
    let w := runAll settledRun startWorld
    w.perpetual.finalSettlementEnabled = true ∧
    ∑ a, (10 ^ 18 * (w.perpetual.balances a).marginInt -
        (w.perpetual.globalIndex.toInt - (w.perpetual.localIndexes a).toInt) *
          (w.perpetual.balances a).positionInt +
        (w.perpetual.finalSettlementPrice.toNat : Int) * (w.perpetual.balances a).positionInt) ≤
      10 ^ 18 * (w.ext 7 : Int) := by
  have outside : ∀ c ∈ settledRun, c.1.sender ≠ 7 := by decide
  have reachable : Reachable (PlainEnvironment id 7 8) (Grows id 7) 8 (runAll settledRun startWorld) :=
    runReachable _ fun c mem => plainEnvironment 7 8 _ _ (outside c mem)
  have frozen : (runAll settledRun startWorld).perpetual.finalSettlementEnabled = true := by
    decide +kernel
  exact ⟨frozen,(owesNoMoreThanItHolds reachable).2 frozen⟩

def AnyEnvironment (x : Externals σ) (_msg : Msg) : Prop := Honest (fun _ _ => True) x

theorem Honest.civil {token : Address} {x : Externals σ} (h : Honest (fun _ _ => True) x) :
    Civil (Grows (fun _ _ => 0) 0) token x where
  traders := by
    have all : Grows (fun (_ : σ) _ => 0) 0 = fun _ _ => True := by
      funext e e'
      exact eq_true (Nat.le_refl 0)
    rw [all]
    exact h.traders
  pulls := h.pulls token
  pushes := h.pushes token

theorem reachableFlat {token : Address} {w : World σ}
    (reachable : Reachable AnyEnvironment (fun _ _ => True) token w) :
    Ready token w.perpetual ∧ (Unpaid w.logs → Pool.Flat (poolOf w.perpetual 0)) := by
  induction reachable with
  | initialized x msg admin oracle funder minCollateral ext w ok =>
    exact ⟨startReady ok,fun _ => Finset.sum_eq_zero fun a _ => (startEmpty ok a).2⟩
  | @step w w' before next ih =>
    obtain ⟨ready,flat⟩ := ih
    cases next with
    | call x msg entry allowed =>
      unfold perform
      cases result : exec x msg entry w with
      | error reason => exact ⟨ready,flat⟩
      | ok w' =>
        obtain ⟨gained,done⟩ := followed allowed.civil ready result
        refine ⟨done.step.ready,fun unpaid => ?_⟩
        have earlier : Unpaid w.logs := fun l mem => unpaid l (done.logs.subset mem)
        have after : (poolOf w'.perpetual (0 + gained)).Flat :=
          Pool.runFlat ((done.quiet unpaid).run 0) (flat earlier)
        exact after
    | elsewhere ext allowed => exact ⟨ready,flat⟩

theorem positionsSumToZero {token : Address} {w : World σ}
    (reachable : Reachable AnyEnvironment (fun _ _ => True) token w) (unpaid : Unpaid w.logs) :
    ∑ a, (w.perpetual.balances a).positionInt = 0 :=
  (reachableFlat reachable).2 unpaid

theorem settledRunMatched :
    ∑ a, ((runAll settledRun startWorld).perpetual.balances a).positionInt = 0 :=
  positionsSumToZero (runReachable _ fun _ _ => plainHonest 7 _ _) (by decide +kernel)

end Perpetual
