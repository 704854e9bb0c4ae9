import Perpetual.PerpetualV1

/-! The re-entrancy guard against every tree of nested calls. While a guarded call
is in progress, external code can only move its own state and local operators. -/
namespace Perpetual
variable {σ : Type}

structure Untouched (s t : Storage) : Prop where
  status : t.status = s.status
  admin : t.admin = s.admin
  initialized : t.initialized = s.initialized
  balances : t.balances = s.balances
  localIndexes : t.localIndexes = s.localIndexes
  globalOperators : t.globalOperators = s.globalOperators
  token : t.token = s.token
  oracle : t.oracle = s.oracle
  funder : t.funder = s.funder
  globalIndex : t.globalIndex = s.globalIndex
  minCollateral : t.minCollateral = s.minCollateral
  finalSettlementEnabled : t.finalSettlementEnabled = s.finalSettlementEnabled
  finalSettlementPrice : t.finalSettlementPrice = s.finalSettlementPrice

theorem Untouched.refl (s : Storage) : Untouched s s :=
  ⟨rfl,rfl,rfl,rfl,rfl,rfl,rfl,rfl,rfl,rfl,rfl,rfl,rfl⟩

theorem Untouched.trans {s t u : Storage} (a : Untouched s t) (b : Untouched t u) : Untouched s u :=
  ⟨b.status.trans a.status,b.admin.trans a.admin,b.initialized.trans a.initialized,
    b.balances.trans a.balances,b.localIndexes.trans a.localIndexes,
    b.globalOperators.trans a.globalOperators,b.token.trans a.token,b.oracle.trans a.oracle,
    b.funder.trans a.funder,b.globalIndex.trans a.globalIndex,b.minCollateral.trans a.minCollateral,
    b.finalSettlementEnabled.trans a.finalSettlementEnabled,
    b.finalSettlementPrice.trans a.finalSettlementPrice⟩

/-- What external code can bring about: changes of its own state that `allow` permits,
and calls into PerpetualV1 by any sender, whose own external calls are again such code.
A derivation is a tree of nested calls; a nested call that reverts is `refl`. -/
inductive External (allow : σ → σ → Prop) : World σ → World σ → Prop where
  | refl (w : World σ) : External allow w w
  | own (w : World σ) (ext : σ) (allowed : allow w.ext ext) : External allow w { w with ext := ext }
  | reenter {w w' : World σ} (x : Externals σ) (msg : Msg) (entry : Entry)
      (traders : ∀ trader call w₁ r w₂, x.trade trader call w₁ = .ok (r,w₂) → External allow w₁ w₂)
      (pulls : ∀ token sender amount w₁ w₂,
        x.transferFrom token sender amount w₁ = .ok w₂ → External allow w₁ w₂)
      (pushes : ∀ token recipient amount w₁ w₂,
        x.transfer token recipient amount w₁ = .ok w₂ → External allow w₁ w₂)
      (ok : exec x msg entry w = .ok w') : External allow w w'
  | trans {u v w : World σ} (first : External allow u v) (last : External allow v w) :
      External allow u w

theorem External.ofSame {allow : σ → σ → Prop} {w w' : World σ}
    (ok : (.ok w : Checked (World σ)) = .ok w') : External allow w w' := by
  cases Except.ok.inj ok
  exact .refl w

def Traders (allow : σ → σ → Prop) (x : Externals σ) : Prop :=
  ∀ trader call w₁ r w₂, x.trade trader call w₁ = .ok (r,w₂) → External allow w₁ w₂

structure Honest (allow : σ → σ → Prop) (x : Externals σ) : Prop where
  traders : Traders allow x
  pulls : ∀ token sender amount w₁ w₂,
    x.transferFrom token sender amount w₁ = .ok w₂ → External allow w₁ w₂
  pushes : ∀ token recipient amount w₁ w₂,
    x.transfer token recipient amount w₁ = .ok w₂ → External allow w₁ w₂

theorem guardedOk {x : Externals σ} {msg : Msg} {entry : Entry} {w w' : World σ}
    (guarded : entry.isGuarded = true) (ok : exec x msg entry w = .ok w') :
    w.perpetual.status ≠ ENTERED ∧ ∃ mid : World σ, mid.setStatus NOT_ENTERED = w' := by
  cases entry with
  | deposit account amount =>
    obtain ⟨_,ok⟩ := noFinalSettlementOk.mp ok
    obtain ⟨free,mid,_,last⟩ := nonReentrantOk.mp ok
    exact ⟨free,mid,last⟩
  | withdraw account destination amount =>
    obtain ⟨_,ok⟩ := noFinalSettlementOk.mp ok
    obtain ⟨free,mid,_,last⟩ := nonReentrantOk.mp ok
    exact ⟨free,mid,last⟩
  | trade accounts trades =>
    obtain ⟨_,ok⟩ := noFinalSettlementOk.mp ok
    obtain ⟨free,mid,_,last⟩ := nonReentrantOk.mp ok
    exact ⟨free,mid,last⟩
  | withdrawFinalSettlement =>
    obtain ⟨_,ok⟩ := onlyFinalSettlementOk.mp ok
    obtain ⟨free,mid,_,last⟩ := nonReentrantOk.mp ok
    exact ⟨free,mid,last⟩
  | enableFinalSettlement lower upper =>
    obtain ⟨_,ok⟩ := onlyAdminOk.mp ok
    obtain ⟨_,ok⟩ := noFinalSettlementOk.mp ok
    obtain ⟨free,mid,_,last⟩ := nonReentrantOk.mp ok
    exact ⟨free,mid,last⟩
  | setLocalOperator operator approved => cases guarded
  | setGlobalOperator | setOracle | setFunder | setMinCollateral | initializeV1 =>
    obtain ⟨_,ok⟩ := onlyAdminOk.mp ok
    obtain ⟨free,mid,_,last⟩ := nonReentrantOk.mp ok
    exact ⟨free,mid,last⟩

theorem nestedCall {x : Externals σ} {msg : Msg} {entry : Entry} {w w' : World σ}
    (entered : w.perpetual.status = ENTERED) (ok : exec x msg entry w = .ok w') :
    Untouched w.perpetual w'.perpetual ∧ w'.ext = w.ext ∧ w.logs <+: w'.logs := by
  cases guarded : entry.isGuarded with
  | true => exact absurd entered (guardedOk guarded ok).1
  | false =>
    cases entry with
    | setLocalOperator operator approved =>
      cases Except.ok.inj ok
      exact ⟨⟨rfl,rfl,rfl,rfl,rfl,rfl,rfl,rfl,rfl,rfl,rfl,rfl,rfl⟩,rfl,List.prefix_append _ _⟩
    | _ => cases guarded

theorem External.untouched {allow : σ → σ → Prop} {w w' : World σ} (h : External allow w w')
    (entered : w.perpetual.status = ENTERED) : Untouched w.perpetual w'.perpetual := by
  induction h with
  | refl w => exact .refl _
  | own w ext allowed => exact .refl _
  | reenter x msg entry traders pulls pushes ok => exact (nestedCall entered ok).1
  | trans first last ihFirst ihLast =>
    have before := ihFirst entered
    exact before.trans (ihLast (before.status.trans entered))

theorem External.whileEntered {allow : σ → σ → Prop} (R : World σ → World σ → Prop) (refl : ∀ w, R w w)
    (trans : ∀ {u v w}, R u v → R v w → R u w)
    (own : ∀ w ext, allow w.ext ext → R w { w with ext := ext })
    (nested : ∀ {x msg entry w w'}, w.perpetual.status = ENTERED → exec x msg entry w = .ok w' → R w w')
    {w w' : World σ} (h : External allow w w') (entered : w.perpetual.status = ENTERED) : R w w' := by
  induction h with
  | refl w => exact refl _
  | own w ext allowed => exact own _ _ allowed
  | reenter x msg entry traders pulls pushes ok => exact nested entered ok
  | trans first last ihFirst ihLast =>
    have before := first.untouched entered
    exact trans (ihFirst entered) (ihLast (before.status.trans entered))

theorem External.allowed {allow : σ → σ → Prop} (refl : ∀ e, allow e e)
    (trans : ∀ {a b c}, allow a b → allow b c → allow a c) {w w' : World σ}
    (h : External allow w w') (entered : w.perpetual.status = ENTERED) : allow w.ext w'.ext := by
  refine h.whileEntered (fun w w' => allow w.ext w'.ext) (fun _ => refl _) trans (fun _ _ => id) ?_ entered
  intro x msg entry w w' entered ok
  rw [(nestedCall entered ok).2.1]
  exact refl _

theorem External.logged {allow : σ → σ → Prop} {w w' : World σ} (h : External allow w w')
    (entered : w.perpetual.status = ENTERED) : w.logs <+: w'.logs :=
  h.whileEntered (fun w w' => w.logs <+: w'.logs) (fun _ => List.prefix_rfl) List.IsPrefix.trans
    (fun _ _ _ => List.prefix_rfl) (fun entered ok => (nestedCall entered ok).2.2) entered

/-! An alarm on every external call. It goes off when the call starts with the guard
down, or comes back with anything but the local operators changed. -/
section Watched
open Classical

noncomputable def watch (alarm : String) (w : World σ) {α : Type} (world : α → World σ)
    (answer : Checked α) : Checked α := do
  Checked.require (w.perpetual.status = ENTERED) alarm
  let out ← answer
  Checked.require (Untouched w.perpetual (world out).perpetual) alarm
  return out

noncomputable def Externals.watched (x : Externals σ) (alarm : String) : Externals σ :=
  { x with
    transferFrom := fun token sender amount w =>
      watch alarm w id (x.transferFrom token sender amount w)
    transfer := fun token recipient amount w => watch alarm w id (x.transfer token recipient amount w)
    trade := fun trader call w => watch alarm w Prod.snd (x.trade trader call w) }

theorem watchSilent {alarm : String} {w : World σ} {α : Type} {world : α → World σ}
    {answer : Checked α} (entered : w.perpetual.status = ENTERED)
    (kept : ∀ out, answer = .ok out → Untouched w.perpetual (world out).perpetual) :
    watch alarm w world answer = answer := by
  unfold watch
  rw [Checked.requireThen entered]
  cases answer with
  | error reason => rfl
  | ok out => exact Checked.requireThen (kept out rfl)

end Watched

section
variable {allow : σ → σ → Prop} {x : Externals σ}

theorem watchedPull (honest : Honest allow x) {w : World σ} (entered : w.perpetual.status = ENTERED)
    (alarm : String) (token sender : Address) (amount : Uint256) :
    (x.watched alarm).transferFrom token sender amount w = x.transferFrom token sender amount w :=
  watchSilent entered fun _ ok => (honest.pulls _ _ _ _ _ ok).untouched entered

theorem watchedPush (honest : Honest allow x) {w : World σ} (entered : w.perpetual.status = ENTERED)
    (alarm : String) (token recipient : Address) (amount : Uint256) :
    (x.watched alarm).transfer token recipient amount w = x.transfer token recipient amount w :=
  watchSilent entered fun _ ok => (honest.pushes _ _ _ _ _ ok).untouched entered

theorem watchedTrade (honest : Honest allow x) {w : World σ} (entered : w.perpetual.status = ENTERED)
    (alarm : String) (trader : Address) (call : TraderCall) :
    (x.watched alarm).trade trader call w = x.trade trader call w :=
  watchSilent entered fun _ ok => (honest.traders _ _ _ _ _ ok).untouched entered

open Settlement

theorem depositWatched (honest : Honest allow x) (alarm : String) (msg : Msg) (account : Address)
    (amount : Uint256) (w : World σ) :
    Margin.deposit (x.watched alarm) msg account amount w = Margin.deposit x msg account amount w := by
  refine Checked.bindCongr fun _ _ => nonReentrantCongr ?_
  refine Checked.bindCongr fun (context,w₁) load => ?_
  refine Checked.bindCongr fun (balance,w₂) settle => ?_
  have entered : w₂.perpetual.status = ENTERED := (settled settle).status.trans (loaded load).status
  simp only [watchedPull honest entered]

theorem withdrawWatched (honest : Honest allow x) (alarm : String) (msg : Msg)
    (account destination : Address) (amount : Uint256) (w : World σ) :
    Margin.withdraw (x.watched alarm) msg account destination amount w =
      Margin.withdraw x msg account destination amount w := by
  refine Checked.bindCongr fun _ _ => nonReentrantCongr ?_
  refine Checked.bindCongr fun _ _ => ?_
  refine Checked.bindCongr fun (context,w₁) load => ?_
  refine Checked.bindCongr fun (balance,w₂) settle => ?_
  have entered : w₂.perpetual.status = ENTERED := (settled settle).status.trans (loaded load).status
  simp only [watchedPush honest entered]

theorem withdrawFinalSettlementWatched (honest : Honest allow x) (alarm : String) (msg : Msg)
    (w : World σ) : FinalSettlement.withdrawFinalSettlement (x.watched alarm) msg w =
      FinalSettlement.withdrawFinalSettlement x msg w := by
  refine Checked.bindCongr fun _ _ => nonReentrantCongr ?_
  refine Checked.bindCongr fun (balance,w₁) settle => ?_
  refine Checked.bindCongr fun (positive,negative) _ => ?_
  have entered : w₁.perpetual.status = ENTERED := (settled settle).status
  dsimp only
  split
  · rfl
  · refine Checked.bindCongr fun _ _ => Checked.bindCongr fun _ _ => ?_
    refine Checked.bindCongr fun _ _ => Checked.bindCongr fun _ _ => ?_
    refine Checked.bindCongr fun remaining _ => ?_
    let paid := w₁.write fun s => s.setBalance msg.sender ⟨decide (remaining ≠ 0),false,remaining,0⟩
    have entered : paid.perpetual.status = ENTERED := entered
    simp only [paid, watchedPush honest entered]

theorem tradedBalances (honest : Traders allow x) {msg : Msg} {context : Context}
    {accounts : List Address} {s s' : Trade.Batch σ} {tradeArg : TradeArg}
    (entered : s.world.perpetual.status = ENTERED)
    (ok : Trade.tradeOne x msg context accounts s tradeArg = .ok s') :
    ∃ called balances, Untouched s.world.perpetual called ∧ s'.world.perpetual = { called with balances } := by
  obtain ⟨maker,taker,result,w,_,_,called,moved,_⟩ := (Trade.traded ok).called
  have kept := (honest _ _ _ _ _ called).untouched entered
  generalize s'.world = after, s'.currentBalances = current at moved
  cases moved with
  | self => exact ⟨_,_,kept,rfl⟩
  | between _ _ _ _ _ _ storage => exact ⟨_,_,kept,storage⟩

theorem tradedStatus (honest : Traders allow x) {msg : Msg} {context : Context}
    {accounts : List Address} {s s' : Trade.Batch σ} {tradeArg : TradeArg}
    (entered : s.world.perpetual.status = ENTERED)
    (ok : Trade.tradeOne x msg context accounts s tradeArg = .ok s') :
    s'.world.perpetual.status = ENTERED := by
  obtain ⟨called,balances,kept,same⟩ := tradedBalances honest entered ok
  rw [same]
  exact kept.status.trans entered

theorem tradeWatched (honest : Honest allow x) (alarm : String) (msg : Msg)
    (accounts : List Address) (trades : List TradeArg) (w : World σ) :
    Trade.trade (x.watched alarm) msg accounts trades w = Trade.trade x msg accounts trades w := by
  refine Checked.bindCongr fun _ _ => nonReentrantCongr ?_
  refine Checked.bindCongr fun _ _ => ?_
  refine Checked.bindCongr fun (context,w₁) load => ?_
  refine Checked.bindCongr fun (balances,w₂) settle => ?_
  have entered : w₂.perpetual.status = ENTERED :=
    (settledAll settle).status.trans (loaded load).status
  have loop : Trade.runTrades (x.watched alarm) msg context accounts trades balances w₂ =
      Trade.runTrades x msg context accounts trades balances w₂ := by
    refine Checked.loopCongr (P := fun s => s.world.perpetual.status = ENTERED)
      (fun s a s' up ok => tradedStatus honest.traders up ok) (fun s a up => ?_) entered
    refine Checked.bindCongr fun _ _ => Checked.bindCongr fun _ _ => Checked.bindCongr fun _ _ => ?_
    simp only [watchedTrade honest up]
  simp only [loop]

theorem execWatched (honest : Honest allow x) (alarm : String) (msg : Msg) (entry : Entry)
    (w : World σ) : exec (x.watched alarm) msg entry w = exec x msg entry w := by
  cases entry with
  | deposit account amount => exact depositWatched honest alarm msg account amount w
  | withdraw account destination amount =>
    exact withdrawWatched honest alarm msg account destination amount w
  | trade accounts trades => exact tradeWatched honest alarm msg accounts trades w
  | withdrawFinalSettlement => exact withdrawFinalSettlementWatched honest alarm msg w
  | _ => rfl

theorem guardReleased {w : World σ} (released : w.perpetual.status = NOT_ENTERED)
    (body : World σ → Checked (World σ)) :
    nonReentrant body w = (body (w.setStatus ENTERED)).map fun mid => mid.setStatus NOT_ENTERED := by
  have free : w.perpetual.status ≠ ENTERED := by rw [released]; decide
  unfold nonReentrant
  rw [Checked.requireThen free]
  cases body (w.setStatus ENTERED) <;> rfl

/-- During a guarded call, no tree of nested calls changes what the call holds copies of,
at none of its external calls; and when the call succeeds the guard is down again. -/
theorem reentrantCallsLoseNoUpdate (honest : Honest allow x) (msg : Msg) {entry : Entry}
    (guarded : entry.isGuarded = true) (w : World σ) :
    (∀ alarm, exec (x.watched alarm) msg entry w = exec x msg entry w) ∧
    (∀ u v : World σ, u.perpetual.status = ENTERED → External allow u v →
      Untouched u.perpetual v.perpetual) ∧
    (∀ w', exec x msg entry w = .ok w' → w'.perpetual.status = NOT_ENTERED ∧
      ∀ body, nonReentrant body w' =
        (body (w'.setStatus ENTERED)).map fun mid => mid.setStatus NOT_ENTERED) := by
  refine ⟨fun alarm => execWatched honest alarm msg entry w,
    fun u v entered tree => tree.untouched entered,fun w' ok => ?_⟩
  obtain ⟨_,mid,last⟩ := guardedOk guarded ok
  have released : w'.perpetual.status = NOT_ENTERED := by rw [← last]; rfl
  exact ⟨released,guardReleased released⟩

end

def Externals.silent : Externals σ where
  getPrice := fun _ _ => .error "no oracle"
  getFunding := fun _ _ _ => .error "no funder"
  balanceOf := fun _ _ => .error "no token"
  transferFrom := fun _ _ _ _ => .error "no token"
  transfer := fun _ _ _ _ => .error "no token"
  trade := fun _ _ _ => .error "no trader"

def Externals.callback : Externals Unit where
  getPrice := fun _ _ => .ok BaseMath.BASE
  getFunding := fun _ _ _ => .ok (true,0)
  balanceOf := fun _ _ => .ok 0
  transferFrom := fun _ _ _ w => .ok w
  transfer := fun _ _ _ w => .ok w
  trade := fun trader call w => do
    let w ← exec Externals.silent ⟨trader,0⟩ (.setLocalOperator call.sender true) w
    return (⟨5,1,true,0⟩,w)

theorem callbackHonest : Honest (fun _ _ => True) Externals.callback where
  traders := by
    intro trader call w₁ r w₂ ok
    simp only [Externals.callback, Checked.bindOk, Checked.pureOk, Prod.mk.injEq] at ok
    obtain ⟨mid,nested,_,rfl⟩ := ok
    refine .reenter _ _ _ ?_ ?_ ?_ nested <;> intro _ _ _ _ _ no <;> cases no
  pulls := fun _ _ _ _ _ ok => .ofSame ok
  pushes := fun _ _ _ _ _ ok => .ofSame ok

theorem callbackLosesNoUpdate :
    let entry : Entry := .trade [1,2] [⟨0,1,9,[]⟩]
    let w : World Unit := ⟨{ Storage.deployed 3 with globalOperators := fun _ => true },[],()⟩
    (∀ alarm, exec (Externals.callback.watched alarm) ⟨1,100⟩ entry w =
      exec Externals.callback ⟨1,100⟩ entry w) ∧
    (∀ u v : World Unit, u.perpetual.status = ENTERED → External (fun _ _ => True) u v →
      Untouched u.perpetual v.perpetual) ∧
    (∀ w', exec Externals.callback ⟨1,100⟩ entry w = .ok w' → w'.perpetual.status = NOT_ENTERED ∧
      ∀ body, nonReentrant body w' =
        (body (w'.setStatus ENTERED)).map fun mid => mid.setStatus NOT_ENTERED) :=
  reentrantCallsLoseNoUpdate callbackHonest ⟨1,100⟩ rfl _

end Perpetual
