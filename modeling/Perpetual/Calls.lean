import Perpetual.Batch

/-! What a call that succeeds has done, one relation for each entry point. Every
result about runs of PerpetualV1 goes through these and unfolds no body again. -/
namespace Perpetual
open Settlement
variable {σ : Type}

structure SameBooks (s t : Storage) : Prop where
  balances : t.balances = s.balances
  localIndexes : t.localIndexes = s.localIndexes
  globalIndex : t.globalIndex = s.globalIndex
  initialized : t.initialized = s.initialized
  token : t.token = s.token
  enabled : t.finalSettlementEnabled = s.finalSettlementEnabled
  price : t.finalSettlementPrice = s.finalSettlementPrice

theorem SameBooks.refl (s : Storage) : SameBooks s s := ⟨rfl,rfl,rfl,rfl,rfl,rfl,rfl⟩

theorem SameBooks.trans {s t u : Storage} (a : SameBooks s t) (b : SameBooks t u) : SameBooks s u :=
  ⟨b.balances.trans a.balances,b.localIndexes.trans a.localIndexes,
    b.globalIndex.trans a.globalIndex,b.initialized.trans a.initialized,b.token.trans a.token,
    b.enabled.trans a.enabled,b.price.trans a.price⟩

theorem Untouched.books {s t : Storage} (h : Untouched s t) : SameBooks s t :=
  ⟨h.balances,h.localIndexes,h.globalIndex,h.initialized,h.token,h.finalSettlementEnabled,
    h.finalSettlementPrice⟩

theorem statusBooks (w : World σ) (status : Uint256) :
    SameBooks w.perpetual (w.setStatus status).perpetual := ⟨rfl,rfl,rfl,rfl,rfl,rfl,rfl⟩

inductive Deposited (x : Externals σ) (msg : Msg) (account : Address) (amount : Uint256)
    (w : World σ) : World σ → Prop where
  | done {context : Context} {balance out : Balance} {w₁ w₂ w₃ : World σ}
      (live : w.perpetual.finalSettlementEnabled = false)
      (load : Loaded (w.setStatus ENTERED) context w₁)
      (settle : Settled context account w₁ balance w₂)
      (pull : x.transferFrom w₂.perpetual.token msg.sender amount w₂ = .ok w₃)
      (moved : Balance.MarginMoved balance out amount.toNat) :
      Deposited x msg account amount w
        (((w₃.write fun s => s.setBalance account out).emit
          (.deposit account amount out.toBytes32)).setStatus NOT_ENTERED)

theorem deposited {x : Externals σ} {msg : Msg} {account : Address} {amount : Uint256}
    {w w' : World σ} (ok : Margin.deposit x msg account amount w = .ok w') :
    Deposited x msg account amount w w' := by
  obtain ⟨live,guarded⟩ := noFinalSettlementOk.mp ok
  obtain ⟨_,mid,body,rfl⟩ := nonReentrantOk.mp guarded
  simp only [Checked.bindOk, Prod.exists, Checked.pureOk] at body
  obtain ⟨context,w₁,load,balance,w₂,settle,w₃,pull,out,add,rfl⟩ := body
  exact .done live (loaded load) (settled settle) pull (Balance.addToMarginMoved add)

inductive Withdrawn (x : Externals σ) (msg : Msg) (account destination : Address)
    (amount : Uint256) (w : World σ) : World σ → Prop where
  | done {context : Context} {balance out : Balance} {w₁ w₂ w₃ : World σ}
      (live : w.perpetual.finalSettlementEnabled = false)
      (permission : hasAccountPermissions w.perpetual account msg.sender = true)
      (load : loadContext x msg (w.setStatus ENTERED) = .ok (context,w₁))
      (settle : Settled context account w₁ balance w₂)
      (push : x.transfer w₂.perpetual.token destination amount w₂ = .ok w₃)
      (moved : Balance.MarginMoved balance out (-amount.toNat))
      (collateralized : isCollateralized context out = .ok true) :
      Withdrawn x msg account destination amount w
        (((w₃.write fun s => s.setBalance account out).emit
          (.withdraw account destination amount out.toBytes32)).setStatus NOT_ENTERED)

theorem withdrawn {x : Externals σ} {msg : Msg} {account destination : Address} {amount : Uint256}
    {w w' : World σ} (ok : Margin.withdraw x msg account destination amount w = .ok w') :
    Withdrawn x msg account destination amount w w' := by
  obtain ⟨live,guarded⟩ := noFinalSettlementOk.mp ok
  obtain ⟨_,mid,body,rfl⟩ := nonReentrantOk.mp guarded
  simp only [Checked.bindOk, Checked.requireOk, exists_const, Prod.exists, Checked.pureOk] at body
  obtain ⟨permission,context,w₁,load,balance,w₂,settle,w₃,push,out,sub,_,check,rfl,rfl⟩ := body
  exact .done live permission load (settled settle) push (Balance.subFromMarginMoved sub) check

inductive BatchTraded (x : Externals σ) (msg : Msg) (accounts : List Address)
    (trades : List TradeArg) (w : World σ) : World σ → Prop where
  | done {context : Context} {initialBalances : List Balance} {w₁ w₂ : World σ} {batch : Trade.Batch σ}
      (live : w.perpetual.finalSettlementEnabled = false)
      (unique : accounts.Nodup)
      (load : loadContext x msg (w.setStatus ENTERED) = .ok (context,w₁))
      (settle : settleAccounts context accounts w₁ = .ok (initialBalances,w₂))
      (start : Trade.InStep context accounts ⟨w₂,initialBalances,0⟩)
      (ran : Trade.runTrades x msg context accounts trades initialBalances w₂ = .ok batch)
      (verified : Trade.verifyAccountsFinalBalances context accounts initialBalances
        batch.currentBalances = .ok ()) :
      BatchTraded x msg accounts trades w (batch.world.setStatus NOT_ENTERED)

theorem batchTraded {x : Externals σ} {msg : Msg} {accounts : List Address}
    {trades : List TradeArg} {w w' : World σ} (ok : Trade.trade x msg accounts trades w = .ok w') :
    BatchTraded x msg accounts trades w w' := by
  obtain ⟨live,guarded⟩ := noFinalSettlementOk.mp ok
  obtain ⟨_,mid,body,rfl⟩ := nonReentrantOk.mp guarded
  simp only [Checked.bindOk, Prod.exists, Checked.pureOk] at body
  obtain ⟨_,checked,context,w₁,load,balances,w₂,settle,batch,ran,_,verified,rfl⟩ := body
  have unique := Trade.verifiedNodup checked
  have entered : w₁.perpetual.status = ENTERED := (loaded load).status
  have index : w₁.perpetual.globalIndex = context.index := by rw [(loaded load).storage]
  exact .done live unique load settle (Trade.inStepStart unique (settledAll settle) entered index) ran
    verified

inductive PaidOut (x : Externals σ) (msg : Msg) (w : World σ) : World σ → Prop where
  | early {balance : Balance} {w₁ : World σ}
      (enabled : w.perpetual.finalSettlementEnabled = true)
      (settle : settleAccount (FinalSettlement.finalContext w.perpetual) msg.sender
        (w.setStatus ENTERED) = .ok (balance,w₁))
      (debt : balance.netValue w.perpetual.finalSettlementPrice.toNat < 0) :
      PaidOut x msg w (w₁.setStatus NOT_ENTERED)
  | paid {balance rest : Balance} {w₁ w₂ : World σ} {held amount : Uint256} (value : Nat)
      (enabled : w.perpetual.finalSettlementEnabled = true)
      (settle : settleAccount (FinalSettlement.finalContext w.perpetual) msg.sender
        (w.setStatus ENTERED) = .ok (balance,w₁))
      (credit : 0 ≤ balance.netValue w.perpetual.finalSettlementPrice.toNat)
      (floor : (value : Int) = balance.netValue w.perpetual.finalSettlementPrice.toNat / 10 ^ 18)
      (holds : x.balanceOf w₁.perpetual.token w₁ = .ok held)
      (least : amount.toNat = min held.toNat value)
      (restMargin : rest.marginInt = value - amount.toNat)
      (restPosition : rest.positionInt = 0)
      (push : x.transfer w₁.perpetual.token msg.sender amount
        (w₁.write fun s => s.setBalance msg.sender rest) = .ok w₂) :
      PaidOut x msg w ((w₂.emit
        (.withdrawFinalSettlement msg.sender amount rest.toBytes32)).setStatus NOT_ENTERED)

theorem paidOut {x : Externals σ} {msg : Msg} {w w' : World σ}
    (ok : FinalSettlement.withdrawFinalSettlement x msg w = .ok w') : PaidOut x msg w w' := by
  obtain ⟨enabled,guarded⟩ := onlyFinalSettlementOk.mp ok
  obtain ⟨_,mid,body,rfl⟩ := nonReentrantOk.mp guarded
  simp only [Checked.bindOk, Prod.exists] at body
  obtain ⟨balance,w₁,settle,positive,negative,values,last⟩ := body
  obtain ⟨exactPositive,exactNegative⟩ := Balance.valuesExact values
  have net := balance.netOfValues w.perpetual.finalSettlementPrice.toNat
  change positive.toNat = balance.positiveValue w.perpetual.finalSettlementPrice.toNat at exactPositive
  change negative.toNat = balance.negativeValue w.perpetual.finalSettlementPrice.toNat at exactNegative
  split at last
  · rename_i less
    cases Checked.pureOk.mp last
    exact .early enabled settle (by omega)
  · rename_i enough
    simp only [Checked.bindOk, Checked.pureOk, SafeMath.subOk, SafeMath.divOk, SafeCast.toUint120,
      SafeCast.toUintOk] at last
    obtain ⟨d,hd,v,⟨_,hv⟩,held,holds,r,hr,rest,hrest,w₂,push,rfl⟩ := last
    have base : BaseMath.base.toNat = 10 ^ 18 := by simp [BaseMath.base]
    rw [Math.minNat] at hr
    rw [base] at hv
    refine .paid v.toNat enabled settle (by omega) (by omega) holds
      (Math.minNat _ _) ?_ rfl push
    have sign : signed (decide (rest ≠ 0)) rest.toNat = rest.toNat :=
      Signed.credit fun none => by rw [not_not.mp (of_decide_eq_false none)]; rfl
    rw [Balance.marginInt, sign, Math.minNat]
    omega

def Entry.isSetter : Entry → Bool
  | .setGlobalOperator _ _ | .setOracle _ | .setFunder _ | .setMinCollateral _ => true
  | .setLocalOperator _ _ => true
  | _ => false

structure FieldSet (w w' : World σ) : Prop where
  books : SameBooks w.perpetual w'.perpetual
  logs : w.logs <+: w'.logs
  ext : w'.ext = w.ext

theorem fieldSet {x : Externals σ} {msg : Msg} {entry : Entry} {w w' : World σ}
    (setter : entry.isSetter = true) (ok : exec x msg entry w = .ok w') : FieldSet w w' := by
  cases entry with
  | setGlobalOperator operator approved =>
    obtain ⟨_,guarded⟩ := onlyAdminOk.mp ok
    obtain ⟨_,mid,body,rfl⟩ := nonReentrantOk.mp guarded
    cases Checked.pureOk.mp body
    exact ⟨⟨rfl,rfl,rfl,rfl,rfl,rfl,rfl⟩,List.prefix_append _ _,rfl⟩
  | setOracle oracle =>
    obtain ⟨_,guarded⟩ := onlyAdminOk.mp ok
    obtain ⟨_,mid,body,rfl⟩ := nonReentrantOk.mp guarded
    simp only [Checked.bindOk, Checked.requireOk, exists_const, Checked.pureOk] at body
    obtain ⟨_,_,_,rfl⟩ := body
    exact ⟨⟨rfl,rfl,rfl,rfl,rfl,rfl,rfl⟩,List.prefix_append _ _,rfl⟩
  | setFunder funder =>
    obtain ⟨_,guarded⟩ := onlyAdminOk.mp ok
    obtain ⟨_,mid,body,rfl⟩ := nonReentrantOk.mp guarded
    simp only [Checked.bindOk, Checked.pureOk] at body
    obtain ⟨_,_,rfl⟩ := body
    exact ⟨⟨rfl,rfl,rfl,rfl,rfl,rfl,rfl⟩,List.prefix_append _ _,rfl⟩
  | setMinCollateral minCollateral =>
    obtain ⟨_,guarded⟩ := onlyAdminOk.mp ok
    obtain ⟨_,mid,body,rfl⟩ := nonReentrantOk.mp guarded
    simp only [Checked.bindOk, Checked.requireOk, exists_const, Checked.pureOk] at body
    obtain ⟨_,rfl⟩ := body
    exact ⟨⟨rfl,rfl,rfl,rfl,rfl,rfl,rfl⟩,List.prefix_append _ _,rfl⟩
  | setLocalOperator operator approved =>
    cases Except.ok.inj ok
    exact ⟨⟨rfl,rfl,rfl,rfl,rfl,rfl,rfl⟩,List.prefix_append _ _,rfl⟩
  | _ => cases setter

inductive Enabled (w : World σ) : World σ → Prop where
  | done {context : Context} {w₁ : World σ} (live : w.perpetual.finalSettlementEnabled = false)
      (load : Loaded (w.setStatus ENTERED) context w₁) :
      Enabled w (((w₁.write fun s =>
        { s with finalSettlementPrice := context.price, finalSettlementEnabled := true }).emit
          (.finalSettlementEnabled context.price)).setStatus NOT_ENTERED)

theorem enabled {x : Externals σ} {msg : Msg} {lower upper : Uint256} {w w' : World σ}
    (ok : Admin.enableFinalSettlement x msg lower upper w = .ok w') : Enabled w w' := by
  obtain ⟨_,gated⟩ := onlyAdminOk.mp ok
  obtain ⟨live,guarded⟩ := noFinalSettlementOk.mp gated
  obtain ⟨_,mid,body,rfl⟩ := nonReentrantOk.mp guarded
  simp only [Checked.bindOk, Checked.requireOk, exists_const, Prod.exists, Checked.pureOk] at body
  obtain ⟨context,w₁,load,_,_,rfl⟩ := body
  exact .done live (loaded load)

structure Initialized (msg : Msg) (token : Address) (w w' : World σ) : Prop where
  once : w.perpetual.initialized = false
  initialized : w'.perpetual.initialized = true
  token : w'.perpetual.token = token
  globalIndex : w'.perpetual.globalIndex = ⟨msg.timestamp.setWidth 32,false,0⟩
  balances : w'.perpetual.balances = w.perpetual.balances
  localIndexes : w'.perpetual.localIndexes = w.perpetual.localIndexes
  enabled : w'.perpetual.finalSettlementEnabled = w.perpetual.finalSettlementEnabled
  logs : w'.logs = w.logs
  ext : w'.ext = w.ext

theorem initialized {x : Externals σ} {msg : Msg} {token oracle funder : Address}
    {minCollateral : Uint256} {w w' : World σ}
    (ok : exec x msg (.initializeV1 token oracle funder minCollateral) w = .ok w') :
    Initialized msg token w w' := by
  obtain ⟨_,guarded⟩ := onlyAdminOk.mp ok
  obtain ⟨_,mid,body,rfl⟩ := nonReentrantOk.mp guarded
  simp only [Checked.bindOk, Checked.requireOk, exists_const, Checked.pureOk] at body
  obtain ⟨once,rfl⟩ := body
  exact ⟨once,rfl,rfl,rfl,rfl,rfl,rfl,rfl,rfl⟩

/-- The state of the other contracts moves only as their own calls move it. -/
structure Moves (R : σ → σ → Prop) (x : Externals σ) : Prop where
  refl : ∀ e, R e e
  trans : ∀ {a b c}, R a b → R b c → R a c
  trades : ∀ trader call w r w', x.trade trader call w = .ok (r,w') → R w.ext w'.ext
  pulls : ∀ token sender amount w w', x.transferFrom token sender amount w = .ok w' → R w.ext w'.ext
  pushes : ∀ token recipient amount w w', x.transfer token recipient amount w = .ok w' → R w.ext w'.ext

theorem settledExt {context : Context} {accounts : List Address} {w w' : World σ}
    {balances : List Balance} (settle : SettledAll context accounts w balances w') : w'.ext = w.ext :=
  settle.same World.ext Settled.ext

theorem execMoves {R : σ → σ → Prop} {x : Externals σ} (moves : Moves R x) {msg : Msg} {entry : Entry}
    {w w' : World σ} (ok : exec x msg entry w = .ok w') : R w.ext w'.ext := by
  have set : entry.isSetter = true → R w.ext w'.ext := by
    intro setter
    rw [(fieldSet setter ok).ext]
    exact moves.refl _
  cases entry with
  | deposit account amount =>
    cases deposited ok with
    | @done context balance out w₁ w₂ w₃ live load settle pull moved =>
      have same : w₂.ext = w.ext := settle.ext.trans load.ext
      have step : R w₂.ext w₃.ext := moves.pulls _ _ _ _ _ pull
      exact same ▸ step
  | withdraw account destination amount =>
    cases withdrawn ok with
    | @done context balance out w₁ w₂ w₃ live permission load settle push moved collateralized =>
      have same : w₂.ext = w.ext := settle.ext.trans (loaded load).ext
      have step : R w₂.ext w₃.ext := moves.pushes _ _ _ _ _ push
      exact same ▸ step
  | trade accounts trades =>
    cases batchTraded ok with
    | @done context initialBalances w₁ w₂ batch live unique load settle start ran verified =>
      have same : w₂.ext = w.ext := (settledExt (settledAll settle)).trans (loaded load).ext
      have loop : R w₂.ext batch.world.ext := by
        refine Checked.loopKeeps (P := fun s : Trade.Batch σ => R w₂.ext s.world.ext) ?_ ran (moves.refl _)
        intro s tradeArg s' _ before pass
        obtain ⟨maker,taker,result,mid,_,_,called,moved,_⟩ := (Trade.traded pass).called
        have after := moves.trans before (moves.trades _ _ _ _ _ called)
        generalize s'.world = w', s'.currentBalances = balances at moved
        cases moved with
        | self => exact after
        | between _ _ _ _ _ _ _ _ ext => rw [ext]; exact after
      exact same ▸ loop
  | withdrawFinalSettlement =>
    cases paidOut ok with
    | @early balance w₁ enabled settle debt =>
      have same : w₁.ext = w.ext := (settled settle).ext
      change R w.ext w₁.ext
      rw [same]
      exact moves.refl _
    | @paid balance rest w₁ w₂ held amount value enabled settle credit floor holds least restMargin
        restPosition push =>
      have same : w₁.ext = w.ext := (settled settle).ext
      have step : R (w₁.write fun s => s.setBalance msg.sender rest).ext w₂.ext :=
        moves.pushes _ _ _ _ _ push
      rw [World.writeExt] at step
      exact same ▸ step
  | enableFinalSettlement lower upper =>
    cases enabled ok with
    | @done context w₁ live load =>
      have same : w₁.ext = w.ext := load.ext
      change R w.ext w₁.ext
      rw [same]
      exact moves.refl _
  | initializeV1 token oracle funder minCollateral =>
    rw [(initialized ok).ext]
    exact moves.refl _
  | setGlobalOperator | setOracle | setFunder | setMinCollateral | setLocalOperator => exact set rfl

theorem External.moved {R : σ → σ → Prop} (refl : ∀ e, R e e) (trans : ∀ {a b c}, R a b → R b c → R a c)
    {w w' : World σ} (h : External R w w') : R w.ext w'.ext := by
  induction h with
  | refl w => exact refl _
  | own w ext allowed => exact allowed
  | reenter x msg entry traders pulls pushes ok ihTraders ihPulls ihPushes =>
    exact execMoves ⟨refl,trans,ihTraders,ihPulls,ihPushes⟩ ok
  | trans first last ihFirst ihLast => exact trans ihFirst ihLast

theorem Honest.moves {R : σ → σ → Prop} (refl : ∀ e, R e e) (trans : ∀ {a b c}, R a b → R b c → R a c)
    {x : Externals σ} (honest : Honest R x) : Moves R x where
  refl := refl
  trans := trans
  trades := fun trader call w r w' ok => (honest.traders trader call w r w' ok).moved refl trans
  pulls := fun token sender amount w w' ok => (honest.pulls token sender amount w w' ok).moved refl trans
  pushes := fun token recipient amount w w' ok =>
    (honest.pushes token recipient amount w w' ok).moved refl trans

end Perpetual
