import Perpetual.LiquidatorProxy
import Perpetual.BadDebt
import Perpetual.Liquidation
import Mathlib.Logic.Relation

/-! The bounds on the collateral requirement and on the insurance fee, over runs from the
deployment on. The setters check them; the initializer and the constructor do not. -/
namespace Perpetual
open Settlement Relation
variable {σ ρ : Type}

def CollateralBound (s : Storage) : Prop := s.initialized = true → 10 ^ 18 ≤ s.minCollateral.toNat

structure SameBound (s t : Storage) : Prop where
  initialized : t.initialized = s.initialized
  minCollateral : t.minCollateral = s.minCollateral

theorem SameBound.refl (s : Storage) : SameBound s s := ⟨rfl,rfl⟩

theorem SameBound.trans {s t u : Storage} (a : SameBound s t) (b : SameBound t u) : SameBound s u :=
  ⟨b.initialized.trans a.initialized,b.minCollateral.trans a.minCollateral⟩

theorem SameBound.keeps {s t : Storage} (same : SameBound s t) (bound : CollateralBound s) :
    CollateralBound t := by
  unfold CollateralBound
  rw [same.initialized, same.minCollateral]
  exact bound

theorem Untouched.bound {s t : Storage} (h : Untouched s t) : SameBound s t :=
  ⟨h.initialized,h.minCollateral⟩

theorem Settlement.Loaded.bound {w w' : World σ} {context : Context} (h : Loaded w context w') :
    SameBound w.perpetual w'.perpetual := by
  rw [h.storage]
  exact ⟨rfl,rfl⟩

theorem Settlement.Settled.bound {context : Context} {account : Address} {w w' : World σ} {b : Balance}
    (h : Settled context account w b w') : SameBound w.perpetual w'.perpetual := by
  obtain ⟨index,same,_⟩ := h.storage
  rw [same]
  exact ⟨rfl,rfl⟩

theorem Settlement.SettledAll.bound {context : Context} {accounts : List Address} {w w' : World σ}
    {balances : List Balance} (h : SettledAll context accounts w balances w') :
    SameBound w.perpetual w'.perpetual :=
  h.keeps (fun w w' => SameBound w.perpetual w'.perpetual) (fun _ => .refl _) .trans Settled.bound

section
variable {allow : σ → σ → Prop} {x : Externals σ} {msg : Msg}

theorem tradedBound (traders : Traders allow x) {context : Context} {accounts : List Address}
    {s s' : Trade.Batch σ} {tradeArg : TradeArg} (entered : s.world.perpetual.status = ENTERED)
    (ok : Trade.tradeOne x msg context accounts s tradeArg = .ok s') :
    SameBound s.world.perpetual s'.world.perpetual := by
  obtain ⟨called,balances,kept,same⟩ := tradedBalances traders entered ok
  rw [same]
  exact ⟨kept.initialized,kept.minCollateral⟩

theorem runBound (traders : Traders allow x) {context : Context} {accounts : List Address}
    {trades : List TradeArg} {balances : List Balance} {w : World σ} {batch : Trade.Batch σ}
    (entered : w.perpetual.status = ENTERED)
    (ran : Trade.runTrades x msg context accounts trades balances w = .ok batch) :
    SameBound w.perpetual batch.world.perpetual := by
  refine (Checked.loopKeeps (P := fun s : Trade.Batch σ => s.world.perpetual.status = ENTERED ∧
    SameBound w.perpetual s.world.perpetual) ?_ ran ⟨entered,.refl _⟩).2
  intro s tradeArg s' _ before pass
  exact ⟨tradedStatus traders before.1 pass,before.2.trans (tradedBound traders before.1 pass)⟩

theorem adminOk {body : World σ → Checked (World σ)} {w w' : World σ}
    (ok : onlyAdmin msg (nonReentrant body) w = .ok w') :
    ∃ mid, body (w.setStatus ENTERED) = .ok mid ∧ mid.setStatus NOT_ENTERED = w' := by
  obtain ⟨_,guarded⟩ := onlyAdminOk.mp ok
  exact (nonReentrantOk.mp guarded).2

def Entry.WithinBound : Entry → Prop
  | .initializeV1 _ _ _ minCollateral => 10 ^ 18 ≤ minCollateral.toNat
  | _ => True

theorem execBound (honest : Honest allow x) {entry : Entry} (within : entry.WithinBound) {w w' : World σ}
    (bound : CollateralBound w.perpetual) (ok : exec x msg entry w = .ok w') :
    CollateralBound w'.perpetual := by
  cases entry with
  | deposit account amount =>
    cases deposited ok with
    | @done context balance out w₁ w₂ w₃ live load settle pull moved =>
      have entered : w₂.perpetual.status = ENTERED := settle.status.trans load.status
      have kept := ((honest.pulls _ _ _ _ _ pull).untouched entered).bound
      exact ((load.bound.trans settle.bound).trans kept).keeps bound
  | withdraw account destination amount =>
    cases withdrawn ok with
    | @done context balance out w₁ w₂ w₃ live permission load settle push moved collateralized =>
      have entered : w₂.perpetual.status = ENTERED := settle.status.trans (loaded load).status
      have kept := ((honest.pushes _ _ _ _ _ push).untouched entered).bound
      exact (((loaded load).bound.trans settle.bound).trans kept).keeps bound
  | trade accounts trades =>
    cases batchTraded ok with
    | @done context initialBalances w₁ w₂ batch live unique load settle start ran verified =>
      have settled := settledAll settle
      have kept := runBound honest.traders (settled.status.trans (loaded load).status) ran
      exact (((loaded load).bound.trans settled.bound).trans kept).keeps bound
  | withdrawFinalSettlement =>
    cases paidOut ok with
    | @early balance w₁ enabled settle debt => exact (settled settle).bound.keeps bound
    | @paid balance rest w₁ w₂ held amount value enabled settle credit floor holds least restMargin
        restPosition push =>
      have entered : w₁.perpetual.status = ENTERED := (settled settle).status
      have moved := (honest.pushes _ _ _ _ _ push).untouched entered
      have kept : SameBound w₁.perpetual w₂.perpetual := ⟨moved.initialized,moved.minCollateral⟩
      exact ((settled settle).bound.trans kept).keeps bound
  | enableFinalSettlement lower upper =>
    cases enabled ok with
    | @done context w₁ live load => exact load.bound.keeps bound
  | setLocalOperator operator approved =>
    cases Except.ok.inj ok
    exact bound
  | setMinCollateral minCollateral =>
    obtain ⟨mid,body,rfl⟩ := adminOk ok
    simp only [Checked.bindOk, Checked.requireOk, exists_const, Checked.pureOk] at body
    obtain ⟨least,rfl⟩ := body
    exact fun _ => least
  | initializeV1 token oracle funder minCollateral =>
    obtain ⟨mid,body,rfl⟩ := adminOk ok
    simp only [Checked.bindOk, Checked.requireOk, exists_const, Checked.pureOk] at body
    obtain ⟨_,rfl⟩ := body
    exact fun _ => within
  | setGlobalOperator operator approved =>
    obtain ⟨mid,body,rfl⟩ := adminOk ok
    cases Checked.pureOk.mp body
    exact bound
  | setOracle oracle =>
    obtain ⟨mid,body,rfl⟩ := adminOk ok
    simp only [Checked.bindOk, Checked.requireOk, exists_const, Checked.pureOk] at body
    obtain ⟨price,_,_,rfl⟩ := body
    exact bound
  | setFunder funder =>
    obtain ⟨mid,body,rfl⟩ := adminOk ok
    simp only [Checked.bindOk, Checked.pureOk] at body
    obtain ⟨_,_,rfl⟩ := body
    exact bound

end

/-! The proxy beside PerpetualV1. -/

open P1LiquidatorProxy

inductive Configured (s : LiquidatorProxyContract) : LiquidatorProxyContract → Prop where
  | fund {s' : LiquidatorProxyContract} (msg : Msg) (insuranceFund : Address)
      (ok : setInsuranceFund msg insuranceFund s = .ok s') : Configured s s'
  | fee {s' : LiquidatorProxyContract} (msg : Msg) (insuranceFee : Uint256)
      (ok : setInsuranceFee msg insuranceFee s = .ok s') : Configured s s'
  | owner (newOwner : Address) : Configured s { s with owner := newOwner }

def ConfiguresProxy (e e' : LiquidatorHost ρ) : Prop := ReflTransGen Configured e.contract e'.contract

/-- Calls of both contracts in any order, from a start on. `allowed` restricts the calls of
PerpetualV1, those of the proxy are free. -/
inductive ProxyRun (this : Address) (allowed : Entry → Prop) (start : World (LiquidatorHost ρ)) :
    World (LiquidatorHost ρ) → Prop where
  | none : ProxyRun this allowed start start
  | call {w : World (LiquidatorHost ρ)} (before : ProxyRun this allowed start w)
      (x : Externals (LiquidatorHost ρ)) (msg : Msg) (entry : Entry) (honest : Honest ConfiguresProxy x)
      (within : allowed entry) : ProxyRun this allowed start (perform x msg entry w)
  | configure {w : World (LiquidatorHost ρ)} {contract : LiquidatorProxyContract}
      (before : ProxyRun this allowed start w) (step : Configured w.ext.contract contract) :
      ProxyRun this allowed start { w with ext := { w.ext with contract := contract } }
  | liquidate {w w' : World (LiquidatorHost ρ)} (before : ProxyRun this allowed start w)
      (x : Externals (LiquidatorHost ρ)) (msg : Msg) (liquidatee liquidator : Address) (isBuy : Bool)
      (maxPosition : SignedInt) (liqAmount : Uint256) (honest : Honest ConfiguresProxy x)
      (ok : P1LiquidatorProxy.liquidate x this msg liquidatee liquidator isBuy maxPosition w =
        .ok (liqAmount,w')) : ProxyRun this allowed start w'
  | elsewhere {w : World (LiquidatorHost ρ)} (before : ProxyRun this allowed start w) (rest : ρ) :
      ProxyRun this allowed start { w with ext := { w.ext with rest := rest } }

def FeeBound (s : LiquidatorProxyContract) : Prop := s.insuranceFee.toNat ≤ MAX_INSURANCE_FEE

theorem configuredFee {s s' : LiquidatorProxyContract} (bound : FeeBound s) (step : Configured s s') :
    FeeBound s' := by
  cases step with
  | fund msg insuranceFund ok =>
    unfold FeeBound
    rw [fundSet ok]
    exact bound
  | fee msg insuranceFee ok => exact feeSet ok
  | owner newOwner => exact bound

theorem configuresFee {s s' : LiquidatorProxyContract} (steps : ReflTransGen Configured s s')
    (bound : FeeBound s) : FeeBound s' := by
  induction steps with
  | refl => exact bound
  | tail before step ih => exact configuredFee ih step

structure Bounds (w : World (LiquidatorHost ρ)) : Prop where
  collateral : CollateralBound w.perpetual
  fee : FeeBound w.ext.contract

section
variable {x : Externals (LiquidatorHost ρ)} {msg : Msg} {w w' : World (LiquidatorHost ρ)}

theorem execBounds (honest : Honest ConfiguresProxy x) {entry : Entry} (within : entry.WithinBound)
    (bounds : Bounds w) (ok : exec x msg entry w = .ok w') : Bounds w' where
  collateral := execBound honest within bounds.collateral ok
  fee := configuresFee (execMoves (honest.moves (fun _ => .refl) ReflTransGen.trans) ok) bounds.fee

inductive Charged (x : Externals (LiquidatorHost ρ)) (this : Address) (msg : Msg)
    (liquidatee liquidator : Address) (isBuy : Bool) (w : World (LiquidatorHost ρ)) :
    World (LiquidatorHost ρ) → Prop where
  | done {w₁ w₂ w₃ : World (LiquidatorHost ρ)} {accounts : List Address} {trade : TradeArg}
      {price liqAmount feeAmount : Uint256}
      (settle : exec x ⟨this,msg.timestamp⟩ (.deposit liquidator 0) w = .ok w₁)
      (liquidation : exec x ⟨this,msg.timestamp⟩ (.trade accounts [trade]) w₁ = .ok w₂)
      (quote : x.getPrice w₂.perpetual.oracle w₂ = .ok price)
      (transfer : transferFee x ⟨this,msg.timestamp⟩ liquidator feeAmount w₂ = .ok w₃)
      (atMostHalf : feeAmount = 0 ∨ 2 * 10 ^ 18 * (feeAmount.toNat : Int) ≤
        (w₂.perpetual.balances liquidator).netValue price.toNat -
          (w₁.perpetual.balances liquidator).netValue price.toNat) :
      Charged x this msg liquidatee liquidator isBuy w
        { w₃ with ext := { w₃.ext with contract := { w₃.ext.contract with
          logs := w₃.ext.contract.logs ++
            [.liquidatorProxyUsed liquidatee liquidator isBuy liqAmount feeAmount] } } }

theorem liquidated {this liquidatee liquidator : Address} {isBuy : Bool} {maxPosition : SignedInt}
    {liqAmount : Uint256} (honest : Honest ConfiguresProxy x) (bounds : Bounds w)
    (ok : liquidate x this msg liquidatee liquidator isBuy maxPosition w = .ok (liqAmount,w')) :
    Charged x this msg liquidatee liquidator isBuy w w' ∧ Bounds w' := by
  simp only [liquidate, Checked.bindOk, Checked.requireOk, exists_const, Prod.exists, Checked.pureOk,
    Prod.mk.injEq] at ok
  obtain ⟨_,w₁,settle,delta,_,w₂,liquidation,amount,fee,charge,w₃,transfer,rfl,rfl⟩ := ok
  have settledBounds : Bounds w₁ := execBounds honest (by exact trivial) bounds settle
  have tradedBounds : Bounds w₂ := execBounds honest (by exact trivial) settledBounds liquidation
  obtain ⟨price,quote,half⟩ := feeCharged tradedBounds.fee charge
  refine ⟨.done settle liquidation quote transfer half,?_⟩
  have last : Bounds w₃ := by
    unfold transferFee at transfer
    split at transfer
    · obtain ⟨mid,withdrawal,deposit⟩ := Checked.bindOk.mp transfer
      have withdrawnBounds : Bounds mid := execBounds honest (by exact trivial) tradedBounds withdrawal
      exact execBounds honest (by exact trivial) withdrawnBounds deposit
    · exact Checked.pureOk.mp transfer ▸ tradedBounds
  exact ⟨last.collateral,last.fee⟩

theorem runBounds {this : Address} {start : World (LiquidatorHost ρ)} (bounds : Bounds start)
    (run : ProxyRun this Entry.WithinBound start w) : Bounds w := by
  induction run with
  | none => exact bounds
  | call before x msg entry honest within ih =>
    unfold perform
    split
    · rename_i ok
      exact execBounds honest within ih ok
    · exact ih
  | configure before step ih => exact ⟨ih.collateral,configuredFee ih.fee step⟩
  | liquidate before x msg liquidatee liquidator isBuy maxPosition liqAmount honest ok ih =>
    exact (liquidated honest ih ok).2
  | elsewhere before rest ih => exact ⟨ih.collateral,ih.fee⟩

end

def deployedProxy (admin : Address) (contract : LiquidatorProxyContract) (rest : ρ) :
    World (LiquidatorHost ρ) := ⟨Storage.deployed admin,[],contract,rest⟩

structure Safe (this : Address) (w : World (LiquidatorHost ρ)) : Prop where
  minCollateral : w.perpetual.initialized = true → 10 ^ 18 ≤ w.perpetual.minCollateral.toNat
  withdrawals : w.perpetual.initialized = true →
    ∀ (x : Externals (LiquidatorHost ρ)) msg account destination amount w',
      exec x msg (.withdraw account destination amount) w = .ok w' →
      ∃ context w₁, loadContext x msg (w.setStatus ENTERED) = .ok (context,w₁) ∧
        (w'.perpetual.balances account).negativeValue context.price.toNat ≤
          (w'.perpetual.balances account).positiveValue context.price.toNat
  insuranceFee : w.ext.contract.insuranceFee.toNat ≤ MAX_INSURANCE_FEE
  charges : ∀ x msg liquidatee liquidator isBuy maxPosition liqAmount w', Honest ConfiguresProxy x →
    liquidate x this msg liquidatee liquidator isBuy maxPosition w = .ok (liqAmount,w') →
    Charged x this msg liquidatee liquidator isBuy w w'

/-- Where the initializer and the constructor get arguments within the bounds, no later calls
break them. -/
theorem boundsAreSafe (this admin : Address) (msg : Msg)
    (perpetualV1 liquidator insuranceFund : Address) (insuranceFee : Uint256) (rest : ρ)
    (withinFee : insuranceFee.toNat ≤ MAX_INSURANCE_FEE) (w : World (LiquidatorHost ρ))
    (run : ProxyRun this Entry.WithinBound
      (deployedProxy admin (constructor msg perpetualV1 liquidator insuranceFund insuranceFee) rest) w) :
    Safe this w := by
  have start : Bounds (deployedProxy admin
      (constructor msg perpetualV1 liquidator insuranceFund insuranceFee) rest) :=
    ⟨fun initialized => by (cases initialized),withinFee⟩
  have bounds : Bounds w := runBounds start run
  refine ⟨bounds.collateral,fun initialized x msg account destination amount w' ok => ?_,bounds.fee,?_⟩
  · obtain ⟨context,w₁,load,covered⟩ := withdrawalCovered (bounds.collateral initialized) ok
    exact ⟨context,w₁,load,Nat.sub_eq_zero_iff_le.mp covered⟩
  · intro x msg liquidatee liquidator isBuy maxPosition liqAmount w' honest ok
    exact (liquidated honest bounds ok).1

def proxySample (price : Uint256) : Externals (LiquidatorHost Unit) where
  getPrice := fun _ _ => .ok (price * BaseMath.BASE)
  getFunding := fun _ _ _ => .ok (true,0)
  balanceOf := fun _ _ => .ok 0
  transferFrom := fun _ _ _ w => .ok w
  transfer := fun _ _ _ w => .ok w
  trade := fun trader call w => do
    if trader = 9 then
      let (result,_) ← P1Liquidation.trade ⟨7,0⟩ w.perpetual call ⟨7,[]⟩
      return (result,w)
    else
      return (⟨70,7,true,1⟩,w)

theorem proxySampleHonest (price : Uint256) : Honest ConfiguresProxy (proxySample price) where
  traders := by
    intro trader call w₁ r w₂ ok
    simp only [proxySample] at ok
    split at ok
    · simp only [Checked.bindOk, Prod.exists, Checked.pureOk, Prod.mk.injEq] at ok
      obtain ⟨_,_,_,_,rfl⟩ := ok
      exact .refl _
    · obtain ⟨_,rfl⟩ := Prod.mk.inj (Checked.pureOk.mp ok)
      exact .refl _
  pulls := fun _ _ _ _ _ ok => .ofSame ok
  pushes := fun _ _ _ _ _ ok => .ofSame ok

def sampleProxy (insuranceFee : Uint256) : World (LiquidatorHost Unit) :=
  deployedProxy 3 (constructor ⟨4,1⟩ 7 9 5 insuranceFee) ()

def sampleSetup (minCollateral : Uint256) : List (Msg × Entry) :=
  [(⟨3,100⟩,.initializeV1 21 22 23 minCollateral),(⟨3,100⟩,.setGlobalOperator 6 true),
    (⟨3,100⟩,.setGlobalOperator 8 true),(⟨3,100⟩,.setGlobalOperator 9 true),(⟨1,100⟩,.deposit 1 100),
    (⟨2,100⟩,.deposit 2 1000),(⟨2,100⟩,.trade [1,2] [⟨1,0,8,[]⟩])]

def setUp (calls : List (Msg × Entry)) (w : World (LiquidatorHost Unit)) : World (LiquidatorHost Unit) :=
  calls.foldl (fun w c => perform (proxySample 10) c.1 c.2 w) w

theorem setUpRun {this : Address} {allowed : Entry → Prop} {start w : World (LiquidatorHost Unit)}
    (calls : List (Msg × Entry)) (within : ∀ c ∈ calls, allowed c.2) (run : ProxyRun this allowed start w) :
    ProxyRun this allowed start (setUp calls w) := by
  induction calls generalizing w with
  | nil => exact run
  | cons c rest ih =>
    obtain ⟨first,others⟩ := List.forall_mem_cons.mp within
    exact ih others (run.call (proxySample 10) c.1 c.2 (proxySampleHonest 10) first)

def sampleLiquidation (insuranceFee : Uint256) : Checked (Uint256 × World (LiquidatorHost Unit)) :=
  liquidate (proxySample 24) 6 ⟨2,100⟩ 1 2 false ⟨0,true⟩
    (setUp (sampleSetup (11 * 10 ^ 17)) (sampleProxy insuranceFee))

def chargedBy (outcome : Checked (Uint256 × World (LiquidatorHost Unit))) : Option LiquidatorProxyLog :=
  match outcome with
  | .ok (_,w) => w.ext.contract.logs.getLast?
  | .error _ => none

example : chargedBy (sampleLiquidation (5 * 10 ^ 17)) = some (.liquidatorProxyUsed 1 2 false 7 1) := by
  decide +kernel

theorem sampleSafe : Safe 6 (setUp (sampleSetup (11 * 10 ^ 17)) (sampleProxy (5 * 10 ^ 17))) := by
  refine boundsAreSafe 6 3 ⟨4,1⟩ 7 9 5 (5 * 10 ^ 17) () (by decide) _ (setUpRun _ ?_ .none)
  have least : 10 ^ 18 ≤ (11 * 10 ^ 17 : Uint256).toNat := by decide
  simp only [sampleSetup, List.forall_mem_cons, Entry.WithinBound]
  exact ⟨least,trivial,trivial,trivial,trivial,trivial,trivial,fun _ no => by cases no⟩

theorem sampleUnsafe :
    let w := setUp (sampleSetup 0) (sampleProxy (10 ^ 18))
    ProxyRun 6 (fun _ => True) (sampleProxy (10 ^ 18)) w ∧
    w.perpetual.initialized = true ∧ w.perpetual.minCollateral.toNat < 10 ^ 18 ∧
    (∃ w', exec (proxySample 10) ⟨31,100⟩ (.withdraw 31 31 500) w = .ok w' ∧
      (w'.perpetual.balances 31).positiveValue (10 * 10 ^ 18) <
        (w'.perpetual.balances 31).negativeValue (10 * 10 ^ 18)) ∧
    MAX_INSURANCE_FEE < w.ext.contract.insuranceFee.toNat ∧
    chargedBy (sampleLiquidation (10 ^ 18)) = some (.liquidatorProxyUsed 1 2 false 7 2) := by
  refine ⟨setUpRun _ (fun _ _ => trivial) .none,by decide +kernel,by decide +kernel,?_,by decide +kernel,
    by decide +kernel⟩
  have left : (exec (proxySample 10) ⟨31,100⟩ (.withdraw 31 31 500)
      (setUp (sampleSetup 0) (sampleProxy (10 ^ 18)))).map (fun w' => w'.perpetual.balances 31) =
        .ok ⟨false,false,500,0⟩ := by decide +kernel
  cases ok : exec (proxySample 10) ⟨31,100⟩ (.withdraw 31 31 500)
      (setUp (sampleSetup 0) (sampleProxy (10 ^ 18))) with
  | error reason => rw [ok] at left; cases left
  | ok w' =>
    rw [ok] at left
    refine ⟨w',rfl,?_⟩
    rw [show w'.perpetual.balances 31 = _ from Except.ok.inj left]
    decide

end Perpetual
