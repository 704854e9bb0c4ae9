import Perpetual.DeleveragingHistory
import Perpetual.Solvency

/-! P1Deleveraging beside PerpetualV1: calls of its own and whole transactions of PerpetualV1
in any order. A transaction that reverts leaves nothing, its deleveragings included. -/
namespace Perpetual
open P1Deleveraging
variable {ρ : Type}

structure DeleveragingHost (ρ : Type) where
  contract : DeleveragingContract
  journal : List DeleveragingCall
  rest : ρ

def DeleveragingHost.commit (e : DeleveragingHost ρ) (contract : DeleveragingContract)
    (new : List DeleveragingCall) : DeleveragingHost ρ :=
  { e with contract := contract, journal := e.journal ++ new }

def deleveragingTrade (msg : Msg) (call : TraderCall) (w : World (DeleveragingHost ρ)) :
    Checked (TradeResult × World (DeleveragingHost ρ)) := do
  let (result,contract) ← P1Deleveraging.trade msg w.perpetual call w.ext.contract
  return (result,{ w with ext := w.ext.commit contract [record call msg.timestamp w.perpetual result] })

def During (perpetual : Storage) (timestamp : Uint256) (p : Storage) (now : Uint256) : Prop :=
  p.balances = perpetual.balances ∧ p.oracle = perpetual.oracle ∧ now = timestamp

def CallsDeleveraging (seen : Storage → Uint256 → Prop) (e e' : DeleveragingHost ρ) : Prop :=
  ∃ calls, Steps seen e.contract calls e'.contract ∧ e'.journal = e.journal ++ calls

/-- Other code changes the state of P1Deleveraging only by calls that it commits. While it runs,
the guard of PerpetualV1 keeps the stored balances as they are. -/
structure DeleveragingEnvironment (this deleveragingAddress : Address)
    (x : Externals (DeleveragingHost ρ)) (msg : Msg) : Prop where
  deleveraging : ∀ call w,
    x.trade deleveragingAddress call w = deleveragingTrade ⟨this,msg.timestamp⟩ call w
  others : ∀ trader call w r w', trader ≠ deleveragingAddress → x.trade trader call w = .ok (r,w') →
    CallsDeleveraging (During w.perpetual msg.timestamp) w.ext w'.ext
  pulls : ∀ token sender amount w w', x.transferFrom token sender amount w = .ok w' →
    CallsDeleveraging (During w.perpetual msg.timestamp) w.ext w'.ext
  pushes : ∀ token recipient amount w w', x.transfer token recipient amount w = .ok w' →
    CallsDeleveraging (During w.perpetual msg.timestamp) w.ext w'.ext

inductive DeleveragingRun (this deleveragingAddress : Address) (start : World (DeleveragingHost ρ)) :
    World (DeleveragingHost ρ) → Prop where
  | none : DeleveragingRun this deleveragingAddress start start
  | step {w : World (DeleveragingHost ρ)} {contract : DeleveragingContract} {new : List DeleveragingCall}
      (before : DeleveragingRun this deleveragingAddress start w) (now : Uint256)
      (ok : Step w.perpetual now w.ext.contract new contract) :
      DeleveragingRun this deleveragingAddress start { w with ext := w.ext.commit contract new }
  | call {w : World (DeleveragingHost ρ)} (before : DeleveragingRun this deleveragingAddress start w)
      (x : Externals (DeleveragingHost ρ)) (msg : Msg) (entry : Entry)
      (environment : DeleveragingEnvironment this deleveragingAddress x msg) :
      DeleveragingRun this deleveragingAddress start (perform x msg entry w)
  | elsewhere {w : World (DeleveragingHost ρ)} (before : DeleveragingRun this deleveragingAddress start w)
      (rest : ρ) :
      DeleveragingRun this deleveragingAddress start { w with ext := { w.ext with rest := rest } }

section
variable {this deleveragingAddress : Address} {seen : Storage → Uint256 → Prop}

theorem CallsDeleveraging.refl (e : DeleveragingHost ρ) : CallsDeleveraging seen e e :=
  ⟨[],.none,(List.append_nil _).symm⟩

theorem CallsDeleveraging.trans {a b c : DeleveragingHost ρ} (first : CallsDeleveraging seen a b)
    (last : CallsDeleveraging seen b c) : CallsDeleveraging seen a c := by
  obtain ⟨early,steps,journal⟩ := first
  obtain ⟨late,steps',journal'⟩ := last
  exact ⟨early ++ late,steps.trans steps',by rw [journal', journal, List.append_assoc]⟩

theorem CallsDeleveraging.anywhere {a b : DeleveragingHost ρ} (calls : CallsDeleveraging seen a b) :
    CallsDeleveraging (fun _ _ => True) a b := by
  obtain ⟨new,steps,journal⟩ := calls
  exact ⟨new,steps.imp fun _ _ _ => trivial,journal⟩

theorem committedStep {e : DeleveragingHost ρ} {contract : DeleveragingContract}
    {new : List DeleveragingCall} {perpetual : Storage} {now : Uint256}
    (step : Step perpetual now e.contract new contract) :
    CallsDeleveraging (fun _ _ => True) e (e.commit contract new) :=
  ⟨new,.more .none perpetual now trivial step,rfl⟩

theorem DeleveragingEnvironment.moves {x : Externals (DeleveragingHost ρ)} {msg : Msg}
    (h : DeleveragingEnvironment this deleveragingAddress x msg) :
    Moves (CallsDeleveraging fun _ _ => True) x where
  refl := .refl
  trans := .trans
  trades := by
    intro trader call w r w' ok
    by_cases here : trader = deleveragingAddress
    · rw [here, h.deleveraging] at ok
      simp only [deleveragingTrade, Checked.bindOk, Prod.exists, Checked.pureOk, Prod.mk.injEq] at ok
      obtain ⟨result,contract,traded,_,rfl⟩ := ok
      exact committedStep (.trade _ call result traded)
    · exact (h.others trader call w r w' here ok).anywhere
  pulls := fun token sender amount w w' ok => (h.pulls token sender amount w w' ok).anywhere
  pushes := fun token recipient amount w w' ok => (h.pushes token recipient amount w w' ok).anywhere

theorem deleveragingHistory {w w' : World (DeleveragingHost ρ)}
    (run : DeleveragingRun this deleveragingAddress w w') :
    CallsDeleveraging (fun _ _ => True) w.ext w'.ext := by
  induction run with
  | none => exact .refl _
  | step before now ok ih => exact ih.trans (committedStep ok)
  | call before x msg entry environment ih =>
    refine ih.trans ?_
    unfold perform
    split
    · rename_i w' ok
      exact execMoves environment.moves ok
    · exact .refl _
  | elsewhere before rest ih => exact ih.trans (.refl _)

end

structure Awaited (before : List DeleveragingCall) (d : Deleveraging) : Prop where
  marked : ∃ marking, MarkedAt d.maker marking before ∧
    marking.toNat + DELEVERAGING_TIMELOCK_S.toNat ≤ d.timestamp.toNat
  underwater : Underwater d.makerBalance d.price
  opposite : d.takerBalance.positionIsPositive ≠ d.makerBalance.positionIsPositive

/-- Every deleveraging in a run from the deployment on, other than by whoever is the operator
at that time, has awaited the waiting period. -/
theorem unprivilegedAwaits {this deleveragingAddress operator : Address} {msg : Msg}
    {w₀ w : World (DeleveragingHost ρ)} (deployed : w₀.ext.contract = constructor msg this operator)
    (unused : w₀.ext.journal = []) (run : DeleveragingRun this deleveragingAddress w₀ w)
    {before after : List DeleveragingCall} {d : Deleveraging}
    (committed : w.ext.journal = before ++ .trade d::after)
    (unprivileged : d.sender ≠ operatorAfter operator before) : Awaited before d := by
  obtain ⟨calls,steps,journal⟩ := deleveragingHistory run
  rw [unused, List.nil_append] at journal
  obtain ⟨perpetual,now,s,s',earlier,step⟩ := steps.split (journal.symm.trans committed)
  have operatorNow := stepsOperator earlier
  have fresh : ∀ a, w₀.ext.contract.markedTimestamp a = 0 := by
    rw [deployed]
    exact fun _ => rfl
  rw [deployed] at operatorNow
  cases step with
  | trade sender call result ok =>
    have done := deleveraged ok
    obtain ⟨marked,enough⟩ := done.permission (operatorNow ▸ unprivileged)
    exact ⟨⟨_,markedAt earlier fresh marked,enough⟩,done.underwater,done.opposite⟩

def deleveragingSample (timestamp : Uint256) : Externals (DeleveragingHost Unit) where
  getPrice := fun _ _ => .ok samplePrice
  getFunding := fun _ _ _ => .ok (true,0)
  balanceOf := fun _ _ => .ok 0
  transferFrom := fun _ _ _ w => .ok w
  transfer := fun _ _ _ w => .ok w
  trade := fun trader call w =>
    if trader = 9 then deleveragingTrade ⟨7,timestamp⟩ call w else .error "no trader"

theorem deleveragingSampleEnvironment (msg : Msg) :
    DeleveragingEnvironment 7 9 (deleveragingSample msg.timestamp) msg where
  deleveraging := fun _ _ => rfl
  others := by
    intro trader call w r w' other ok
    rw [show (deleveragingSample msg.timestamp).trade trader call w = .error "no trader" from
      if_neg other] at ok
    cases ok
  pulls := by
    intro token sender amount w w' ok
    cases Except.ok.inj ok
    exact .refl _
  pushes := by
    intro token recipient amount w w' ok
    cases Except.ok.inj ok
    exact .refl _

def sampleUnmarked : World (DeleveragingHost Unit) := ⟨sampleShort,[],⟨sampleContract,[],()⟩⟩

def sampleMarked : World (DeleveragingHost Unit) :=
  let marked := sampleUnmarked.ext.commit (markAccount 100 1 sampleContract)
    [.mark 1 100 ⟨true,false,100,7⟩ samplePrice]
  { sampleUnmarked with ext := marked }

def sampleTakeover : World (DeleveragingHost Unit) :=
  perform (deleveragingSample 1900) ⟨5,1900⟩
    (.trade [1,2] [⟨1,0,9,Abi.word 7 ++ Abi.word 0 ++ Abi.word 0⟩]) sampleMarked

theorem sampleAwaited : ∃ d, sampleTakeover.ext.journal =
    [.mark 1 100 ⟨true,false,100,7⟩ samplePrice] ++ .trade d::[] ∧
    Awaited [.mark 1 100 ⟨true,false,100,7⟩ samplePrice] d := by
  have under : isUnderwater (sampleUnmarked.perpetual.balances 1) samplePrice = .ok true := by
    decide +kernel
  have marks : mark ⟨5,100⟩ (fun _ => .ok samplePrice) sampleUnmarked.perpetual 1 sampleContract =
      .ok (markAccount 100 1 sampleContract) := markOk.mpr ⟨accountUnderwater.mpr ⟨_,rfl,under⟩,rfl⟩
  have first : DeleveragingRun 7 9 sampleUnmarked sampleMarked :=
    .step .none 100 (.mark 5 _ 1 samplePrice rfl marks)
  have run : DeleveragingRun 7 9 sampleUnmarked sampleTakeover :=
    first.call (deleveragingSample 1900) ⟨5,1900⟩ _ (deleveragingSampleEnvironment ⟨5,1900⟩)
  have journal : sampleTakeover.ext.journal = [.mark 1 100 ⟨true,false,100,7⟩ samplePrice] ++
      .trade ⟨5,1,2,1900,samplePrice,⟨true,false,100,7⟩,⟨true,true,1000,7⟩,7⟩::[] := by
    decide +kernel
  have deployed : sampleUnmarked.ext.contract = constructor ⟨4,50⟩ 7 2 := rfl
  exact ⟨_,journal,unprivilegedAwaits deployed rfl run journal (by decide +kernel)⟩

end Perpetual
