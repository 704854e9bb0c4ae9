import Perpetual.LogReplay

/-! Which calls of PerpetualV1 a log can come from. -/
namespace Perpetual
open Settlement

section
variable {σ : Type}

def Log.comesFrom (sender : Address) (entry : Entry) : Log → Prop
  | .index _ | .accountSettled _ _ _ _ | .setLocalOperator _ _ _ => True
  | .deposit account amount _ => entry = .deposit account amount
  | .withdraw account destination amount _ => entry = .withdraw account destination amount
  | .trade _ _ _ _ _ _ _ _ => ∃ accounts trades, entry = .trade accounts trades
  | .withdrawFinalSettlement account _ _ => entry = .withdrawFinalSettlement ∧ account = sender
  | .setGlobalOperator operator approved => entry = .setGlobalOperator operator approved
  | .setOracle oracle => entry = .setOracle oracle
  | .setFunder funder => entry = .setFunder funder
  | .setMinCollateral minCollateral => entry = .setMinCollateral minCollateral
  | .finalSettlementEnabled _ => ∃ lower upper, entry = .enableFinalSettlement lower upper

def LogsOf (kind : Log → Prop) (w w' : World σ) : Prop := ∃ new, w'.logs = w.logs ++ new ∧ ∀ l ∈ new, kind l

namespace LogsOf
variable {kind : Log → Prop} {w mid w' : World σ}

theorem quiet (logged : w'.logs = w.logs) : LogsOf kind w w' :=
  ⟨[],by rw [logged, List.append_nil],List.forall_mem_nil _⟩

theorem emitted {log : Log} (logged : w'.logs = w.logs ++ [log]) (ofKind : kind log) : LogsOf kind w w' := by
  refine ⟨[log],logged,fun l mem => ?_⟩
  cases List.mem_singleton.mp mem
  exact ofKind

theorem trans (before : LogsOf kind w mid) (after : LogsOf kind mid w') : LogsOf kind w w' := by
  obtain ⟨first,logged,ofFirst⟩ := before
  obtain ⟨last,more,ofLast⟩ := after
  exact ⟨first ++ last,by rw [more, logged, List.append_assoc],List.forall_mem_append.mpr ⟨ofFirst,ofLast⟩⟩

theorem mono {other : Log → Prop} (weaker : ∀ l, kind l → other l) (h : LogsOf kind w w') :
    LogsOf other w w' := by
  obtain ⟨new,logged,ofKind⟩ := h
  exact ⟨new,logged,fun l mem => weaker l (ofKind l mem)⟩

theorem guarded (body : LogsOf kind (w.setStatus ENTERED) w') : LogsOf kind w (w'.setStatus NOT_ENTERED) := body

end LogsOf

variable {allow : σ → σ → Prop} {x : Externals σ} {msg : Msg} {w w' : World σ} {sender : Address} {entry : Entry}

theorem externalLogged (h : External allow w w') (entered : w.perpetual.status = ENTERED) :
    LogsOf (Log.comesFrom sender entry) w w' := by
  obtain ⟨new,explains,operators⟩ := externalExplained h entered
  refine ⟨new,explains.logged,fun l mem => ?_⟩
  obtain ⟨_,_,_,rfl⟩ := operators l mem
  exact trivial

theorem settleLogged {context : Context} {account : Address} {b : Balance}
    (settle : Settled context account w b w') : LogsOf (Log.comesFrom sender entry) w w' := by
  obtain ⟨new,logged,names⟩ := settle.logs
  refine ⟨new,logged,fun l mem => ?_⟩
  obtain ⟨_,_,_,rfl⟩ := names l mem
  exact trivial

theorem loadLogged {context : Context} (load : Loaded w context w') : LogsOf (Log.comesFrom sender entry) w w' :=
  .emitted load.logs trivial

theorem openingLogged {context : Context} {accounts : List Address} {balances : List Balance} {w₁ w₂ : World σ}
    (load : loadContext x msg (w.setStatus ENTERED) = .ok (context,w₁))
    (settle : settleAccounts context accounts w₁ = .ok (balances,w₂)) :
    LogsOf (Log.comesFrom sender entry) w w₂ := by
  have settles : LogsOf (Log.comesFrom sender entry) w₁ w₂ :=
    (settledAll settle).keeps _ (fun _ => .quiet rfl) .trans settleLogged
  exact (loadLogged (loaded load)).trans settles

theorem marginLogged {context : Context} {account : Address} {balance out : Balance} {log : Log}
    {w w₁ w₂ w₃ : World σ} (load : Loaded (w.setStatus ENTERED) context w₁)
    (settle : Settled context account w₁ balance w₂) (external : External allow w₂ w₃)
    (comes : log.comesFrom sender entry) :
    LogsOf (Log.comesFrom sender entry) w
      (((w₃.write fun s => s.setBalance account out).emit log).setStatus NOT_ENTERED) := by
  have entered : w₂.perpetual.status = ENTERED := settle.status.trans load.status
  have opened : LogsOf (Log.comesFrom sender entry) (w.setStatus ENTERED) w₂ :=
    (loadLogged load).trans (settleLogged settle)
  exact .guarded (opened.trans ((externalLogged external entered).trans (.emitted rfl comes)))

theorem passLogged (traders : Traders allow x) {context : Context} {accounts : List Address}
    {trades : List TradeArg} {s s' : Trade.Batch σ} {tradeArg : TradeArg}
    (entered : s.world.perpetual.status = ENTERED)
    (ok : Trade.tradeOne x msg context accounts s tradeArg = .ok s') :
    LogsOf (Log.comesFrom sender (.trade accounts trades)) s.world s'.world := by
  simp only [Trade.tradeOne, Checked.bindOk, Checked.requireOk, Checked.atOk, Prod.exists, exists_const] at ok
  obtain ⟨_,maker,_,taker,_,result,called,trade,ok⟩ := ok
  have call : LogsOf (Log.comesFrom sender (.trade accounts trades)) s.world called :=
    externalLogged (traders _ _ _ _ _ trade) entered
  split at ok
  · cases Checked.pureOk.mp ok
    exact call
  · simp only [Checked.bindOk, Checked.atOk, Prod.exists, Checked.pureOk] at ok
    obtain ⟨m,_,t,_,m',t',_,rfl⟩ := ok
    exact call.trans (.emitted rfl ⟨accounts,trades,rfl⟩)

theorem tradeLogged (traders : Traders allow x) {accounts : List Address} {trades : List TradeArg}
    (ok : Trade.trade x msg accounts trades w = .ok w') :
    LogsOf (Log.comesFrom sender (.trade accounts trades)) w w' := by
  cases batchTraded ok with
  | @done context initialBalances w₁ w₂ batch live unique load settle start ran verified =>
    have loop := Checked.loopKeeps
      (P := fun s : Trade.Batch σ => s.world.perpetual.status = ENTERED ∧
        LogsOf (Log.comesFrom sender (.trade accounts trades)) w₂ s.world)
      (fun s tradeArg s' _ before pass => ⟨tradedStatus traders before.1 pass,
        before.2.trans (passLogged traders before.1 pass)⟩) ran ⟨start.status,.quiet rfl⟩
    exact .guarded ((openingLogged load settle).trans loop.2)

theorem payoutLogged (honest : Honest allow x)
    (ok : FinalSettlement.withdrawFinalSettlement x msg w = .ok w') :
    LogsOf (Log.comesFrom msg.sender .withdrawFinalSettlement) w w' := by
  cases paidOut ok with
  | @early balance w₁ enabled settle debt => exact .guarded (settleLogged (settled settle))
  | @paid balance rest w₁ w₂ held amount value enabled settle credit floor holds least restMargin restPosition push =>
    have entered : w₁.perpetual.status = ENTERED := (settled settle).status
    have external := honest.pushes _ _ _ _ _ push
    refine .guarded ((settleLogged (settled settle)).trans (.trans (.quiet rfl) ?_))
    exact (externalLogged external entered).trans (.emitted rfl ⟨rfl,rfl⟩)

theorem execLogged (honest : Honest allow x) (ok : exec x msg entry w = .ok w') :
    LogsOf (Log.comesFrom msg.sender entry) w w' := by
  cases entry with
  | deposit account amount =>
    cases deposited ok with
    | done live load settle pull moved => exact marginLogged load settle (honest.pulls _ _ _ _ _ pull) rfl
  | withdraw account destination amount =>
    cases withdrawn ok with
    | done live permission load settle push moved collateralized =>
      exact marginLogged (loaded load) settle (honest.pushes _ _ _ _ _ push) rfl
  | trade accounts trades => exact tradeLogged honest.traders ok
  | withdrawFinalSettlement => exact payoutLogged honest ok
  | enableFinalSettlement lower upper =>
    cases enabled ok with
    | done live load => exact .guarded ((loadLogged load).trans (.emitted rfl ⟨lower,upper,rfl⟩))
  | initializeV1 token oracle funder minCollateral => exact .quiet (initialized ok).logs
  | setLocalOperator operator approved =>
    cases Except.ok.inj ok
    exact .emitted rfl trivial
  | setGlobalOperator operator approved =>
    obtain ⟨_,guarded⟩ := onlyAdminOk.mp ok
    obtain ⟨_,mid,body,rfl⟩ := nonReentrantOk.mp guarded
    cases Checked.pureOk.mp body
    exact .emitted rfl rfl
  | setOracle oracle =>
    obtain ⟨_,guarded⟩ := onlyAdminOk.mp ok
    obtain ⟨_,mid,body,rfl⟩ := nonReentrantOk.mp guarded
    simp only [Checked.bindOk, Checked.requireOk, exists_const, Checked.pureOk] at body
    obtain ⟨_,_,_,rfl⟩ := body
    exact .emitted rfl rfl
  | setFunder funder =>
    obtain ⟨_,guarded⟩ := onlyAdminOk.mp ok
    obtain ⟨_,mid,body,rfl⟩ := nonReentrantOk.mp guarded
    simp only [Checked.bindOk, Checked.pureOk] at body
    obtain ⟨_,_,rfl⟩ := body
    exact .emitted rfl rfl
  | setMinCollateral minCollateral =>
    obtain ⟨_,guarded⟩ := onlyAdminOk.mp ok
    obtain ⟨_,mid,body,rfl⟩ := nonReentrantOk.mp guarded
    simp only [Checked.bindOk, Checked.requireOk, exists_const, Checked.pureOk] at body
    obtain ⟨_,rfl⟩ := body
    exact .emitted rfl rfl

end

end Perpetual
