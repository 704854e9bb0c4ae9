import Perpetual.Calls

/-! The passes of the trade loop as changes of the stored balances, and the pass of each trade
in a call that succeeded. -/
namespace Perpetual
namespace Trade
open Settlement
variable {σ : Type}

structure Exchanged (x : Externals σ) (msg : Msg) (context : Context) (s : Batch σ) (tradeArg : TradeArg)
    (maker taker : Address) (s' : Batch σ) : Prop where
  called : ∃ result w, x.trade tradeArg.trader
      ⟨msg.sender,maker,taker,context.price,tradeArg.data,s.traderFlags⟩ s.world = .ok (result,w) ∧
    Applied result (s.world.perpetual.balances maker) (s.world.perpetual.balances taker)
      (s'.world.perpetual.balances maker) (s'.world.perpetual.balances taker)
  elsewhere : ∀ a, a ≠ maker → a ≠ taker → s'.world.perpetual.balances a = s.world.perpetual.balances a
  localIndexes : s'.world.perpetual.localIndexes = s.world.perpetual.localIndexes
  globalIndex : s'.world.perpetual.globalIndex = s.world.perpetual.globalIndex
  oracle : s'.world.perpetual.oracle = s.world.perpetual.oracle

section
variable {allow : σ → σ → Prop} {x : Externals σ} {msg : Msg} {context : Context}
  {accounts : List Address} {s s' : Batch σ} {tradeArg : TradeArg}

theorem InStep.stored {i : Nat} {a : Address} {b : Balance} (inStep : InStep context accounts s)
    (here : accounts[i]? = some a) (found : s.currentBalances[i]? = some b) :
    b = s.world.perpetual.balances a := by
  rw [inStep.memory, List.getElem?_map, here] at found
  exact (Option.some.inj found).symm

theorem exchanged (traders : Traders allow x) (inStep : InStep context accounts s) {maker taker : Address}
    (atMaker : accounts[tradeArg.makerIndex.toNat]? = some maker)
    (atTaker : accounts[tradeArg.takerIndex.toNat]? = some taker) (different : maker ≠ taker)
    (ok : tradeOne x msg context accounts s tradeArg = .ok s') :
    Exchanged x msg context s tradeArg maker taker s' := by
  obtain ⟨maker',taker',result,w,hm,ht,called,moved,_⟩ := (traded ok).called
  obtain rfl := Option.some.inj (hm.symm.trans atMaker)
  obtain rfl := Option.some.inj (ht.symm.trans atTaker)
  have kept := (traders _ _ _ _ _ called).untouched inStep.status
  obtain ⟨after,balances,flags⟩ := s'
  cases moved with
  | self hm' ht' =>
    exact absurd ((Option.some.inj (hm.symm.trans hm')).trans (Option.some.inj (ht.symm.trans ht')).symm)
      different
  | @between maker' taker' m t m' t' _ hm' ht' _ makerBalance takerBalance applied storage _ _ =>
    obtain rfl := Option.some.inj (hm'.symm.trans hm)
    obtain rfl := Option.some.inj (ht'.symm.trans ht)
    obtain rfl := inStep.stored hm makerBalance
    obtain rfl := inStep.stored ht takerBalance
    have stored : after.perpetual.balances = Function.update
        (Function.update w.perpetual.balances maker' m') taker' t' := congrArg Storage.balances storage
    refine ⟨⟨result,w,called,?_⟩,fun a notMaker notTaker => ?_,?_,?_,?_⟩
    · rw [stored, Function.update_of_ne different, Function.update_self, Function.update_self]
      exact applied
    · rw [stored, Function.update_of_ne notTaker, Function.update_of_ne notMaker, kept.balances]
    · exact (congrArg Storage.localIndexes storage).trans kept.localIndexes
    · exact (congrArg Storage.globalIndex storage).trans kept.globalIndex
    · exact (congrArg Storage.oracle storage).trans kept.oracle

end

/-- The pass of `tradeArg` in a call from `w`, after those of `done`. -/
structure Pass (x : Externals σ) (msg : Msg) (accounts : List Address) (w : World σ) (done : List TradeArg)
    (tradeArg : TradeArg) (context : Context) (s s' : Batch σ) : Prop where
  before : ∃ w₁ initialBalances w₂, loadContext x msg (w.setStatus ENTERED) = .ok (context,w₁) ∧
    settleAccounts context accounts w₁ = .ok (initialBalances,w₂) ∧
    runTrades x msg context accounts done initialBalances w₂ = .ok s
  pass : tradeOne x msg context accounts s tradeArg = .ok s'

theorem Pass.unique {x : Externals σ} {msg : Msg} {accounts : List Address} {w : World σ}
    {done : List TradeArg} {tradeArg : TradeArg} {context context' : Context} {s s' t t' : Batch σ}
    (first : Pass x msg accounts w done tradeArg context s s')
    (second : Pass x msg accounts w done tradeArg context' t t') : context = context' ∧ s = t ∧ s' = t' := by
  obtain ⟨⟨w₁,balances,w₂,load,settle,ran⟩,pass⟩ := first
  obtain ⟨⟨w₁',balances',w₂',load',settle',ran'⟩,pass'⟩ := second
  obtain ⟨rfl,rfl⟩ := Prod.mk.inj (Except.ok.inj (load.symm.trans load'))
  obtain ⟨rfl,rfl⟩ := Prod.mk.inj (Except.ok.inj (settle.symm.trans settle'))
  obtain rfl := Except.ok.inj (ran.symm.trans ran')
  exact ⟨rfl,rfl,Except.ok.inj (pass.symm.trans pass')⟩

theorem runSplit {x : Externals σ} {msg : Msg} {context : Context} {accounts : List Address}
    {done rest : List TradeArg} {tradeArg : TradeArg} {balances : List Balance} {w : World σ} {last : Batch σ}
    (ran : runTrades x msg context accounts (done ++ tradeArg::rest) balances w = .ok last) : ∃ s s',
    runTrades x msg context accounts done balances w = .ok s ∧
      tradeOne x msg context accounts s tradeArg = .ok s' := by
  simp only [runTrades, List.foldlM_append, List.foldlM_cons, Checked.bindOk] at ran
  obtain ⟨s,first,s',pass,_⟩ := ran
  exact ⟨s,s',first,pass⟩

theorem callPass {allow : σ → σ → Prop} {x : Externals σ} (traders : Traders allow x) {msg : Msg}
    {accounts : List Address} {done rest : List TradeArg} {tradeArg : TradeArg} {w w' : World σ}
    (ok : exec x msg (.trade accounts (done ++ tradeArg::rest)) w = .ok w') : ∃ context s s',
    Pass x msg accounts w done tradeArg context s s' ∧ InStep context accounts s := by
  cases batchTraded ok with
  | @done context initialBalances w₁ w₂ batch live unique load settle start ran verified =>
    obtain ⟨s,s',first,pass⟩ := runSplit ran
    refine ⟨context,s,s',⟨⟨w₁,initialBalances,w₂,load,settle,first⟩,pass⟩,?_⟩
    exact Checked.loopKeeps (fun t arg t' _ inStep ok => inStepPass traders unique inStep ok) first start

end Trade
end Perpetual
