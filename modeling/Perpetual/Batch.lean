import Perpetual.Reentrancy
import Mathlib.Data.List.Nodup

/-! The invariant of the trade loop: the array of balances in memory and the stored
balances of the accounts agree, before and after every call of a trader. -/
namespace Perpetual
namespace Trade
open Settlement
variable {σ : Type}

structure InStep (context : Context) (accounts : List Address) (s : Batch σ) : Prop where
  status : s.world.perpetual.status = ENTERED
  index : s.world.perpetual.globalIndex = context.index
  memory : s.currentBalances = accounts.map s.world.perpetual.balances
  timed : ∀ a ∈ accounts, (s.world.perpetual.localIndexes a).timestamp = context.index.timestamp

theorem mapSetTwo {accounts : List Address} (unique : accounts.Nodup) (balances : Address → Balance)
    {i j : Nat} {a b : Address} (atA : accounts[i]? = some a) (atB : accounts[j]? = some b)
    (x y : Balance) :
    ((accounts.map balances).set i x).set j y =
      accounts.map (Function.update (Function.update balances a x) b y) := by
  refine List.ext_getElem? fun n => ?_
  obtain ⟨hi,rfl⟩ := List.getElem?_eq_some_iff.mp atA
  obtain ⟨hj,rfl⟩ := List.getElem?_eq_some_iff.mp atB
  by_cases inside : n < accounts.length
  · have place : ∀ (k : Nat) (hk : k < accounts.length), accounts[n] = accounts[k] ↔ k = n :=
      fun k hk => ⟨fun same => ((List.Nodup.getElem_inj_iff unique).mp same).symm,fun same => by subst same; rfl⟩
    simp only [List.getElem?_set, List.length_set, List.length_map, List.getElem?_map,
      List.getElem?_eq_getElem inside, Option.map_some, Function.update_apply, place j hj, place i hi]
    by_cases second : j = n
    · simp [second, inside]
    · by_cases first : i = n
      · simp [second, first, inside]
      · simp [second, first]
  · simp [Nat.le_of_not_lt inside]

theorem inStepStart {context : Context} {accounts : List Address} {w w' : World σ}
    {balances : List Balance} (unique : accounts.Nodup)
    (settled : SettledAll context accounts w balances w')
    (entered : w.perpetual.status = ENTERED) (index : w.perpetual.globalIndex = context.index) :
    InStep context accounts (⟨w',balances,0⟩ : Batch σ) :=
  ⟨settled.status.trans entered,settled.globalIndex.trans index,settled.stored unique,
    settled.timed unique⟩

theorem inStepPass {allow : σ → σ → Prop} {x : Externals σ} (traders : Traders allow x) {msg : Msg}
    {context : Context} {accounts : List Address} (unique : accounts.Nodup) {s s' : Batch σ}
    {tradeArg : TradeArg} (inStep : InStep context accounts s)
    (ok : tradeOne x msg context accounts s tradeArg = .ok s') : InStep context accounts s' := by
  obtain ⟨maker,taker,result,w,_,_,called,moved,_⟩ := (traded ok).called
  have kept := (traders _ _ _ _ _ called).untouched inStep.status
  have memory : s.currentBalances = accounts.map w.perpetual.balances := by
    rw [kept.balances]
    exact inStep.memory
  have timed : ∀ a ∈ accounts, (w.perpetual.localIndexes a).timestamp = context.index.timestamp := by
    rw [kept.localIndexes]
    exact inStep.timed
  obtain ⟨after,balances,flags⟩ := s'
  cases moved with
  | self => exact ⟨kept.status.trans inStep.status,kept.globalIndex.trans inStep.index,memory,timed⟩
  | between atMaker atTaker different _ _ _ storage =>
    refine ⟨?_,?_,?_,?_⟩
    · rw [storage]; exact kept.status.trans inStep.status
    · rw [storage]; exact kept.globalIndex.trans inStep.index
    · rw [storage, memory]
      exact mapSetTwo unique w.perpetual.balances atMaker atTaker _ _
    · rw [storage]; exact timed

end Trade
end Perpetual
