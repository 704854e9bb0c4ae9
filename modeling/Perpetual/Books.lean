import Perpetual.Calls
import Perpetual.FundingPool

/-! The books of PerpetualV1 as a funding pool: each thing a call does to them is one
of the pool's moves, or no change at all. -/
namespace Perpetual
open Settlement FundingPool Relation
variable {σ : Type}

instance fintypeBitVec (w : Nat) : Fintype (BitVec w) :=
  Fintype.ofEquiv (Fin (2 ^ w)) ⟨BitVec.ofFin,BitVec.toFin,fun _ => rfl,fun _ => rfl⟩

def unit : Int := 10 ^ 18

def poolOf (s : Storage) (reserve : Int) : Pool Address where
  margin a := (s.balances a).marginInt
  position a := (s.balances a).positionInt
  cached a := (s.localIndexes a).toInt
  index := s.globalIndex.toInt
  price := if s.finalSettlementEnabled then s.finalSettlementPrice.toNat else 0
  frozen := s.finalSettlementEnabled
  reserve := reserve

/-- The books after initialization. A cached index with the global timestamp is the
global index: this is what lets a settlement skip it. -/
structure Ready (token : Address) (s : Storage) : Prop where
  initialized : s.initialized = true
  token : s.token = token
  notLater : ∀ a, (s.localIndexes a).timestamp.toNat ≤ s.globalIndex.timestamp.toNat
  sameTime : ∀ a, (s.localIndexes a).timestamp = s.globalIndex.timestamp →
    (s.localIndexes a).toInt = s.globalIndex.toInt

structure Follows (step : Pool Address → Pool Address → Prop) (token : Address) (s t : Storage)
    (gained : Int) : Prop where
  ready : Ready token t
  run : ∀ reserve, ReflTransGen step (poolOf s reserve) (poolOf t (reserve + gained))

section
variable {step : Pool Address → Pool Address → Prop} {token : Address}

theorem poolBooks {s t : Storage} (h : SameBooks s t) (reserve : Int) :
    poolOf t reserve = poolOf s reserve := by
  simp only [poolOf, h.balances, h.localIndexes, h.globalIndex, h.enabled, h.price]

theorem poolSetBalance (s : Storage) (account : Address) (b : Balance) (reserve : Int) :
    poolOf (s.setBalance account b) reserve = { poolOf s reserve with
      margin := Function.update (poolOf s reserve).margin account b.marginInt
      position := Function.update (poolOf s reserve).position account b.positionInt } := by
  refine Pool.ext (funext fun a => ?_) (funext fun a => ?_) rfl rfl rfl rfl rfl
  · exact Function.apply_update (fun _ b => b.marginInt) s.balances account b a
  · exact Function.apply_update (fun _ b => b.positionInt) s.balances account b a

theorem poolSetLocalIndex (s : Storage) (account : Address) (index : Index) (reserve : Int) :
    poolOf (s.setLocalIndex account index) reserve = { poolOf s reserve with
      cached := Function.update (poolOf s reserve).cached account index.toInt } := by
  refine Pool.ext rfl rfl (funext fun a => ?_) rfl rfl rfl rfl
  exact Function.apply_update (fun _ i => i.toInt) s.localIndexes account index a

theorem Ready.books {s t : Storage} (ready : Ready token s) (h : SameBooks s t) : Ready token t where
  initialized := h.initialized.trans ready.initialized
  token := h.token.trans ready.token
  notLater := by rw [h.localIndexes, h.globalIndex]; exact ready.notLater
  sameTime := by rw [h.localIndexes, h.globalIndex]; exact ready.sameTime

theorem Follows.books {s t : Storage} (ready : Ready token s) (h : SameBooks s t) :
    Follows step token s t 0 where
  ready := ready.books h
  run reserve := by rw [Int.add_zero, poolBooks h]

theorem Follows.trans {s t u : Storage} {m n : Int} (first : Follows step token s t m)
    (last : Follows step token t u n) : Follows step token s u (m + n) where
  ready := last.ready
  run reserve := by
    rw [← Int.add_assoc]
    exact (first.run reserve).trans (last.run (reserve + m))

theorem Follows.cast {s t : Storage} {m n : Int} (h : Follows step token s t m) (same : m = n) :
    Follows step token s t n := same ▸ h

theorem loadFollows {w w' : World σ} {context : Context} (ready : Ready token w.perpetual)
    (live : w.perpetual.finalSettlementEnabled = false) (load : Loaded w context w') :
    Follows (Pool.Quiet unit) token w.perpetual w'.perpetual 0 := by
  have storage := load.storage
  refine ⟨⟨?_,?_,?_,?_⟩,fun reserve => .single ?_⟩
  · rw [storage]; exact ready.initialized
  · rw [storage]; exact ready.token
  · intro a
    have before := ready.notLater a
    rw [storage]
    cases load.advanced with
    | same unchanged => simpa only [unchanged] using before
    | later grown => exact Nat.le_of_lt (Nat.lt_of_le_of_lt before grown)
  · intro a time
    rw [storage] at time ⊢
    cases load.advanced with
    | same unchanged =>
      simp only [unchanged] at time ⊢
      exact ready.sameTime a time
    | later grown =>
      have before := ready.notLater a
      rw [show (w.perpetual.localIndexes a).timestamp = context.index.timestamp from time] at before
      exact absurd grown (Nat.not_lt.mpr before)
  · rw [storage, Int.add_zero]
    exact .reindex (poolOf w.perpetual reserve) context.index.toInt live

theorem settledIndex {context : Context} {account : Address} {w w' : World σ} {b : Balance}
    (ready : Ready token w.perpetual) (global : w.perpetual.globalIndex = context.index)
    (settle : Settled context account w b w') :
    (w'.perpetual.localIndexes account).toInt = w.perpetual.globalIndex.toInt := by
  obtain ⟨index,storage,_,cases⟩ := settle.storage
  have here : w'.perpetual.localIndexes account = index := by
    rw [storage]; exact Function.update_self _ _ _
  rw [here]
  rcases cases with ⟨time,rfl,_⟩ | ⟨_,rfl⟩
  · exact ready.sameTime account (time.trans (by rw [global]))
  · rw [global]

theorem settleFollows {context : Context} {account : Address} {w w' : World σ} {b : Balance}
    (ready : Ready token w.perpetual) (global : w.perpetual.globalIndex = context.index)
    (settle : Settled context account w b w') :
    Follows (Pool.Quiet unit) token w.perpetual w'.perpetual 0 := by
  have current := settledIndex ready global settle
  obtain ⟨index,storage,time,cases⟩ := settle.storage
  have here : w'.perpetual.localIndexes account = index := by
    rw [storage]; exact Function.update_self _ _ _
  rw [here] at current
  have away : ∀ a, a ≠ account → w'.perpetual.localIndexes a = w.perpetual.localIndexes a :=
    fun a h => (settle.elsewhere h).2
  have index' : w'.perpetual.globalIndex = w.perpetual.globalIndex := by rw [storage]; rfl
  refine ⟨⟨?_,?_,?_,?_⟩,fun reserve => .single ?_⟩
  · rw [storage]; exact ready.initialized
  · rw [storage]; exact ready.token
  · intro a
    rw [index']
    by_cases same : a = account
    · rw [same, here, time, global]
    · rw [away a same]; exact ready.notLater a
  · intro a sameTime
    rw [index'] at sameTime ⊢
    by_cases same : a = account
    · rw [same, here, current]
    · rw [away a same] at sameTime ⊢; exact ready.sameTime a sameTime
  · have position : b.positionInt = (w.perpetual.balances account).positionInt := by
      rw [Balance.positionInt, Balance.positionInt, settle.position, settle.positionIsPositive]
    have rounded : unit * b.marginInt ≤ unit * (w.perpetual.balances account).marginInt -
        (w.perpetual.globalIndex.toInt - (w.perpetual.localIndexes account).toInt) *
          (w.perpetual.balances account).positionInt := by
      rcases cases with ⟨skipped,rfl,rfl⟩ | ⟨later,rfl⟩
      · rw [current, Int.sub_self, Int.zero_mul, Int.sub_zero]
      · rw [global]; exact (settle.funding later).1
    have move := Pool.Quiet.settle (poolOf w.perpetual reserve) account b.marginInt rounded
    rw [storage, poolSetBalance, poolSetLocalIndex, Int.add_zero, position, current]
    rwa [show Function.update (poolOf w.perpetual reserve).position account
      (w.perpetual.balances account).positionInt = (poolOf w.perpetual reserve).position from
      Function.update_eq_self _ _]

theorem Follows.thenBooks {s t u : Storage} {n : Int} (first : Follows step token s t n)
    (last : SameBooks t u) : Follows step token s u n :=
  (first.trans (.books first.ready last)).cast (Int.add_zero n)

theorem Follows.andThen {s t u : Storage} {n : Int} (first : Follows step token s t 0)
    (last : Follows step token t u n) : Follows step token s u n :=
  (first.trans last).cast (Int.zero_add n)

theorem Follows.anyStep {s t : Storage} {n : Int} (h : Follows (Pool.Quiet unit) token s t n) :
    Follows (Pool.Step unit) token s t n :=
  ⟨h.ready,fun reserve => ReflTransGen.mono (fun _ _ => .quiet) _ _ (h.run reserve)⟩

theorem settleAllFollows {context : Context} {accounts : List Address} {w w' : World σ}
    {balances : List Balance} (ready : Ready token w.perpetual)
    (global : w.perpetual.globalIndex = context.index)
    (settle : SettledAll context accounts w balances w') :
    Follows (Pool.Quiet unit) token w.perpetual w'.perpetual 0 := by
  induction settle with
  | nil w => exact .books ready (.refl _)
  | @cons account rest balance balances w mid w' head tail ih =>
    have first := settleFollows ready global head
    have same : mid.perpetual.globalIndex = w.perpetual.globalIndex := by
      obtain ⟨index,storage,_⟩ := head.storage
      rw [storage]; rfl
    exact first.andThen (ih first.ready (same.trans global))

theorem depositFollows {s : Storage} {account : Address} {out : Balance} {amount : Int}
    (ready : Ready token s) (moved : Balance.MarginMoved (s.balances account) out amount) :
    Follows (Pool.Quiet unit) token s (s.setBalance account out) amount where
  ready := ⟨ready.initialized,ready.token,ready.notLater,ready.sameTime⟩
  run reserve := by
    have move : Pool.Quiet unit _ _ := .deposit (poolOf s reserve) account amount
    have position : Function.update (poolOf s (reserve + amount)).position account out.positionInt =
        (poolOf s reserve).position := by
      rw [moved.positionInt]
      exact Function.update_eq_self _ _
    refine .single ?_
    rw [poolSetBalance, position, moved.margin]
    exact move

theorem tradeFollows {s : Storage} {result : TradeResult} {maker taker : Address} {m t : Balance}
    (ready : Ready token s) (different : maker ≠ taker)
    (makerTime : (s.localIndexes maker).timestamp = s.globalIndex.timestamp)
    (takerTime : (s.localIndexes taker).timestamp = s.globalIndex.timestamp)
    (applied : Trade.Applied result (s.balances maker) (s.balances taker) m t) :
    Follows (Pool.Quiet unit) token s ((s.setBalance maker m).setBalance taker t) 0 where
  ready := ⟨ready.initialized,ready.token,ready.notLater,ready.sameTime⟩
  run reserve := by
    have move : Pool.Quiet unit _ _ := .trade (poolOf s reserve) maker taker
      (signed result.isBuy result.marginAmount.toNat)
      (signed result.isBuy result.positionAmount.toNat) different
      (ready.sameTime maker makerTime) (ready.sameTime taker takerTime)
    refine .single ?_
    rw [Int.add_zero, poolSetBalance, poolSetBalance, applied.makerMargin, applied.makerPosition,
      applied.takerMargin, applied.takerPosition]
    exact move

theorem freezeFollows {s : Storage} (price : Uint256) (ready : Ready token s)
    (live : s.finalSettlementEnabled = false) :
    Follows (Pool.Quiet unit) token s
      { s with finalSettlementPrice := price, finalSettlementEnabled := true } 0 where
  ready := ⟨ready.initialized,ready.token,ready.notLater,ready.sameTime⟩
  run reserve := by
    have move : Pool.Quiet unit _ _ := .freeze (poolOf s reserve) price.toNat live
    refine .single ?_
    rw [Int.add_zero]
    exact move

theorem payOutFollows {s : Storage} {account : Address} {rest : Balance} {paid : Int}
    (ready : Ready token s) (frozen : s.finalSettlementEnabled = true)
    (current : (s.localIndexes account).toInt = s.globalIndex.toInt) (closed : rest.positionInt = 0)
    (bounded : unit * (paid + rest.marginInt) ≤
      (s.balances account).netValue s.finalSettlementPrice.toNat) :
    Follows (Pool.Step unit) token s (s.setBalance account rest) (-paid) where
  ready := ⟨ready.initialized,ready.token,ready.notLater,ready.sameTime⟩
  run reserve := by
    have owed : (poolOf s reserve).owed unit account =
        (s.balances account).netValue s.finalSettlementPrice.toNat := by
      simp only [Pool.owed, poolOf, current, frozen, if_true, Balance.netValue, unit]
      ring
    have move : Pool.Step unit _ _ := .payOut (poolOf s reserve) account paid rest.marginInt frozen
      current (by rw [owed]; exact bounded)
    refine .single ?_
    rw [poolSetBalance, closed, ← Int.sub_eq_add_neg]
    exact move

end

end Perpetual
