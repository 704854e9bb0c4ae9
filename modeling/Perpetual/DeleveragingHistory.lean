import Mathlib.Data.List.Pairwise
import Perpetual.Deleveraging

/-! The history of P1Deleveraging. A stored timestamp is that of the last mark, which nothing
has cleared since. -/
namespace Perpetual

structure Deleveraging where
  sender : Address
  maker : Address
  taker : Address
  timestamp : Uint256
  price : Uint256
  makerBalance : Balance
  takerBalance : Balance
  amount : Uint256
  deriving DecidableEq, Repr

inductive DeleveragingCall where
  | mark (account : Address) (timestamp : Uint256) (balance : Balance) (price : Uint256)
  | unmark (account : Address) (timestamp : Uint256)
  | setOperator (operator : Address) (timestamp : Uint256)
  | trade (deleveraging : Deleveraging)
  deriving DecidableEq, Repr

namespace DeleveragingCall

def timestamp : DeleveragingCall → Uint256
  | mark _ timestamp _ _ => timestamp
  | unmark _ timestamp => timestamp
  | setOperator _ timestamp => timestamp
  | trade d => d.timestamp

def markTime (account : Address) : DeleveragingCall → Option Uint256
  | mark a timestamp _ _ => if a = account then some timestamp else none
  | _ => none

def clears (account : Address) : DeleveragingCall → Bool
  | unmark a _ => a == account
  | trade d => d.maker == account && d.amount == widen d.makerBalance.position
  | _ => false

def operatorAfter (operator : Address) : DeleveragingCall → Address
  | setOperator newOperator _ => newOperator
  | _ => operator

end DeleveragingCall

namespace P1Deleveraging

def markTimes (account : Address) (calls : List DeleveragingCall) : List Uint256 :=
  calls.filterMap (DeleveragingCall.markTime account)

def operatorAfter (operator : Address) (calls : List DeleveragingCall) : Address :=
  calls.foldl DeleveragingCall.operatorAfter operator

def record (call : TraderCall) (timestamp : Uint256) (perpetual : Storage) (result : TradeResult) :
    DeleveragingCall :=
  .trade ⟨call.sender,call.maker,call.taker,timestamp,call.price,perpetual.balances call.maker,
    perpetual.balances call.taker,result.positionAmount⟩

/-- One committed call, by any sender and at any price, with what it reads of PerpetualV1 and the
block time. Ownership moves as `Ownable` moves it, and leaves no entry. -/
inductive Step (perpetual : Storage) (now : Uint256) :
    DeleveragingContract → List DeleveragingCall → DeleveragingContract → Prop where
  | mark {s s' : DeleveragingContract} (sender : Address) (getPrice : Address → Checked Uint256)
      (account : Address) (price : Uint256) (answered : getPrice perpetual.oracle = .ok price)
      (ok : P1Deleveraging.mark ⟨sender,now⟩ getPrice perpetual account s = .ok s') :
      Step perpetual now s [.mark account now (perpetual.balances account) price] s'
  | unmark {s s' : DeleveragingContract} (getPrice : Address → Checked Uint256) (account : Address)
      (ok : P1Deleveraging.unmark getPrice perpetual account s = .ok s') :
      Step perpetual now s [.unmark account now] s'
  | setOperator {s s' : DeleveragingContract} (sender newOperator : Address)
      (ok : setDeleveragingOperator ⟨sender,now⟩ newOperator s = .ok s') :
      Step perpetual now s [.setOperator newOperator now] s'
  | trade {s s' : DeleveragingContract} (sender : Address) (call : TraderCall) (result : TradeResult)
      (ok : P1Deleveraging.trade ⟨sender,now⟩ perpetual call s = .ok (result,s')) :
      Step perpetual now s [record call now perpetual result] s'
  | owner (s : DeleveragingContract) (owner : Address) : Step perpetual now s [] { s with owner := owner }

inductive Steps (seen : Storage → Uint256 → Prop) (start : DeleveragingContract) :
    List DeleveragingCall → DeleveragingContract → Prop where
  | none : Steps seen start [] start
  | more {calls new : List DeleveragingCall} {s s' : DeleveragingContract}
      (before : Steps seen start calls s) (perpetual : Storage) (now : Uint256) (there : seen perpetual now)
      (next : Step perpetual now s new s') : Steps seen start (calls ++ new) s'

structure Timely (calls : List DeleveragingCall) : Prop where
  positive : ∀ c ∈ calls, c.timestamp ≠ 0
  ordered : calls.Pairwise fun c c' => c.timestamp.toNat ≤ c'.timestamp.toNat

section
variable {seen seen' : Storage → Uint256 → Prop} {perpetual : Storage} {now : Uint256}
  {start s s' : DeleveragingContract} {calls new : List DeleveragingCall}

theorem Steps.trans {t : DeleveragingContract} (first : Steps seen start calls s)
    (last : Steps seen s new t) : Steps seen start (calls ++ new) t := by
  induction last with
  | none => rwa [List.append_nil]
  | more _ perpetual now there next ih =>
    rw [← List.append_assoc]
    exact .more ih perpetual now there next

theorem Steps.imp (weaker : ∀ p t, seen p t → seen' p t) (steps : Steps seen start calls s) :
    Steps seen' start calls s := by
  induction steps with
  | none => exact .none
  | more _ perpetual now there next ih => exact .more ih perpetual now (weaker _ _ there) next

theorem stepEntry (step : Step perpetual now s new s') : new = [] ∨ ∃ call, new = [call] := by
  cases step with
  | owner owner => exact .inl rfl
  | _ => exact .inr ⟨_,rfl⟩

theorem Steps.split {before after : List DeleveragingCall} {call : DeleveragingCall}
    (steps : Steps seen start calls s) (same : calls = before ++ call::after) :
    ∃ perpetual now t t', Steps seen start before t ∧ Step perpetual now t [call] t' := by
  induction steps generalizing after with
  | none => exact absurd same.symm (List.append_ne_nil_of_right_ne_nil _ (List.cons_ne_nil _ _))
  | @more calls new t t' earlier perpetual now there next ih =>
    rcases stepEntry next with rfl | ⟨entry,rfl⟩
    · rw [List.append_nil] at same
      exact ih same
    · rcases List.eq_nil_or_concat after with rfl | ⟨mid,last,rfl⟩
      · obtain ⟨rfl,rfl⟩ := List.append_singleton_inj.mp same
        exact ⟨perpetual,now,t,t',earlier,next⟩
      · rw [List.concat_eq_append, ← List.cons_append, ← List.append_assoc] at same
        exact ih (List.append_singleton_inj.mp same).1

inductive Stamped (account : Address) (s : DeleveragingContract) (new : List DeleveragingCall)
    (s' : DeleveragingContract) : Prop where
  | marked (timestamp : Uint256) (balance : Balance) (price : Uint256)
      (entry : new = [.mark account timestamp balance price]) (underwater : Underwater balance price)
      (stored : s'.markedTimestamp account = timestamp)
  | cleared (entry : ∃ c, new = [c] ∧ c.clears account = true ∧ c.markTime account = none)
      (stored : s'.markedTimestamp account = 0)
  | kept (entry : ∀ c ∈ new, c.clears account = false ∧ c.markTime account = none)
      (stored : s'.markedTimestamp account = s.markedTimestamp account)

theorem Stamped.single {account : Address} {s s' : DeleveragingContract} {c : DeleveragingCall}
    (entry : c.clears account = false ∧ c.markTime account = none)
    (stored : s'.markedTimestamp account = s.markedTimestamp account) : Stamped account s [c] s' := by
  refine .kept (fun other mem => ?_) stored
  rw [List.mem_singleton.mp mem]
  exact entry

theorem stamped (step : Step perpetual now s new s') (account : Address) : Stamped account s new s' := by
  cases step with
  | mark sender getPrice other price answered ok =>
    obtain ⟨found,rfl⟩ := markOk.mp ok
    obtain ⟨price',answered',under⟩ := accountUnderwater.mp found
    obtain rfl := Except.ok.inj (answered.symm.trans answered')
    by_cases here : other = account
    · subst here
      exact .marked _ _ _ rfl ((underwater under).mp rfl) (Function.update_self ..)
    · exact .single ⟨rfl,if_neg here⟩ (Function.update_of_ne (Ne.symm here) ..)
  | unmark getPrice other ok =>
    obtain ⟨_,rfl⟩ := unmarkOk.mp ok
    by_cases here : other = account
    · subst here
      exact .cleared ⟨_,rfl,beq_self_eq_true _,rfl⟩ (Function.update_self ..)
    · exact .single ⟨beq_eq_false_iff_ne.mpr here,rfl⟩ (Function.update_of_ne (Ne.symm here) ..)
  | setOperator sender newOperator ok =>
    simp only [setDeleveragingOperator, Checked.bindOk, Checked.requireOk, exists_const,
      Checked.pureOk] at ok
    obtain ⟨_,rfl⟩ := ok
    exact .single ⟨rfl,rfl⟩ rfl
  | trade sender call result ok =>
    have stored := (deleveraged ok).timestamps
    by_cases closed : call.maker = account ∧
        result.positionAmount = widen (perpetual.balances call.maker).position
    · obtain ⟨rfl,whole⟩ := closed
      refine .cleared ⟨_,rfl,?_,rfl⟩ ?_
      · rw [record, DeleveragingCall.clears, whole, beq_self_eq_true, beq_self_eq_true, Bool.and_self]
      · rw [stored, if_pos whole, Function.update_self]
    · refine .single ⟨?_,rfl⟩ ?_
      · rw [record, DeleveragingCall.clears, Bool.and_eq_false_iff, beq_eq_false_iff_ne,
          beq_eq_false_iff_ne]
        exact not_and_or.mp closed
      · rw [stored]
        split
        · rename_i whole
          exact Function.update_of_ne (fun here => closed ⟨here.symm,whole⟩) _ _
        · rfl
  | owner owner => exact .kept (fun c mem => (List.not_mem_nil mem).elim) rfl

theorem stepOperator (step : Step perpetual now s new s') :
    s'.deleveragingOperator = operatorAfter s.deleveragingOperator new := by
  cases step with
  | mark sender getPrice account price answered ok =>
    obtain ⟨_,rfl⟩ := markOk.mp ok
    rfl
  | unmark getPrice account ok =>
    obtain ⟨_,rfl⟩ := unmarkOk.mp ok
    rfl
  | setOperator sender newOperator ok =>
    simp only [setDeleveragingOperator, Checked.bindOk, Checked.requireOk, exists_const,
      Checked.pureOk] at ok
    obtain ⟨_,rfl⟩ := ok
    rfl
  | trade sender call result ok => exact (deleveraged ok).operator
  | owner owner => rfl

theorem stepsOperator (steps : Steps seen start calls s) :
    s.deleveragingOperator = operatorAfter start.deleveragingOperator calls := by
  induction steps with
  | none => rfl
  | more before perpetual now there next ih =>
    rw [stepOperator next, ih]
    exact (List.foldl_append ..).symm

/-- Neither a new mark nor anything that clears it. -/
def Undisturbed (account : Address) (calls : List DeleveragingCall) : Prop :=
  ∀ c ∈ calls, c.clears account = false ∧ c.markTime account = none

def MarkedAt (account : Address) (timestamp : Uint256) (calls : List DeleveragingCall) : Prop :=
  ∃ early balance price later, calls = early ++ .mark account timestamp balance price::later ∧
    Underwater balance price ∧ Undisturbed account later

theorem markedAt (steps : Steps seen start calls s) (fresh : ∀ a, start.markedTimestamp a = 0)
    {account : Address} (marked : s.markedTimestamp account ≠ 0) :
    MarkedAt account (s.markedTimestamp account) calls := by
  induction steps with
  | none => exact absurd (fresh account) marked
  | more before perpetual now there next ih =>
    cases stamped next account with
    | marked timestamp balance price entry underwater stored =>
      rw [stored, entry]
      exact ⟨_,balance,price,[],rfl,underwater,fun c mem => (List.not_mem_nil mem).elim⟩
    | cleared entry stored => exact absurd stored marked
    | kept entry stored =>
      rw [stored] at marked ⊢
      obtain ⟨early,balance,price,later,rfl,underwater,quiet⟩ := ih marked
      refine ⟨early,balance,price,later ++ _,by rw [List.append_assoc]; rfl,underwater,fun c mem => ?_⟩
      rcases List.mem_append.mp mem with inside | last
      · exact quiet c inside
      · exact entry c last

theorem markTimesAppend (account : Address) (calls new : List DeleveragingCall) :
    markTimes account (calls ++ new) = markTimes account calls ++ markTimes account new :=
  List.filterMap_append

theorem stepsStamped (steps : Steps seen s calls s') {account : Address}
    (kept : ∀ c ∈ calls, c.clears account = false) :
    s'.markedTimestamp account = (markTimes account calls).getLastD (s.markedTimestamp account) := by
  induction steps with
  | none => rfl
  | @more calls new t t' before perpetual now there next ih =>
    have earlier := ih fun c mem => kept c (List.mem_append_left _ mem)
    rw [markTimesAppend]
    cases stamped next account with
    | marked timestamp balance price entry underwater stored =>
      have time : DeleveragingCall.markTime account (.mark account timestamp balance price) =
          some timestamp := if_pos rfl
      have last : markTimes account new = [timestamp] := by
        rw [entry, markTimes, List.filterMap_cons_some time, List.filterMap_nil]
      rw [stored, last, List.getLastD_concat]
    | cleared entry stored =>
      obtain ⟨c,rfl,clears,_⟩ := entry
      rw [kept c (List.mem_append_right _ (List.mem_singleton.mpr rfl))] at clears
      cases clears
    | kept entry stored =>
      have none : markTimes account new = [] :=
        List.filterMap_eq_nil_iff.mpr fun c mem => (entry c mem).2
      rw [stored, earlier, none, List.append_nil]

end

def sampleShort : Storage :=
  { Storage.deployed 3 with
    initialized := true
    balances := Function.update (fun _ => ⟨true,true,1000,7⟩) 1 ⟨true,false,100,7⟩
    globalOperators := fun _ => true
    minCollateral := BaseMath.BASE }

def samplePrice : Uint256 := 20 * BaseMath.BASE

def sampleContract : DeleveragingContract := constructor ⟨4,50⟩ 7 2

end P1Deleveraging
end Perpetual
