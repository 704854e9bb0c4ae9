import Perpetual.Storage

/-! `P1Settlement`: the global index moves with time, and an account that is
touched first pays or receives the funding since its cached index. -/
namespace Perpetual
namespace Settlement
variable {σ : Type}

def moveIndex (signedIndex : SignedInt) (fundingPositive : Bool) (fundingValue : Uint256) :
    Checked SignedInt :=
  if fundingPositive then SignedMath.add signedIndex fundingValue
  else SignedMath.sub signedIndex fundingValue

def currentIndex (x : Externals σ) (msg : Msg) (w : World σ) (price : Uint256) (index : Index) :
    Checked Index := do
  let timeDelta ← SafeMath.sub msg.timestamp (widen index.timestamp)
  if 0 < timeDelta.toNat then
    let (fundingPositive,fundingValue) ← x.getFunding w.perpetual.funder timeDelta w
    let fundingValue ← BaseMath.baseMul fundingValue price
    let signedIndex ← moveIndex ⟨widen index.value,index.isPositive⟩ fundingPositive fundingValue
    let timestamp ← SafeCast.toUint32 msg.timestamp
    let value ← SafeCast.toUint128 signedIndex.value
    return ⟨timestamp,signedIndex.isPositive,value⟩
  else
    return index

def loadContext (x : Externals σ) (msg : Msg) (w : World σ) : Checked (Context × World σ) := do
  let price ← x.getPrice w.perpetual.oracle w
  let index ← currentIndex x msg w price w.perpetual.globalIndex
  let w := w.write fun s => { s with globalIndex := index }
  return (⟨price,w.perpetual.minCollateral,index⟩,w.emit (.index index.toBytes32))

def indexDiff (newIndex oldIndex : Index) : Checked SignedInt :=
  let signedIndex : SignedInt := ⟨widen newIndex.value,newIndex.isPositive⟩
  if oldIndex.isPositive then SignedMath.sub signedIndex (widen oldIndex.value)
  else SignedMath.add signedIndex (widen oldIndex.value)

/-- Credits are rounded down and debits up. -/
def applyFunding (indexDiff : SignedInt) (balance : Balance) : Checked (Bool × Uint256 × Balance) := do
  let settlementIsPositive := indexDiff.isPositive != balance.positionIsPositive
  if settlementIsPositive then
    let settlementAmount ← BaseMath.baseMul indexDiff.value (widen balance.position)
    return (true,settlementAmount,← balance.addToMargin settlementAmount)
  else
    let settlementAmount ← BaseMath.baseMulRoundUp indexDiff.value (widen balance.position)
    return (false,settlementAmount,← balance.subFromMargin settlementAmount)

def settleAccount (context : Context) (account : Address) (w : World σ) :
    Checked (Balance × World σ) := do
  let newIndex := context.index
  let oldIndex := w.perpetual.localIndexes account
  let balance := w.perpetual.balances account
  if oldIndex.timestamp = newIndex.timestamp then
    return (balance,w)
  else
    let w := w.write fun s => s.setLocalIndex account newIndex
    if balance.position = 0 then
      return (balance,w)
    else
      let signedIndexDiff ← indexDiff newIndex oldIndex
      let (isPositive,amount,balance) ← applyFunding signedIndexDiff balance
      let w := w.write fun s => s.setBalance account balance
      return (balance,w.emit (.accountSettled account isPositive amount balance.toBytes32))

def settleAccounts (context : Context) : List Address → World σ → Checked (List Balance × World σ)
  | [],w => .ok ([],w)
  | account::rest,w => do
      let (balance,w) ← settleAccount context account w
      let (balances,w) ← settleAccounts context rest w
      return (balance::balances,w)

def isCollateralized (context : Context) (balance : Balance) : Checked Bool := do
  let (positive,negative) ← balance.getPositiveAndNegativeValue context.price
  let left ← SafeMath.mul positive BaseMath.base
  let right ← SafeMath.mul negative context.minCollateral
  return decide (right.toNat ≤ left.toNat)

/-! What each of these did, said once for every later proof. -/

inductive Advanced (old new : Index) : Prop where
  | same (unchanged : new = old)
  | later (grown : old.timestamp.toNat < new.timestamp.toNat)

structure Loaded (w : World σ) (context : Context) (w' : World σ) : Prop where
  storage : w'.perpetual = { w.perpetual with globalIndex := context.index }
  minCollateral : context.minCollateral = w.perpetual.minCollateral
  ext : w'.ext = w.ext
  logs : w'.logs = w.logs ++ [.index context.index.toBytes32]
  advanced : Advanced w.perpetual.globalIndex context.index

theorem advanced {x : Externals σ} {msg : Msg} {w : World σ} {price : Uint256}
    {index out : Index} (ok : currentIndex x msg w price index = .ok out) : Advanced index out := by
  simp only [currentIndex, Checked.bindOk, SafeMath.subOk, widenNat32] at ok
  obtain ⟨timeDelta,hd,ok⟩ := ok
  split at ok
  · rename_i passed
    simp only [Checked.bindOk, Prod.exists, Checked.pureOk, SafeCast.toUint32, SafeCast.toUintOk] at ok
    obtain ⟨_,_,_,_,_,_,_,t,ht,_,_,rfl⟩ := ok
    exact .later (by simp only [ht]; omega)
  · exact .same (Checked.pureOk.mp ok).symm

theorem loaded {x : Externals σ} {msg : Msg} {w w' : World σ} {context : Context}
    (ok : loadContext x msg w = .ok (context,w')) : Loaded w context w' := by
  simp only [loadContext, Checked.bindOk, Checked.pureOk, Prod.mk.injEq] at ok
  obtain ⟨price,_,index,hi,rfl,rfl⟩ := ok
  exact ⟨rfl,rfl,rfl,rfl,advanced hi⟩

theorem Loaded.status {w w' : World σ} {context : Context} (h : Loaded w context w') :
    w'.perpetual.status = w.perpetual.status := by rw [h.storage]

theorem indexDiffInt {new old : Index} {d : SignedInt} (ok : indexDiff new old = .ok d) :
    SignedMath.toInt d = new.toInt - old.toInt := by
  have newInt : SignedMath.toInt ⟨widen new.value,new.isPositive⟩ = new.toInt := by
    simp [SignedMath.toInt, Index.toInt]
  unfold indexDiff at ok
  cases sign : old.isPositive with
  | true =>
    rw [sign, if_pos rfl] at ok
    rw [SignedMath.subInt ok, newInt, widenNat128, Index.toInt.eq_1 old, sign, Signed.positive]
  | false =>
    rw [sign, if_neg (by decide)] at ok
    rw [SignedMath.addInt ok, newInt, widenNat128, Index.toInt.eq_1 old, sign, Signed.negative]
    omega

theorem appliedFunding {d : SignedInt} {b out : Balance} {isPositive : Bool} {amount : Uint256}
    (ok : applyFunding d b = .ok (isPositive,amount,out)) :
    out.position = b.position ∧ out.positionIsPositive = b.positionIsPositive ∧
    10 ^ 18 * out.marginInt ≤ 10 ^ 18 * b.marginInt - SignedMath.toInt d * b.positionInt ∧
    10 ^ 18 * b.marginInt - SignedMath.toInt d * b.positionInt < 10 ^ 18 * out.marginInt + 10 ^ 18 := by
  have product : SignedMath.toInt d * b.positionInt =
      signed (d.isPositive == b.positionIsPositive) (d.value.toNat * b.position.toNat) :=
    Signed.mul _ _ _ _
  rw [product]
  simp only [applyFunding] at ok
  split at ok
  · rename_i differ
    simp only [Checked.bindOk, Checked.pureOk, Prod.mk.injEq] at ok
    obtain ⟨a,ha,out',add,_,_,rfl⟩ := ok
    have exact := BaseMath.baseMulBounds ha
    have moved := Balance.addToMarginMoved add
    have sign : (d.isPositive == b.positionIsPositive) = false := by simpa [bne] using differ
    rw [widenNat120] at exact
    rw [sign, Signed.negative, moved.margin]
    exact ⟨moved.position,moved.positionIsPositive,by omega,by omega⟩
  · rename_i agree
    simp only [Checked.bindOk, Checked.pureOk, Prod.mk.injEq] at ok
    obtain ⟨a,ha,out',sub,_,_,rfl⟩ := ok
    have exact := BaseMath.baseMulRoundUpBounds ha
    have moved := Balance.subFromMarginMoved sub
    have sign : (d.isPositive == b.positionIsPositive) = true := by simpa [bne] using agree
    rw [widenNat120] at exact
    rw [sign, Signed.positive, moved.margin]
    exact ⟨moved.position,moved.positionIsPositive,by omega,by omega⟩

structure Settled (context : Context) (account : Address) (w : World σ) (b : Balance)
    (w' : World σ) : Prop where
  storage : ∃ index : Index, w'.perpetual =
    (w.perpetual.setLocalIndex account index).setBalance account b ∧
    index.timestamp = context.index.timestamp ∧
    ((w.perpetual.localIndexes account).timestamp = context.index.timestamp ∧
        index = w.perpetual.localIndexes account ∧ b = w.perpetual.balances account ∨
      (w.perpetual.localIndexes account).timestamp ≠ context.index.timestamp ∧ index = context.index)
  ext : w'.ext = w.ext
  logs : ∃ new, w'.logs = w.logs ++ new ∧ ∀ l ∈ new, ∃ p m c, l = .accountSettled account p m c
  position : b.position = (w.perpetual.balances account).position
  positionIsPositive : b.positionIsPositive = (w.perpetual.balances account).positionIsPositive
  funding : (w.perpetual.localIndexes account).timestamp ≠ context.index.timestamp →
    let exact := 10 ^ 18 * (w.perpetual.balances account).marginInt -
      (context.index.toInt - (w.perpetual.localIndexes account).toInt) *
        (w.perpetual.balances account).positionInt
    10 ^ 18 * b.marginInt ≤ exact ∧ exact < 10 ^ 18 * b.marginInt + 10 ^ 18

theorem Settled.status {context : Context} {account : Address} {w w' : World σ} {b : Balance}
    (h : Settled context account w b w') : w'.perpetual.status = w.perpetual.status := by
  obtain ⟨index,same,_⟩ := h.storage
  rw [same]
  rfl

theorem settled {context : Context} {account : Address} {w w' : World σ} {b : Balance}
    (ok : settleAccount context account w = .ok (b,w')) : Settled context account w b w' := by
  simp only [settleAccount] at ok
  split at ok
  · rename_i sameTime
    simp only [Checked.pureOk, Prod.mk.injEq] at ok
    obtain ⟨rfl,rfl⟩ := ok
    refine ⟨⟨_,?_,sameTime,.inl ⟨sameTime,rfl,rfl⟩⟩,rfl,⟨[],by simp,by simp⟩,rfl,rfl,?_⟩
    · simp [Storage.setLocalIndex, Storage.setBalance]
    · exact fun later => absurd sameTime later
  · rename_i later
    split at ok
    · rename_i flat
      simp only [Checked.pureOk, Prod.mk.injEq] at ok
      obtain ⟨rfl,rfl⟩ := ok
      refine ⟨⟨_,?_,rfl,.inr ⟨later,rfl⟩⟩,rfl,⟨[],by simp,by simp⟩,rfl,rfl,fun _ => ?_⟩
      · simp [Storage.setLocalIndex, Storage.setBalance]
      · have none : (w.perpetual.balances account).positionInt = 0 := by
          simp [Balance.positionInt, flat]
        simp [none]
    · simp only [Checked.bindOk, Prod.exists, Checked.pureOk, Prod.mk.injEq] at ok
      obtain ⟨d,hd,isPositive,amount,out,applied,rfl,rfl⟩ := ok
      have funding := appliedFunding applied
      rw [indexDiffInt hd] at funding
      exact ⟨⟨_,rfl,rfl,.inr ⟨later,rfl⟩⟩,rfl,
        ⟨[_],rfl,by intro l mem; exact ⟨_,_,_,List.mem_singleton.mp mem⟩⟩,
        funding.1,funding.2.1,fun _ => funding.2.2⟩

inductive SettledAll (context : Context) : List Address → World σ → List Balance → World σ → Prop where
  | nil (w : World σ) : SettledAll context [] w [] w
  | cons {account rest balance balances} {w mid w' : World σ}
      (head : Settled context account w balance mid)
      (tail : SettledAll context rest mid balances w') :
      SettledAll context (account::rest) w (balance::balances) w'

theorem settledAll {context : Context} {accounts : List Address} {w w' : World σ}
    {balances : List Balance} (ok : settleAccounts context accounts w = .ok (balances,w')) :
    SettledAll context accounts w balances w' := by
  induction accounts generalizing w balances with
  | nil =>
    simp only [settleAccounts, Except.ok.injEq, Prod.mk.injEq] at ok
    obtain ⟨rfl,rfl⟩ := ok
    exact .nil w
  | cons account rest ih =>
    simp only [settleAccounts, Checked.bindOk, Prod.exists, Checked.pureOk, Prod.mk.injEq] at ok
    obtain ⟨balance,mid,first,balances,last,others,rfl,rfl⟩ := ok
    exact .cons (settled first) (ih others)

theorem Settled.elsewhere {context : Context} {account other : Address} {w w' : World σ} {b : Balance}
    (h : Settled context account w b w') (away : other ≠ account) :
    w'.perpetual.balances other = w.perpetual.balances other ∧
    w'.perpetual.localIndexes other = w.perpetual.localIndexes other := by
  obtain ⟨index,same,_⟩ := h.storage
  rw [same]
  exact ⟨Function.update_of_ne away _ _,Function.update_of_ne away _ _⟩

theorem Settled.here {context : Context} {account : Address} {w w' : World σ} {b : Balance}
    (h : Settled context account w b w') : w'.perpetual.balances account = b ∧
    (w'.perpetual.localIndexes account).timestamp = context.index.timestamp := by
  obtain ⟨index,same,time,_⟩ := h.storage
  rw [same]
  exact ⟨Function.update_self _ _ _,by simpa [Storage.setBalance, Storage.setLocalIndex] using time⟩

theorem SettledAll.elsewhere {context : Context} {accounts : List Address} {w w' : World σ}
    {balances : List Balance} (h : SettledAll context accounts w balances w') {other : Address}
    (away : other ∉ accounts) : w'.perpetual.balances other = w.perpetual.balances other ∧
    w'.perpetual.localIndexes other = w.perpetual.localIndexes other := by
  induction h with
  | nil w => exact ⟨rfl,rfl⟩
  | cons head tail ih =>
    obtain ⟨first,rest⟩ := not_or.mp (fun h => away (List.mem_cons.mpr h))
    have before := head.elsewhere first
    have after := ih rest
    exact ⟨after.1.trans before.1,after.2.trans before.2⟩

theorem SettledAll.stored {context : Context} {accounts : List Address} {w w' : World σ}
    {balances : List Balance} (h : SettledAll context accounts w balances w')
    (unique : accounts.Nodup) : balances = accounts.map w'.perpetual.balances := by
  induction h with
  | nil w => rfl
  | cons head tail ih =>
    obtain ⟨fresh,unique⟩ := List.nodup_cons.mp unique
    rw [List.map_cons, ← ih unique, (tail.elsewhere fresh).1, head.here.1]

theorem SettledAll.each {context : Context} {accounts : List Address} {w w' : World σ}
    {balances : List Balance} (h : SettledAll context accounts w balances w')
    (unique : accounts.Nodup) {a : Address} (mem : a ∈ accounts) :
    ∃ (u v : World σ) (b : Balance), Settled context a u b v ∧
      (u.perpetual.balances a = w.perpetual.balances a ∧
        u.perpetual.localIndexes a = w.perpetual.localIndexes a) ∧
      w'.perpetual.balances a = v.perpetual.balances a ∧
        w'.perpetual.localIndexes a = v.perpetual.localIndexes a := by
  induction h with
  | nil w => exact (List.not_mem_nil mem).elim
  | cons head tail ih =>
    obtain ⟨fresh,unique⟩ := List.nodup_cons.mp unique
    rcases List.mem_cons.mp mem with rfl | inside
    · exact ⟨_,_,_,head,⟨rfl,rfl⟩,tail.elsewhere fresh⟩
    · obtain ⟨u,v,b,settled,before,after⟩ := ih unique inside
      have away := head.elsewhere fun same => fresh (same ▸ inside)
      exact ⟨u,v,b,settled,⟨before.1.trans away.1,before.2.trans away.2⟩,after⟩

theorem SettledAll.timed {context : Context} {accounts : List Address} {w w' : World σ}
    {balances : List Balance} (h : SettledAll context accounts w balances w')
    (unique : accounts.Nodup) : ∀ a ∈ accounts,
    (w'.perpetual.localIndexes a).timestamp = context.index.timestamp := by
  intro a mem
  obtain ⟨u,v,b,settled,_,_,indexes⟩ := h.each unique mem
  rw [indexes]
  exact settled.here.2

theorem SettledAll.keeps {context : Context} {accounts : List Address} {w w' : World σ} {balances : List Balance}
    (h : SettledAll context accounts w balances w') (R : World σ → World σ → Prop) (refl : ∀ w, R w w)
    (trans : ∀ {u v w}, R u v → R v w → R u w)
    (one : ∀ {account u b v}, Settled context account u b v → R u v) : R w w' := by
  induction h with
  | nil w => exact refl w
  | cons head tail ih => exact trans (one head) ih

theorem SettledAll.same {context : Context} {accounts : List Address} {w w' : World σ} {balances : List Balance}
    (h : SettledAll context accounts w balances w') {β : Type} (read : World σ → β)
    (one : ∀ {account u b v}, Settled context account u b v → read v = read u) : read w' = read w :=
  h.keeps (fun u v => read v = read u) (fun _ => rfl) (fun first last => last.trans first) one

theorem Settled.globalIndex {context : Context} {account : Address} {w w' : World σ} {b : Balance}
    (h : Settled context account w b w') : w'.perpetual.globalIndex = w.perpetual.globalIndex := by
  obtain ⟨index,same,_⟩ := h.storage
  rw [same]
  rfl

theorem SettledAll.globalIndex {context : Context} {accounts : List Address} {w w' : World σ}
    {balances : List Balance} (h : SettledAll context accounts w balances w') :
    w'.perpetual.globalIndex = w.perpetual.globalIndex :=
  h.same (fun w => w.perpetual.globalIndex) Settled.globalIndex

theorem SettledAll.status {context : Context} {accounts : List Address} {w w' : World σ}
    {balances : List Balance} (h : SettledAll context accounts w balances w') :
    w'.perpetual.status = w.perpetual.status :=
  h.same (fun w => w.perpetual.status) Settled.status

end Settlement
end Perpetual
