import Perpetual.MatchLimits
import Perpetual.Quote
import Perpetual.TradeOperation

/-! What the operator gains and loses by taking both sides of every match. -/
namespace Perpetual
namespace OrderBook
open TradeOperation Greedy
variable {env : Environment} {now : ℚ} {rows : List SignedOrderEntity} {signedOrder : SignedOrder}

theorem filledBy {taker : Address} {order : SignedOrder} {amount : ℚ} {price fee : BaseValue}
    {t : TradeArg} (ok : fillSignedOrder env taker order amount price fee = .ok t) :
    t.maker = order.maker ∧ t.taker = taker ∧ t.trader = env.p1Orders := by
  simp only [fillSignedOrder, Checked.bindOk, Checked.pureOk] at ok
  obtain ⟨_,_,rfl⟩ := ok
  exact ⟨rfl,rfl,rfl⟩

theorem operatorTakes {fills : List (SRAOrder × ℚ)} {args : List TradeArg}
    (ok : tradesOf env signedOrder fills = .ok args) :
    ∀ t ∈ args, t.taker = env.operator ∧ t.trader = env.p1Orders := by
  induction fills generalizing args with
  | nil =>
    cases ok
    exact fun t mem => (List.not_mem_nil mem).elim
  | cons fill rest ih =>
    simp only [tradesOf, Checked.bindOk, Checked.pureOk] at ok
    obtain ⟨maker,makerOk,taker,takerOk,others,othersOk,rfl⟩ := ok
    rw [List.forall_mem_cons, List.forall_mem_cons]
    exact ⟨(filledBy makerOk).2,(filledBy takerOk).2,ih othersOk⟩

def operatorEarns (f : SRAOrder × ℚ) : ℤ :=
  let price := f.1.order.limitPrice.toSolidity
  let fee := f.1.order.limitFee.toSolidity * price / 10 ^ 18
  let amount := BigNumber.toFixed0 f.2
  let both := amount * (price + fee) / 10 ^ 18 - amount * (price - fee) / 10 ^ 18
  if f.1.order.limitFee.isNegative then -both else both

def ownAmount (operator : Address) (signedOrder : SignedOrder) (f : SRAOrder × ℚ) : ℤ :=
  if f.1.order.maker = operator ↔ signedOrder.maker = operator then 0 else BigNumber.toFixed0 f.2

def ownSide (operator : Address) (signedOrder : SignedOrder) : ℤ :=
  if signedOrder.maker = operator ↔ signedOrder.isBuy = true then 1 else -1

theorem operatorEarnsNonneg {f : SRAOrder × ℚ} (positive : 0 ≤ f.2)
    (fee : f.1.order.limitFee.isNegative = false) : 0 ≤ operatorEarns f := by
  have amount : 0 ≤ BigNumber.toFixed0 f.2 := by
    rw [← BigNumber.toFixed0Int 0]
    exact BigNumber.toFixed0Mono (by simpa using positive)
  have charged : 0 ≤ f.1.order.limitFee.toSolidity * f.1.order.limitPrice.toSolidity / 10 ^ 18 :=
    Int.ediv_nonneg (mul_nonneg (BaseValue.toSolidityNonneg _) (BaseValue.toSolidityNonneg _)) (by decide)
  rw [operatorEarns, fee, if_neg (by decide), sub_nonneg]
  exact Int.ediv_le_ediv (by decide) (mul_le_mul_of_nonneg_left (by linarith) amount)

section
variable {operator : Address} {order : SignedOrder} {amount : ℚ} {price fee : BaseValue}
  {t : TradeArg}

theorem positionEncoded (fill : SignedOrder.FillEncoded order amount price fee t.data) :
    positionChange operator t = if t.maker = operator then 0
      else if order.isBuy then -BigNumber.toFixed0 amount else BigNumber.toFixed0 amount := by
  rw [positionChange, SignedOrder.sideKept fill.order, ← fill.amount]
  cases order.isBuy <;> rfl

theorem marginEncoded (fill : SignedOrder.FillEncoded order amount price fee t.data) :
    fillMarginAmount t = BigNumber.toFixed0 amount *
      (price.toSolidity + if order.isBuy != fee.isNegative
        then fee.toSolidity * price.toSolidity / 10 ^ 18
        else -(fee.toSolidity * price.toSolidity / 10 ^ 18)) / 10 ^ 18 := by
  rw [fillMarginAmount, P1Orders.fillMargin, P1Orders.marginPerPosition, SignedOrder.sideKept fill.order,
    fill.isNegativeFee, ← fill.amount, ← fill.price, ← fill.fee]
  cases order.isBuy != fee.isNegative with
  | true => simp [Signed.positive]
  | false => simp [Signed.negative]

theorem marginChangeEncoded (fill : SignedOrder.FillEncoded order amount price fee t.data) :
    marginChange operator t = if t.maker = operator then 0
      else if order.isBuy then fillMarginAmount t else -fillMarginAmount t := by
  rw [marginChange, SignedOrder.sideKept fill.order]

end

section
variable {f : SRAOrder × ℚ} {maker taker : TradeArg}
  (opposite : f.1.order.isBuy = !signedOrder.isBuy)
  (makerOk : fillSignedOrder env env.operator f.1.order f.2 f.1.order.limitPrice f.1.order.limitFee =
    .ok maker)
  (takerOk : fillSignedOrder env env.operator signedOrder f.2 f.1.order.limitPrice f.1.order.limitFee =
    .ok taker)
include opposite makerOk takerOk

theorem pairPosition : positionChange env.operator maker + positionChange env.operator taker =
    ownSide env.operator signedOrder * ownAmount env.operator signedOrder f := by
  rw [positionEncoded (fillSigned makerOk), positionEncoded (fillSigned takerOk), (filledBy makerOk).1,
    (filledBy takerOk).1, ownSide, ownAmount, opposite]
  by_cases makes : f.1.order.maker = env.operator <;>
    by_cases takes : signedOrder.maker = env.operator <;>
      cases signedOrder.isBuy <;> simp [makes, takes]

theorem pairMargin (users : ownAmount env.operator signedOrder f = 0) :
    marginChange env.operator maker + marginChange env.operator taker =
      if signedOrder.maker = env.operator then 0 else operatorEarns f := by
  have makerAmount := marginEncoded (fillSigned makerOk)
  have takerAmount := marginEncoded (fillSigned takerOk)
  rw [marginChangeEncoded (fillSigned makerOk), marginChangeEncoded (fillSigned takerOk),
    (filledBy makerOk).1, (filledBy takerOk).1, makerAmount, takerAmount, opposite, operatorEarns]
  by_cases none' : BigNumber.toFixed0 f.2 = 0
  · simp [none']
  · have both : f.1.order.maker = env.operator ↔ signedOrder.maker = env.operator := by
      by_contra different
      rw [ownAmount, if_neg different] at users
      exact none' users
    by_cases takes : signedOrder.maker = env.operator
    · simp only [both.mpr takes, takes, if_true, add_zero]
    · have makes : f.1.order.maker ≠ env.operator := fun same => takes (both.mp same)
      simp only [makes, takes, if_false]
      cases signedOrder.isBuy <;> cases f.1.order.limitFee.isNegative <;>
        simp only [Bool.not_true, Bool.not_false, Bool.true_bne, Bool.false_bne, if_true, if_false,
          Bool.false_eq_true, ← sub_eq_add_neg] <;> ring

end

theorem tradesChange {fills : List (SRAOrder × ℚ)} {args : List TradeArg}
    (opposite : ∀ f ∈ fills, f.1.order.isBuy = !signedOrder.isBuy)
    (ok : tradesOf env signedOrder fills = .ok args) :
    (args.map (positionChange env.operator)).sum =
        ownSide env.operator signedOrder * (fills.map (ownAmount env.operator signedOrder)).sum ∧
      ((∀ f ∈ fills, ownAmount env.operator signedOrder f = 0) →
        (args.map (marginChange env.operator)).sum =
          if signedOrder.maker = env.operator then 0 else (fills.map operatorEarns).sum) := by
  induction fills generalizing args with
  | nil =>
    cases ok
    exact ⟨(mul_zero _).symm,fun _ => (ite_self _).symm⟩
  | cons f rest ih =>
    simp only [tradesOf, Checked.bindOk, Checked.pureOk] at ok
    obtain ⟨maker,makerOk,taker,takerOk,others,othersOk,rfl⟩ := ok
    rw [List.forall_mem_cons] at opposite
    obtain ⟨positions,margins⟩ := ih opposite.2 othersOk
    have position := pairPosition opposite.1 makerOk takerOk
    simp only [List.map_cons, List.sum_cons, List.forall_mem_cons]
    constructor
    · rw [positions, ← add_assoc, position, mul_add]
    · rintro ⟨users,later⟩
      rw [margins later, ← add_assoc, pairMargin opposite.1 makerOk takerOk users]
      split <;> rfl

theorem ownAmountNonneg (operator : Address) (signedOrder : SignedOrder) {f : SRAOrder × ℚ}
    (positive : 0 ≤ f.2) : 0 ≤ ownAmount operator signedOrder f := by
  unfold ownAmount
  split
  · exact le_rfl
  · rw [← BigNumber.toFixed0Int 0]
    exact BigNumber.toFixed0Mono (by simpa using positive)

def allotted (env : Environment) (now : ℚ) (rows : List SignedOrderEntity) (signedOrder : SignedOrder) :
    List (SRAOrder × ℚ) :=
  greedy remainingOf (apiOrders env now rows signedOrder) signedOrder.amount

/-- Either no order is the operator's or all of them are, and in the former case the fees that it
earns make up for the negative ones. -/
structure Undisturbed (operator : Address) (signedOrder : SignedOrder) (fills : List (SRAOrder × ℚ)) :
    Prop where
  users : ∀ f ∈ fills, BigNumber.toFixed0 f.2 ≠ 0 →
    (f.1.order.maker = operator ↔ signedOrder.maker = operator)
  fees : signedOrder.maker = operator ∨ 0 ≤ (fills.map operatorEarns).sum

theorem usersOnly {operator : Address} {fills : List (SRAOrder × ℚ)} :
    (∀ f ∈ fills, ownAmount operator signedOrder f = 0) ↔
      ∀ f ∈ fills, BigNumber.toFixed0 f.2 ≠ 0 →
        (f.1.order.maker = operator ↔ signedOrder.maker = operator) := by
  refine forall₂_congr fun f _ => ?_
  rw [ownAmount, ite_eq_left_iff]
  exact ⟨fun h some' => not_not.mp fun different => some' (h different),
    fun h different => not_not.mp fun some' => different (h some')⟩

theorem undisturbedIdle {operator : Address} {fills rest : List (SRAOrder × ℚ)}
    (idle : ∀ f ∈ rest, f.2 = 0) :
    Undisturbed operator signedOrder (fills ++ rest) ↔ Undisturbed operator signedOrder fills := by
  have none' : BigNumber.toFixed0 0 = 0 := BigNumber.toFixed0Int 0
  have earned : (rest.map operatorEarns).sum = 0 := by
    refine List.sum_eq_zero fun x mem => ?_
    obtain ⟨f,inside,rfl⟩ := List.mem_map.mp mem
    simp [operatorEarns, idle f inside, none']
  constructor
  · rintro ⟨users,fees⟩
    rw [List.map_append, List.sum_append, earned, add_zero] at fees
    exact ⟨fun f mem => users f (List.mem_append_left _ mem),fees⟩
  · rintro ⟨users,fees⟩
    refine ⟨fun f mem some' => ?_,?_⟩
    · rcases List.mem_append.mp mem with inside | inside
      · exact users f inside some'
      · rw [idle f inside] at some'
        exact absurd none' some'
    · rwa [List.map_append, List.sum_append, earned, add_zero]

theorem positionKept (operator : Address) (signedOrder : SignedOrder) {fills : List (SRAOrder × ℚ)}
    (positive : ∀ f ∈ fills, 0 < f.2) :
    ownSide operator signedOrder * (fills.map (ownAmount operator signedOrder)).sum = 0 ↔
      ∀ f ∈ fills, ownAmount operator signedOrder f = 0 := by
  have side : ownSide operator signedOrder ≠ 0 := by
    unfold ownSide
    split <;> decide
  rw [mul_eq_zero, or_iff_right side]
  constructor
  · intro sum f mem
    refine List.all_zero_of_le_zero_le_of_sum_eq_zero ?_ sum (List.mem_map_of_mem mem)
    rw [List.forall_mem_map]
    exact fun g inside => ownAmountNonneg operator signedOrder (positive g inside).le
  · intro none'
    refine List.sum_eq_zero fun x mem => ?_
    obtain ⟨f,inside,rfl⟩ := List.mem_map.mp mem
    exact none' f inside

theorem tradedSome {plan : Plan} (ok : fulfillOrder env now rows signedOrder = .ok plan)
    (some' : plan.trades ≠ []) : 0 < signedOrder.amount := by
  by_contra none'
  have fills : plan.fills = [] := by
    rw [fulfillFills ok, matchOrders, matchLoopNone _ (not_lt.mp none')]
  have trades := fulfillTrades ok
  rw [fills] at trades
  exact some' (Except.ok.inj trades).symm

theorem undisturbedAllotted {plan : Plan} (ok : fulfillOrder env now rows signedOrder = .ok plan)
    (some' : 0 < signedOrder.amount) (operator : Address) :
    Undisturbed operator signedOrder (allotted env now rows signedOrder) ↔
      Undisturbed operator signedOrder plan.fills := by
  obtain ⟨rest,same,idle⟩ := matchLoopGreedy apiOrdersOpen some'.le
  rw [allotted, same, undisturbedIdle idle, fulfillFills ok, matchOrders]

section
variable {ρ : Type} {this : Address} {x : Externals (OrdersHost ρ)} {msg : Msg}

/-- The operator comes out of a match with its position, and with no less margin than the funding
settlement left it, exactly when its own orders are not matched with those of others and no
negative fees outweigh the others. -/
theorem operatorNeutral {table : Table} {plan : Plan} (read : rows.Perm (findBy signedOrder table))
    (ok : fulfillOrder env now rows signedOrder = .ok plan)
    (orders : ∀ call w, x.trade env.p1Orders call w = ordersTrade env.crypto ⟨this,msg.timestamp⟩ call w)
    {w w' : World (OrdersHost ρ)} (accepted : TradeOperation.commit x msg plan.trades w = .ok w') :
    ∃ context w₁ initialBalances w₂,
      Settlement.loadContext x msg (w.setStatus ENTERED) = .ok (context,w₁) ∧
      Settlement.settleAccounts context (accounts plan.trades) w₁ = .ok (initialBalances,w₂) ∧
      (((w'.perpetual.balances env.operator).positionInt =
          (w.perpetual.balances env.operator).positionInt ∧
        (w₂.perpetual.balances env.operator).marginInt ≤
          (w'.perpetual.balances env.operator).marginInt) ↔
        Undisturbed env.operator signedOrder (allotted env now rows signedOrder)) := by
  have trades := fulfillTrades ok
  have made := planned ok
  obtain ⟨context,w₁,initialBalances,w₂,load,settle,position,margin⟩ :=
    TradeOperation.committed orders (operatorTakes trades) accepted
  have some' : plan.trades ≠ [] := by
    simp only [TradeOperation.commit, Checked.bindOk, Checked.requireOk, exists_const] at accepted
    exact accepted.1
  have opposite : ∀ f ∈ plan.fills, f.1.order.isBuy = !signedOrder.isBuy := by
    intro f mem
    obtain ⟨row,inside,same,_⟩ := made.read mem
    rw [same]
    exact (memFindBy.mp (read.subset inside)).2
  obtain ⟨positions,margins⟩ := tradesChange opposite trades
  refine ⟨context,w₁,initialBalances,w₂,load,settle,?_⟩
  have still : (w'.perpetual.balances env.operator).positionInt =
      (w.perpetual.balances env.operator).positionInt ↔
        ∀ f ∈ plan.fills, ownAmount env.operator signedOrder f = 0 := by
    rw [position, positions, add_eq_left]
    exact positionKept env.operator signedOrder made.positive
  rw [undisturbedAllotted ok (tradedSome ok some'), still, margin, le_add_iff_nonneg_right]
  constructor
  · rintro ⟨users,noLess⟩
    rw [margins users] at noLess
    refine ⟨usersOnly.mp users,?_⟩
    by_cases own : signedOrder.maker = env.operator
    · exact .inl own
    · rw [if_neg own] at noLess
      exact .inr noLess
  · rintro ⟨users,fees⟩
    have kept := usersOnly.mpr users
    refine ⟨kept,?_⟩
    rw [margins kept]
    split
    · exact le_rfl
    · rename_i other
      exact fees.resolve_left other

end

def neutralSample : Environment := { Environment.sample with p1Orders := 9 }

def sampleFeeTable (limitFee : ℚ) : Table :=
  ⟨[{ sampleMaker 0 with limitFee := limitFee, maker := 3 }],List.nodup_singleton _⟩

def sampleTaker : SignedOrder := { sampleSigned true 4 200 with limitFee := .ofValue (1 / 2), maker := 4 }

def sampleApproved : World (OrdersHost Unit) where
  perpetual := sampleDeployment.perpetual
  logs := []
  ext := ⟨{ sampleDeployment.ext.contract with status := fun _ => .Approved },[],()⟩

theorem sampleNeutral : ∃ (plan : Plan) (w' : World (OrdersHost Unit)),
    fulfillOrder neutralSample 0 (findBy sampleTaker (sampleFeeTable (1 / 2))) sampleTaker = .ok plan ∧
    (w'.perpetual.balances 2).marginInt = 1020 ∧
    ∃ context w₁ initialBalances w₂,
      Settlement.loadContext (ordersSample 50) ⟨2,50⟩ (sampleApproved.setStatus ENTERED) = .ok (context,w₁) ∧
      Settlement.settleAccounts context (accounts plan.trades) w₁ = .ok (initialBalances,w₂) ∧
      (((w'.perpetual.balances 2).positionInt = (sampleApproved.perpetual.balances 2).positionInt ∧
        (w₂.perpetual.balances 2).marginInt ≤ (w'.perpetual.balances 2).marginInt) ↔
        Undisturbed 2 sampleTaker (allotted neutralSample 0
          (findBy sampleTaker (sampleFeeTable (1 / 2))) sampleTaker)) := by
  have ran : (do
      let plan ← fulfillOrder neutralSample 0 (findBy sampleTaker (sampleFeeTable (1 / 2))) sampleTaker
      let w' ← TradeOperation.commit (ordersSample 50) ⟨2,50⟩ plan.trades sampleApproved
      return (w'.perpetual.balances 2).marginInt) = .ok 1020 := by decide +kernel
  simp only [Checked.bindOk, Checked.pureOk] at ran
  obtain ⟨plan,ok,w',accepted,margin⟩ := ran
  exact ⟨plan,w',ok,margin,operatorNeutral (.refl _) ok (fun _ _ => rfl) accepted⟩

theorem rebatePaidTwice : ∃ (plan : Plan) (w' : World (OrdersHost Unit)),
    fulfillOrder neutralSample 0 (findBy sampleTaker (sampleFeeTable (-1 / 2))) sampleTaker = .ok plan ∧
    TradeOperation.commit (ordersSample 50) ⟨2,50⟩ plan.trades sampleApproved = .ok w' ∧
    (sampleApproved.perpetual.balances 2).positionInt = 0 ∧
    (sampleApproved.perpetual.balances 2).marginInt = 1000 ∧
    (w'.perpetual.balances 2).marginInt = 980 := by
  have ran : (do
      let plan ← fulfillOrder neutralSample 0 (findBy sampleTaker (sampleFeeTable (-1 / 2))) sampleTaker
      let w' ← TradeOperation.commit (ordersSample 50) ⟨2,50⟩ plan.trades sampleApproved
      return (w'.perpetual.balances 2).marginInt) = .ok 980 := by decide +kernel
  simp only [Checked.bindOk, Checked.pureOk] at ran
  obtain ⟨plan,ok,w',accepted,margin⟩ := ran
  exact ⟨plan,w',ok,accepted,rfl,rfl,margin⟩

end OrderBook
end Perpetual
