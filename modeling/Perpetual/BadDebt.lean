import Perpetual.Solvency
import Perpetual.FinalBalances

/-! Trading creates no bad debt: the checks on the final balances compare sizes, signs
and ratios by cases, and together they bound the loss of every account. -/
namespace Perpetual

/-- What an account owes beyond its value at a price, in units of `10^-18` tokens. -/
def Balance.shortfall (b : Balance) (price : Nat) : Nat := b.negativeValue price - b.positiveValue price

theorem smallerValue {debt value debt₀ value₀ : Nat} (ratio : debt * value₀ ≤ debt₀ * value)
    (smaller : value ≤ value₀) (some : 0 < value) : debt - value ≤ debt₀ - value₀ := by
  rcases Nat.le_total debt value with covered | short
  · omega
  · obtain ⟨missing,rfl⟩ := Nat.exists_eq_add_of_le short
    have grow : value * missing ≤ value₀ * missing := Nat.mul_le_mul_right _ smaller
    have enough : value * (value₀ + missing) ≤ value * debt₀ := by
      calc value * (value₀ + missing) = value * value₀ + value * missing := Nat.mul_add _ _ _
        _ ≤ value * value₀ + value₀ * missing := Nat.add_le_add_left grow _
        _ = (value + missing) * value₀ := by ring
        _ ≤ debt₀ * value := ratio
        _ = value * debt₀ := Nat.mul_comm _ _
    have bound := Nat.le_of_mul_le_mul_left enough some
    omega

theorem smallerDebt {debt value debt₀ value₀ : Nat} (ratio : debt * value₀ ≤ debt₀ * value)
    (smaller : debt ≤ debt₀) : debt - value ≤ debt₀ - value₀ := by
  rcases Nat.le_total debt value with covered | short
  · omega
  · obtain ⟨missing,rfl⟩ := Nat.exists_eq_add_of_le short
    rcases Nat.eq_zero_or_pos (value + missing) with none | some
    · omega
    · have grow : (value + missing) * missing ≤ debt₀ * missing := Nat.mul_le_mul_right _ smaller
      have enough : (value + missing) * (value₀ + missing) ≤ (value + missing) * debt₀ := by
        calc (value + missing) * (value₀ + missing)
            = (value + missing) * value₀ + (value + missing) * missing := Nat.mul_add _ _ _
          _ ≤ debt₀ * value + debt₀ * missing := Nat.add_le_add ratio grow
          _ = (value + missing) * debt₀ := by ring
      have bound := Nat.le_of_mul_le_mul_left enough some
      omega

theorem coveredShortfall {b : Balance} {price minCollateral : Nat} (least : 10 ^ 18 ≤ minCollateral)
    (enough : b.negativeValue price * minCollateral ≤ b.positiveValue price * 10 ^ 18) :
    b.shortfall price = 0 := by
  have more : b.negativeValue price * 10 ^ 18 ≤ b.negativeValue price * minCollateral :=
    Nat.mul_le_mul_left _ least
  have covered := Nat.le_of_mul_le_mul_right (more.trans enough) (by decide)
  exact Nat.sub_eq_zero_of_le covered

theorem Settlement.collateralizedShortfall {context : Context} {b : Balance}
    (least : 10 ^ 18 ≤ context.minCollateral.toNat)
    (ok : Settlement.isCollateralized context b = .ok true) : b.shortfall context.price.toNat = 0 := by
  simp only [Settlement.isCollateralized, Checked.bindOk, Prod.exists, SafeMath.mulOk,
    Checked.pureOk, decide_eq_true_eq] at ok
  obtain ⟨pos,neg,values,left,hl,right,hr,enough⟩ := ok
  obtain ⟨exactPos,exactNeg⟩ := Balance.valuesExact values
  have base : BaseMath.base.toNat = 10 ^ 18 := BaseMath.baseNat
  rw [base, exactPos] at hl
  rw [exactNeg] at hr
  rw [hl, hr] at enough
  exact coveredShortfall least enough

namespace Trade
open Settlement
variable {σ : Type}

theorem notWorseShortfall {initial current : Balance} {price : Nat}
    (kept : NotWorse initial current price) : current.shortfall price ≤ initial.shortfall price := by
  obtain ⟨value,position,sign,_,ratio⟩ := kept
  have debt : current.negativeValue price * initial.positiveValue price ≤
      initial.negativeValue price * current.positiveValue price := by
    rwa [Nat.mul_comm, Nat.mul_comm (Balance.negativeValue _ _)]
  have notional : current.position.toNat * price ≤ initial.position.toNat * price :=
    Nat.mul_le_mul_right _ position
  obtain ⟨mp,pp,m,p⟩ := current
  obtain ⟨mp₀,pp₀,m₀,p₀⟩ := initial
  obtain rfl : pp = pp₀ := sign
  unfold Balance.shortfall
  cases pp with
  | true =>
    cases mp with
    | true => simp [Balance.negativeValue]
    | false =>
      refine smallerValue debt ?_ (Nat.pos_of_ne_zero value)
      simp only [Balance.positiveValue, Bool.false_eq_true, if_false, if_true] at notional ⊢
      omega
  | false =>
    cases mp with
    | true =>
      refine smallerDebt debt ?_
      simp only [Balance.negativeValue, Bool.false_eq_true, if_false, if_true] at notional ⊢
      omega
    | false => exact absurd rfl value

theorem verifiedShortfall {context : Context} {account : Address} {initial current : Balance}
    {u : Unit} (least : 10 ^ 18 ≤ context.minCollateral.toNat)
    (ok : verifyFinalBalance context account initial current = .ok u) :
    current.shortfall context.price.toNat ≤ initial.shortfall context.price.toNat := by
  rcases verified ok with enough | kept
  · rw [coveredShortfall least enough]
    exact Nat.zero_le _
  · exact notWorseShortfall kept

theorem verifiedAll {context : Context} {accounts : List Address} {initial current : Address → Balance}
    {u : Unit} (least : 10 ^ 18 ≤ context.minCollateral.toNat)
    (ok : verifyAccountsFinalBalances context accounts (accounts.map initial) (accounts.map current) =
      .ok u) : ∀ a ∈ accounts,
    (current a).shortfall context.price.toNat ≤ (initial a).shortfall context.price.toNat := by
  induction accounts with
  | nil => simp
  | cons account rest ih =>
    simp only [List.map_cons, verifyAccountsFinalBalances, Checked.bindOk] at ok
    obtain ⟨_,first,others⟩ := ok
    intro a mem
    rcases List.mem_cons.mp mem with rfl | inside
    · exact verifiedShortfall least first
    · exact ih others a inside

theorem unlistedPass {allow : σ → σ → Prop} {x : Externals σ} (traders : Traders allow x) {msg : Msg}
    {context : Context} {accounts : List Address} {s s' : Batch σ} {tradeArg : TradeArg}
    (inStep : InStep context accounts s) {a : Address} (unlisted : a ∉ accounts)
    (ok : tradeOne x msg context accounts s tradeArg = .ok s') :
    s'.world.perpetual.balances a = s.world.perpetual.balances a := by
  obtain ⟨maker,taker,result,w,_,_,called,moved,_⟩ := (traded ok).called
  have kept := (traders _ _ _ _ _ called).untouched inStep.status
  rw [← kept.balances]
  obtain ⟨after,balances,flags⟩ := s'
  cases moved with
  | self => rfl
  | between atMaker atTaker different _ _ _ storage =>
    have notMaker : a ≠ _ := fun same => unlisted (same ▸ List.mem_of_getElem? atMaker)
    have notTaker : a ≠ _ := fun same => unlisted (same ▸ List.mem_of_getElem? atTaker)
    rw [storage]
    simp only [Storage.setBalance, Function.update_of_ne notTaker, Function.update_of_ne notMaker]

end Trade

open Settlement
variable {σ : Type}

theorem withdrawalCovered {x : Externals σ} {msg : Msg} {account destination : Address} {amount : Uint256}
    {w w' : World σ} (least : 10 ^ 18 ≤ w.perpetual.minCollateral.toNat)
    (ok : exec x msg (.withdraw account destination amount) w = .ok w') :
    ∃ context w₁, loadContext x msg (w.setStatus ENTERED) = .ok (context,w₁) ∧
      (w'.perpetual.balances account).shortfall context.price.toNat = 0 := by
  cases withdrawn ok with
  | @done context balance out w₁ w₂ w₃ live permission load settle push moved collateralized =>
    refine ⟨context,w₁,load,?_⟩
    have minCollateral : 10 ^ 18 ≤ context.minCollateral.toNat := by
      rw [(loaded load).minCollateral]; exact least
    change (Function.update w₃.perpetual.balances account out account).shortfall _ = 0
    rw [Function.update_self]
    exact Settlement.collateralizedShortfall minCollateral collateralized

/-- No trade raises the shortfall of any account over what it was right after the funding
settlement, at the price of the call; and no withdrawal leaves a shortfall. -/
theorem tradingMakesNoBadDebt {x : Externals σ} (traders : Traders (fun _ _ => True) x) (msg : Msg)
    {w w' : World σ} (least : 10 ^ 18 ≤ w.perpetual.minCollateral.toNat) :
    (∀ accounts trades, exec x msg (.trade accounts trades) w = .ok w' →
      ∃ context w₁ initialBalances w₂,
        loadContext x msg (w.setStatus ENTERED) = .ok (context,w₁) ∧
        settleAccounts context accounts w₁ = .ok (initialBalances,w₂) ∧
        ∀ a, (w'.perpetual.balances a).shortfall context.price.toNat ≤
          (w₂.perpetual.balances a).shortfall context.price.toNat) ∧
    (∀ account destination amount,
      exec x msg (.withdraw account destination amount) w = .ok w' →
      ∃ context w₁, loadContext x msg (w.setStatus ENTERED) = .ok (context,w₁) ∧
        (w'.perpetual.balances account).shortfall context.price.toNat = 0) := by
  constructor
  · intro accounts trades ok
    cases batchTraded ok with
    | @done context initialBalances w₁ w₂ batch live unique load settle start ran verified =>
      refine ⟨context,w₁,initialBalances,w₂,load,settle,fun a => ?_⟩
      have minCollateral : 10 ^ 18 ≤ context.minCollateral.toNat := by
        rw [(loaded load).minCollateral]; exact least
      have loop : Trade.InStep context accounts batch ∧ ∀ a ∉ accounts,
          batch.world.perpetual.balances a = w₂.perpetual.balances a :=
        Checked.loopKeeps (P := fun s => Trade.InStep context accounts s ∧ ∀ a ∉ accounts,
            s.world.perpetual.balances a = w₂.perpetual.balances a)
          (fun s _ s' _ kept ok => ⟨Trade.inStepPass traders unique kept.1 ok,fun a unlisted =>
            (Trade.unlistedPass traders kept.1 unlisted ok).trans (kept.2 a unlisted)⟩)
          ran ⟨start,fun _ _ => rfl⟩
      by_cases listed : a ∈ accounts
      · have initial : initialBalances = accounts.map w₂.perpetual.balances := start.memory
        rw [initial, loop.1.memory] at verified
        exact Trade.verifiedAll minCollateral verified a listed
      · change (batch.world.perpetual.balances a).shortfall _ ≤ _
        rw [loop.2 a listed]
  · intro account destination amount ok
    exact withdrawalCovered least ok

theorem sampleMakesNoBadDebt :
    let w := runAll (settledRun.take 3) startWorld
    let w' := perform sample ⟨1,130⟩ (.trade [1,2] [⟨0,1,9,[]⟩]) w
    let w'' := perform sample ⟨2,150⟩ (.withdraw 2 2 30) w'
    (∃ context w₁ initialBalances w₂,
      loadContext sample ⟨1,130⟩ (w.setStatus ENTERED) = .ok (context,w₁) ∧
      settleAccounts context [1,2] w₁ = .ok (initialBalances,w₂) ∧
      ∀ a, (w'.perpetual.balances a).shortfall context.price.toNat ≤
        (w₂.perpetual.balances a).shortfall context.price.toNat) ∧
    (∃ context w₁, loadContext sample ⟨2,150⟩ (w'.setStatus ENTERED) = .ok (context,w₁) ∧
      (w''.perpetual.balances 2).shortfall context.price.toNat = 0) := by
  have traders : Traders (fun _ _ => True) sample := (plainHonest 7 _ _).traders
  constructor
  · exact (tradingMakesNoBadDebt traders ⟨1,130⟩ (by decide +kernel)).1 [1,2] [⟨0,1,9,[]⟩] rfl
  · exact (tradingMakesNoBadDebt traders ⟨2,150⟩ (by decide +kernel)).2 2 2 30 rfl

end Perpetual
