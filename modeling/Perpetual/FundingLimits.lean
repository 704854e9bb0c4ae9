import Mathlib.Algebra.Order.Ring.Abs
import Mathlib.Tactic.Ring
import Perpetual.BlockOrder
import Perpetual.FundingOracle

/-! PerpetualV1 with its funders behind it. The rate of a `P1FundingOracle` stays in its range
whatever is done to it, and that limits what funding can take from an account. -/
namespace Perpetual
open Settlement
variable {σ : Type}

namespace P1InverseFundingOracle

def getFunding (timeDelta : Uint256) (s : FundingOracle) : Checked (Bool × Uint256) := do
  let (isPositive,fundingAmount) ← P1FundingOracle.getFunding timeDelta s
  return (!isPositive,fundingAmount)

end P1InverseFundingOracle

structure Funders (σ : Type) where
  state : σ → Address → FundingOracle
  isInverse : Address → Bool

namespace Funders
variable (funders : Funders σ)

def getFunding (funder : Address) (timeDelta : Uint256) (e : σ) : Checked (Bool × Uint256) :=
  if funders.isInverse funder then P1InverseFundingOracle.getFunding timeDelta (funders.state e funder)
  else P1FundingOracle.getFunding timeDelta (funders.state e funder)

def Moves (e e' : σ) : Prop := ∀ funder, ∃ us, P1FundingOracle.Run (funders.state e funder) us (funders.state e' funder)

def InRange (e : σ) : Prop := ∀ funder, P1FundingOracle.InRange (funders.state e funder).fundingRate

/-- The funder that is asked is one of these, and the oracle names no price above the limit. -/
structure Limited (limit : Nat) (x : Externals σ) (_msg : Msg) : Prop where
  honest : Honest funders.Moves x
  funding : ∀ funder timeDelta w, x.getFunding funder timeDelta w = funders.getFunding funder timeDelta w.ext
  price : ∀ oracle w price, x.getPrice oracle w = .ok price → price.toNat ≤ limit

end Funders

namespace P1FundingOracle

theorem Run.trans {s t u : FundingOracle} {us vs : List Update} (first : Run s us t) (last : Run t vs u) :
    Run s (us ++ vs) u := by
  induction last with
  | none =>
    rw [List.append_nil]
    exact first
  | update before msg newRate stored ok ih =>
    rw [← List.append_assoc]
    exact .update ih msg newRate stored ok
  | provider before msg newProvider ok ih => exact .provider ih msg newProvider ok
  | owner before owner ih => exact .owner ih owner

end P1FundingOracle

section
variable {funders : Funders σ}

theorem Funders.Moves.refl (e : σ) : funders.Moves e e := fun _ => ⟨[],.none⟩

theorem Funders.Moves.trans {a b c : σ} (first : funders.Moves a b) (last : funders.Moves b c) : funders.Moves a c := by
  intro funder
  obtain ⟨us,early⟩ := first funder
  obtain ⟨vs,late⟩ := last funder
  exact ⟨_,early.trans late⟩

theorem Funders.Moves.inRange {e e' : σ} (moves : funders.Moves e e') (inRange : funders.InRange e) :
    funders.InRange e' := by
  intro funder
  obtain ⟨us,run⟩ := moves funder
  exact (P1FundingOracle.runKept (inRange funder) run).inRange

theorem fundingAtMost {e : σ} (inRange : funders.InRange e) {funder : Address} {timeDelta amount : Uint256}
    {isPositive : Bool} (ok : funders.getFunding funder timeDelta e = .ok (isPositive,amount)) :
    amount.toNat ≤ P1FundingOracle.MAX_ABS_VALUE.toNat * timeDelta.toNat := by
  have rate := inRange funder
  rw [P1FundingOracle.InRange, Index.toInt, ← Int.natCast_natAbs, Signed.natAbs, Int.ofNat_le] at rate
  have asked : ∃ sign, P1FundingOracle.getFunding timeDelta (funders.state e funder) = .ok (sign,amount) := by
    rw [Funders.getFunding] at ok
    split at ok
    · simp only [P1InverseFundingOracle.getFunding, Checked.bindOk, Prod.exists, Checked.pureOk, Prod.mk.injEq] at ok
      obtain ⟨sign,amount,asked,_,rfl⟩ := ok
      exact ⟨sign,asked⟩
    · exact ⟨_,ok⟩
  obtain ⟨sign,asked⟩ := asked
  simp only [P1FundingOracle.getFunding, Checked.bindOk, SafeMath.mulOk, widenNat128, Checked.pureOk,
    Prod.mk.injEq] at asked
  obtain ⟨_,product,_,rfl⟩ := asked
  rw [product]
  exact Nat.mul_le_mul_right _ rate

end

theorem External.mono {allow more : σ → σ → Prop} {w w' : World σ} (weaker : ∀ {e e'}, allow e e' → more e e')
    (h : External allow w w') : External more w w' := by
  induction h with
  | refl w => exact .refl w
  | own w ext allowed => exact .own w ext (weaker allowed)
  | reenter x msg entry traders pulls pushes ok ihTraders ihPulls ihPushes =>
    exact .reenter x msg entry ihTraders ihPulls ihPushes ok
  | trans first last ihFirst ihLast => exact .trans ihFirst ihLast

theorem Honest.mono {allow more : σ → σ → Prop} {x : Externals σ} (weaker : ∀ {e e'}, allow e e' → more e e')
    (honest : Honest allow x) : Honest more x where
  traders trader call w r w' ok := (honest.traders trader call w r w' ok).mono weaker
  pulls token sender amount w w' ok := (honest.pulls token sender amount w w' ok).mono weaker
  pushes token recipient amount w w' ok := (honest.pushes token recipient amount w w' ok).mono weaker

structure Drifts (limit : Nat) (i j : Index) : Prop where
  later : i.timestamp.toNat ≤ j.timestamp.toNat
  near : 10 ^ 18 * |j.toInt - i.toInt| ≤
    P1FundingOracle.MAX_ABS_VALUE.toNat * limit * ((j.timestamp.toNat : Int) - i.timestamp.toNat)

theorem Drifts.refl (limit : Nat) (i : Index) : Drifts limit i i :=
  ⟨le_rfl,by rw [Int.sub_self, Int.sub_self, abs_zero, Int.mul_zero, Int.mul_zero]⟩

theorem Drifts.trans {limit : Nat} {i j k : Index} (first : Drifts limit i j) (last : Drifts limit j k) :
    Drifts limit i k where
  later := first.later.trans last.later
  near := by
    have apart : |k.toInt - i.toInt| ≤ |j.toInt - i.toInt| + |k.toInt - j.toInt| := by
      rw [add_comm]
      exact abs_sub_le _ _ _
    have one := first.near
    have two := last.near
    rw [Int.mul_sub] at one two ⊢
    omega

theorem movedBy {signedIndex out : SignedInt} {fundingPositive : Bool} {fundingValue : Uint256}
    (ok : moveIndex signedIndex fundingPositive fundingValue = .ok out) :
    |SignedMath.toInt out - SignedMath.toInt signedIndex| = fundingValue.toNat := by
  unfold moveIndex at ok
  split at ok
  · rw [SignedMath.addInt ok, add_sub_cancel_left, Nat.abs_cast]
  · rw [SignedMath.subInt ok, sub_sub_cancel_left, abs_neg, Nat.abs_cast]

section
variable {funders : Funders σ} {limit : Nat} {x : Externals σ} {msg : Msg} {w w' : World σ}

theorem blockDrifts {index : Index} (limited : funders.Limited limit x msg) (inRange : funders.InRange w.ext)
    (ok : blockIndex x msg.timestamp w = .ok index) : Drifts limit w.perpetual.globalIndex index := by
  simp only [blockIndex, currentIndex, Checked.bindOk, SafeMath.subOk, widenNat32] at ok
  obtain ⟨price,priced,timeDelta,delta,moved⟩ := ok
  split at moved
  · rename_i passed
    simp only [Checked.bindOk, Prod.exists, Checked.pureOk, SafeCast.toUint32, SafeCast.toUint128,
      SafeCast.toUintOk] at moved
    obtain ⟨isPositive,amount,asked,funding,mul,out,move,time,same,value,fits,rfl⟩ := moved
    rw [limited.funding] at asked
    have rate := fundingAtMost inRange asked
    have cheap := limited.price _ _ _ priced
    have exact := (BaseMath.baseMulBounds mul).1
    have old : SignedMath.toInt ⟨widen w.perpetual.globalIndex.value,w.perpetual.globalIndex.isPositive⟩ =
        w.perpetual.globalIndex.toInt := by
      simp [SignedMath.toInt, Index.toInt]
    have new : Index.toInt ⟨time,out.isPositive,value⟩ = SignedMath.toInt out := by
      rw [Index.toInt, SignedMath.toInt, fits]
    refine ⟨by dsimp only; omega,?_⟩
    rw [new, ← old, movedBy move]
    have elapsed : (time.toNat : Int) - w.perpetual.globalIndex.timestamp.toNat = (timeDelta.toNat : Nat) := by omega
    dsimp only
    rw [elapsed]
    have bound : 10 ^ 18 * funding.toNat ≤ P1FundingOracle.MAX_ABS_VALUE.toNat * limit * timeDelta.toNat :=
      calc 10 ^ 18 * funding.toNat = funding.toNat * 10 ^ 18 := Nat.mul_comm _ _
        _ ≤ amount.toNat * price.toNat := exact
        _ ≤ P1FundingOracle.MAX_ABS_VALUE.toNat * timeDelta.toNat * limit := Nat.mul_le_mul rate cheap
        _ = P1FundingOracle.MAX_ABS_VALUE.toNat * limit * timeDelta.toNat := Nat.mul_right_comm _ _ _
    exact_mod_cast bound
  · cases Checked.pureOk.mp moved
    exact .refl _ _

theorem indexMoved {allow : σ → σ → Prop} (honest : Honest allow x) {entry : Entry}
    (initialized : w.perpetual.initialized = true) (ok : exec x msg entry w = .ok w') :
    w'.perpetual.globalIndex = w.perpetual.globalIndex ∨
      blockIndex x msg.timestamp (w.setStatus ENTERED) = .ok w'.perpetual.globalIndex := by
  have set : entry.isSetter = true → w'.perpetual.globalIndex = w.perpetual.globalIndex := fun setter =>
    (fieldSet setter ok).books.globalIndex
  cases entry with
  | deposit | withdraw | trade => exact .inr (callTallied 0 honest rfl ok).moved
  | setGlobalOperator | setOracle | setFunder | setMinCollateral | setLocalOperator => exact .inl (set rfl)
  | withdrawFinalSettlement =>
    cases paidOut ok with
    | @early balance w₁ enabled settle debt => exact .inl (settled settle).globalIndex
    | @paid balance rest w₁ w₂ held amount value enabled settle credit floor holds least restMargin restPosition push =>
      have entered : w₁.perpetual.status = ENTERED := (settled settle).status
      have kept := (honest.pushes _ _ _ _ _ push).untouched entered
      exact .inl (kept.globalIndex.trans (settled settle).globalIndex)
  | enableFinalSettlement lower upper =>
    obtain ⟨_,gated⟩ := onlyAdminOk.mp ok
    obtain ⟨_,guarded⟩ := noFinalSettlementOk.mp gated
    obtain ⟨_,mid,body,rfl⟩ := nonReentrantOk.mp guarded
    simp only [Checked.bindOk, Checked.requireOk, exists_const, Prod.exists, Checked.pureOk] at body
    obtain ⟨context,w₁,load,_,_,rfl⟩ := body
    have index : w₁.perpetual.globalIndex = context.index := by rw [(loaded load).storage]
    exact .inr ((loadIndex load).trans (congrArg Except.ok index.symm))
  | initializeV1 token oracle funder minCollateral =>
    rw [(Perpetual.initialized ok).once] at initialized
    cases initialized

theorem anyTransaction (next : Transaction (funders.Limited limit) funders.Moves w w') :
    Transaction AnyEnvironment (fun _ _ => True) w w' := by
  cases next with
  | call x msg entry limited => exact .call w x msg entry (limited.honest.mono fun _ => trivial)
  | elsewhere ext moves => exact .elsewhere w ext trivial

structure Drifted (funders : Funders σ) (limit : Nat) (w w' : World σ) : Prop where
  drifts : Drifts limit w.perpetual.globalIndex w'.perpetual.globalIndex
  inRange : funders.InRange w'.ext
  initialized : w'.perpetual.initialized = true

theorem transactionDrifts (inRange : funders.InRange w.ext) (initialized : w.perpetual.initialized = true)
    (next : Transaction (funders.Limited limit) funders.Moves w w') : Drifted funders limit w w' := by
  have still := (transactionExplained initialized (anyTransaction next)).2
  cases next with
  | call x msg entry limited =>
    unfold perform at still ⊢
    cases result : exec x msg entry w with
    | error reason => exact ⟨.refl _ _,inRange,initialized⟩
    | ok w' =>
      have honest : Honest (fun _ _ => True) x := limited.honest.mono fun _ => trivial
      refine ⟨?_,?_,?_⟩
      · rcases indexMoved honest initialized result with same | moved
        · exact same ▸ .refl _ _
        · exact blockDrifts (w := w.setStatus ENTERED) limited inRange moved
      · exact (execMoves (limited.honest.moves .refl .trans) result).inRange inRange
      · rw [result] at still
        exact still
  | elsewhere ext moves => exact ⟨.refl _ _,moves.inRange inRange,initialized⟩

theorem runDrifts (inRange : funders.InRange w.ext) (initialized : w.perpetual.initialized = true)
    (run : Relation.ReflTransGen (Transaction (funders.Limited limit) funders.Moves) w w') :
    Drifted funders limit w w' := by
  induction run with
  | refl => exact ⟨.refl _ _,inRange,initialized⟩
  | tail _ last ih =>
    have next := transactionDrifts ih.inRange ih.initialized last
    exact ⟨ih.drifts.trans next.drifts,next.inRange,next.initialized⟩

theorem Storage.fundedAt (s : Storage) (account : Address) (G H : Int) :
    s.fundedTo account H = s.fundedTo account G - (H - G) * (s.balances account).positionInt := by
  rw [Storage.fundedTo, Storage.fundedTo, Int.sub_mul, Int.sub_mul, Int.sub_mul]
  omega

theorem fundingOwed {i j : Index} (drifts : Drifts limit i j) (position : Int) :
    |10 ^ 18 * ((j.toInt - i.toInt) * position)| ≤
      |position| * (P1FundingOracle.MAX_ABS_VALUE.toNat * limit * ((j.timestamp.toNat : Int) - i.timestamp.toNat)) :=
  calc |10 ^ 18 * ((j.toInt - i.toInt) * position)| = |position| * (10 ^ 18 * |j.toInt - i.toInt|) := by
        rw [abs_mul, abs_mul, abs_of_nonneg (by decide : (0 : Int) ≤ 10 ^ 18)]
        ring
    _ ≤ _ := Int.mul_le_mul_of_nonneg_left drifts.near (abs_nonneg position)

/-- Behind funders that only their own functions change and an oracle below the limit, no run moves the
index faster than the highest rate on the highest price. So the balance to date of an account that nobody
trades with or pays out moves, transfers and less than a unit for each settlement aside, by no more than
that on its position for the time that has passed. -/
theorem fundingIsLimited (account : Address) (inRange : funders.InRange w.ext)
    (initialized : w.perpetual.initialized = true)
    (run : Relation.ReflTransGen (Transaction (funders.Limited limit) funders.Moves) w w') :
    Drifts limit w.perpetual.globalIndex w'.perpetual.globalIndex ∧
    ∃ new, w'.logs = w.logs ++ new ∧ ((∀ l ∈ new, l.paysOut account = false) →
      (∀ l ∈ new, l.trades account = false) →
      let toDate := fun s : Storage => s.fundedTo account s.globalIndex.toInt
      let elapsed := (w'.perpetual.globalIndex.timestamp.toNat : Int) - w.perpetual.globalIndex.timestamp.toNat
      let owed := |(w.perpetual.balances account).positionInt| *
        (P1FundingOracle.MAX_ABS_VALUE.toNat * limit * elapsed)
      let change := toDate w'.perpetual - (toDate w.perpetual + 10 ^ 18 * sumOf (Log.transferOf account) new)
      10 ^ 18 * change ≤ owed ∧
        -owed ≤ 10 ^ 18 * (change + (10 ^ 18 - 1) * new.countP (Log.settles account))) := by
  have drifted := (runDrifts inRange initialized run).drifts
  refine ⟨drifted,?_⟩
  obtain ⟨new,kept⟩ := runAccounted account
    (Relation.ReflTransGen.mono (fun _ _ => anyTransaction) _ _ run)
  refine ⟨new,kept.logged,fun unpaid untraded => ?_⟩
  have value := kept.value unpaid untraded w'.perpetual.globalIndex.toInt
  have owed := fundingOwed drifted (w.perpetual.balances account).positionInt
  dsimp only at value ⊢
  rw [w.perpetual.fundedAt account w.perpetual.globalIndex.toInt] at value
  rw [abs_le] at owed
  omega

end

def highest : Funders (Address → Nat) where
  state _ _ := ⟨3,⟨100,true,P1FundingOracle.MAX_ABS_VALUE⟩,6,[]⟩
  isInverse _ := false

def behindFunder : Externals (Address → Nat) :=
  { sample with getFunding := fun funder timeDelta w => highest.getFunding funder timeDelta w.ext }

def afterFunding : World (Address → Nat) := perform behindFunder ⟨1,135⟩ (.deposit 2 5) beforeRaise

theorem highestLimited : let toDate := fun s : Storage => s.fundedTo 2 s.globalIndex.toInt
    let change := toDate afterFunding.perpetual - (toDate beforeRaise.perpetual + 10 ^ 18 * 5)
    10 ^ 18 * change ≤ 260416666666 * (6 * 10 ^ 18) * 5 ∧
      -(260416666666 * (6 * 10 ^ 18) * 5) ≤ 10 ^ 18 * (change + (10 ^ 18 - 1)) := by
  have plain : Honest (fun _ _ => True) sample := plainHonest 7 _ _
  have behind : Honest (fun _ _ => True) behindFunder := ⟨plain.traders,plain.pulls,plain.pushes⟩
  have honest : Honest highest.Moves behindFunder := behind.mono fun _ _ => ⟨[],.none⟩
  have limited : highest.Limited (6 * 10 ^ 18) behindFunder ⟨1,135⟩ := by
    refine ⟨honest,fun _ _ _ => rfl,fun oracle w price ok => ?_⟩
    cases Except.ok.inj ok
    decide
  have run : Relation.ReflTransGen (Transaction (highest.Limited (6 * 10 ^ 18)) highest.Moves)
      beforeRaise afterFunding :=
    .single (.call beforeRaise behindFunder ⟨1,135⟩ (.deposit 2 5) limited)
  have inRange : highest.InRange beforeRaise.ext := fun _ => by
    change |(260416666666 : Int)| ≤ 260416666666
    decide
  obtain ⟨_,new,logged,told⟩ := fundingIsLimited 2 inRange (by decide +kernel) run
  obtain rfl : afterFunding.logs.drop beforeRaise.logs.length = new := by rw [logged, List.drop_left]
  have value := told (by decide +kernel) (by decide +kernel)
  have five : sumOf (Log.transferOf 2) (afterFunding.logs.drop beforeRaise.logs.length) = 5 := by decide +kernel
  have once : (afterFunding.logs.drop beforeRaise.logs.length).countP (Log.settles 2) = 1 := by decide +kernel
  have elapsed : (afterFunding.perpetual.globalIndex.timestamp.toNat : Int) -
      beforeRaise.perpetual.globalIndex.timestamp.toNat = 5 := by decide +kernel
  have short : (beforeRaise.perpetual.balances 2).positionInt = -1 := by decide +kernel
  rw [five, once, elapsed, short] at value
  exact ⟨value.1,value.2⟩

end Perpetual
