import Perpetual.BlockMoves
import Perpetual.SafetyBounds
import Perpetual.Takeover
import Perpetual.TradeDataBytes

/-! A liquidation through P1LiquidatorProxy, from the settlement of the liquidator to the fee:
what it moves between the three accounts, and the limit it stays within. -/
namespace Perpetual
open Relation P1LiquidatorProxy

structure LiquidationHost (ρ : Type) where
  contract : LiquidationContract
  rest : ρ

variable {ρ : Type}

def callLiquidation (msg : Msg) (call : TraderCall) (w : World (LiquidatorHost (LiquidationHost ρ))) :
    Checked (TradeResult × World (LiquidatorHost (LiquidationHost ρ))) := do
  let (result,contract) ← P1Liquidation.trade msg w.perpetual call w.ext.rest.contract
  return (result,{ w with ext := { w.ext with rest := { w.ext.rest with contract := contract } } })

/-- PerpetualV1 reaches P1Liquidation at its address. Other code calls what it likes, and may be
the owner who changes the settings of the proxy. -/
structure LiquidationEnvironment (perpetualV1 liquidation : Address)
    (x : Externals (LiquidatorHost (LiquidationHost ρ))) (msg : Msg) : Prop where
  liquidations : ∀ call w, x.trade liquidation call w = callLiquidation ⟨perpetualV1,msg.timestamp⟩ call w
  honest : Honest ConfiguresProxy x

namespace P1Liquidation

theorem resultSide {msg : Msg} {perpetual : Storage} {call : TraderCall} {s s' : LiquidationContract}
    {data : TradeData} {result : TradeResult} (decoded : decodeTradeData call.data = .ok data)
    (ok : trade msg perpetual call s = .ok (result,s')) : result.isBuy = data.isBuy := by
  simp only [trade, Checked.bindOk, Checked.requireOk, exists_const, Checked.pureOk, Prod.mk.injEq] at ok
  obtain ⟨_,_,data',same,_,_,_,_,rfl,_⟩ := ok
  obtain rfl := Except.ok.inj (decoded.symm.trans same)
  rfl

theorem decodeEncode (amount : Uint256) (isBuy allOrNothing : Bool) :
    decodeTradeData (Abi.word amount ++ Abi.word (if isBuy then 1 else 0) ++
      Abi.word (if allOrNothing then 1 else 0)) = .ok ⟨amount,isBuy,allOrNothing⟩ := by
  have words : Abi.word amount ++ Abi.word (if isBuy then 1 else 0) ++ Abi.word (if allOrNothing then 1 else 0) =
      [amount,if isBuy then 1 else 0,if allOrNothing then 1 else 0].flatMap Abi.word := by
    simp only [List.flatMap_cons, List.flatMap_nil, List.append_nil, List.append_assoc]
  rw [words]
  simp only [decodeTradeData, P1Deleveraging.decodeTradeData, Checked.bindOk, Checked.requireOk, exists_const,
    Checked.pureOk]
  refine ⟨?_,isBuy,?_,allOrNothing,?_,?_⟩
  · rw [Abi.wordsLength]
    rfl
  · exact TradeData.boolDecoded (Abi.wordAtWords rfl)
  · exact TradeData.boolDecoded (Abi.wordAtWords rfl)
  · rw [Abi.wordAtWords rfl]

end P1Liquidation

namespace P1LiquidatorProxy
variable {x : Externals (LiquidatorHost (LiquidationHost ρ))} {msg : Msg}
  {w w' : World (LiquidatorHost (LiquidationHost ρ))}

theorem configuredLiquidation {s s' : LiquidatorProxyContract} (steps : ReflTransGen Configured s s') :
    s'.liquidation = s.liquidation := by
  induction steps with
  | refl => rfl
  | tail before step ih =>
    cases step with
    | fund msg insuranceFund ok =>
      simp only [setInsuranceFund, Checked.bindOk, Checked.requireOk, exists_const, Checked.pureOk] at ok
      obtain ⟨_,rfl⟩ := ok
      exact ih
    | fee msg insuranceFee ok =>
      simp only [setInsuranceFee, Checked.bindOk, Checked.requireOk, exists_const, Checked.pureOk] at ok
      obtain ⟨_,_,_,_,rfl⟩ := ok
      exact ih
    | owner newOwner => exact ih

structure PositionLimit (initial : Balance) (isBuy : Bool) (maxPosition result : SignedInt) : Prop where
  side : result.isPositive = isBuy
  some' : 0 < result.value.toNat
  exact : SignedMath.toInt maxPosition = initial.positionInt + signed isBuy result.value.toNat

theorem positionLimit {initial : Balance} {isBuy : Bool} {maxPosition result : SignedInt}
    (ok : getMaxPositionDelta initial isBuy maxPosition = .ok result) :
    PositionLimit initial isBuy maxPosition result := by
  simp only [getMaxPositionDelta, Checked.bindOk, Checked.requireOk, exists_const, Checked.pureOk] at ok
  obtain ⟨delta,difference,⟨side,some'⟩,rfl⟩ := ok
  have exact := SignedMath.signedSubInt difference
  rw [Balance.getPositionInt, SignedMath.toInt.eq_1 delta, side] at exact
  exact ⟨side,some',by omega⟩

structure ArgsFor (liquidation liquidatee liquidator : Address) (delta : SignedInt) (accounts : List Address)
    (tradeArg : TradeArg) : Prop where
  trader : tradeArg.trader = liquidation
  decoded : P1Liquidation.decodeTradeData tradeArg.data = .ok ⟨delta.value,delta.isPositive,false⟩
  atMaker : accounts[tradeArg.makerIndex.toNat]? = some liquidatee
  atTaker : accounts[tradeArg.takerIndex.toNat]? = some liquidator
  pair : ∀ a ∈ accounts, a = liquidatee ∨ a = liquidator
  different : accounts.Nodup → liquidatee ≠ liquidator

theorem argsFor (liquidation liquidatee liquidator : Address) (delta : SignedInt) :
    ArgsFor liquidation liquidatee liquidator delta
      (liquidationArgs liquidation liquidatee liquidator delta).1
      (liquidationArgs liquidation liquidatee liquidator delta).2 := by
  have decoded := P1Liquidation.decodeEncode delta.value delta.isPositive false
  by_cases first : liquidator.toNat < liquidatee.toNat
  · have args : liquidationArgs liquidation liquidatee liquidator delta = ([liquidator,liquidatee],
        ⟨0,1,liquidation,Abi.word delta.value ++ Abi.word (if delta.isPositive then 1 else 0) ++ Abi.word 0⟩) := by
      simp only [liquidationArgs, first, decide_true, if_true]
    rw [args]
    exact ⟨rfl,decoded,rfl,rfl,by simp,fun unique same => by simp [same] at unique⟩
  · have args : liquidationArgs liquidation liquidatee liquidator delta = ([liquidatee,liquidator],
        ⟨1,0,liquidation,Abi.word delta.value ++ Abi.word (if delta.isPositive then 1 else 0) ++ Abi.word 0⟩) := by
      simp only [liquidationArgs, first, decide_false, Bool.false_eq_true, if_false]
    rw [args]
    exact ⟨rfl,decoded,rfl,rfl,by simp,fun unique same => by simp [same] at unique⟩

theorem execConfigures (honest : Honest ConfiguresProxy x) {entry : Entry} (ok : exec x msg entry w = .ok w') :
    ReflTransGen Configured w.ext.contract w'.ext.contract :=
  execMoves (honest.moves (fun _ => .refl) ReflTransGen.trans) ok

theorem transferMoves (honest : Honest ConfiguresProxy x) (current : Current msg w.perpetual)
    {liquidator : Address} {feeAmount : Uint256} (ok : transferFee x msg liquidator feeAmount w = .ok w') :
    ∃ settings, ReflTransGen Configured w.ext.contract settings ∧
      BlockMoves msg w.perpetual w'.perpetual
        (fun a => (if a = liquidator then -(feeAmount.toNat : Int) else 0) +
          if a = settings.insuranceFund then (feeAmount.toNat : Int) else 0) (fun _ => 0) := by
  unfold transferFee at ok
  split at ok
  · obtain ⟨mid,withdrawal,deposit⟩ := Checked.bindOk.mp ok
    refine ⟨mid.ext.contract,execConfigures honest withdrawal,?_⟩
    exact (withdrawMoves honest withdrawal).trans (depositMoves honest deposit).1
  · rename_i nothing
    obtain rfl := Checked.pureOk.mp ok
    have zero : (feeAmount.toNat : Int) = 0 := by omega
    refine ⟨w.ext.contract,.refl,(BlockMoves.refl current).congr (fun a => ?_) fun _ => rfl⟩
    simp only [zero, neg_zero, ite_self, Int.add_zero]

structure Taken (msg : Msg) (s t : Storage) (liquidatee liquidator : Address) (isBuy : Bool)
    (delta : SignedInt) (amount : Nat) (margin : Int) : Prop where
  some' : 0 < amount
  bounded : amount ≤ delta.value.toNat
  gained : (s.localIndexes liquidator).timestamp = s.globalIndex.timestamp →
    (t.balances liquidator).marginInt = (s.balances liquidator).marginInt + margin
  moved : BlockMoves msg s t
    (fun a => if a = liquidatee then -margin else if a = liquidator then margin else 0)
    (fun a => if a = liquidatee then -signed isBuy amount
      else if a = liquidator then signed isBuy amount else 0)

theorem taken {perpetualV1 this liquidation liquidatee liquidator : Address}
    (environment : LiquidationEnvironment perpetualV1 liquidation x msg) {delta : SignedInt} {isBuy : Bool}
    (side : delta.isPositive = isBuy) (some' : 0 < delta.value.toNat)
    (current : Current ⟨this,msg.timestamp⟩ w.perpetual)
    {accounts : List Address} {tradeArg : TradeArg}
    (args : ArgsFor liquidation liquidatee liquidator delta accounts tradeArg)
    (ok : exec x ⟨this,msg.timestamp⟩ (.trade accounts [tradeArg]) w = .ok w') : liquidatee ≠ liquidator ∧
    ∃ amount margin, Taken ⟨this,msg.timestamp⟩ w.perpetual w'.perpetual liquidatee liquidator isBuy delta
      amount margin := by
  have different : liquidatee ≠ liquidator := by
    cases batchTraded ok with
    | done live unique load settle start ran verified => exact args.different unique
  obtain ⟨context,s,mid,result,called,applied,moves⟩ :=
    tradeMoves environment.honest args.atMaker args.atTaker different args.pair ok
  rw [args.trader, environment.liquidations] at called
  simp only [callLiquidation, Checked.bindOk, Prod.exists, Checked.pureOk, Prod.mk.injEq] at called
  obtain ⟨result,_,trade,rfl,_⟩ := called
  have isBuyOf := P1Liquidation.resultSide args.decoded trade
  obtain ⟨data,liquidated⟩ := P1Liquidation.liquidated trade
  obtain rfl := Except.ok.inj (args.decoded.symm.trans liquidated.decoded)
  obtain ⟨held,_⟩ := liquidated.takeover.rounded
  have amount := liquidated.amount
  dsimp only at isBuyOf amount held
  rw [isBuyOf, side] at moves
  refine ⟨different,result.positionAmount.toNat,-signed isBuy result.marginAmount.toNat,?_,?_,fun timed => ?_,?_⟩
  · rw [amount]
    exact Nat.lt_min.mpr ⟨some',held⟩
  · rw [amount]
    exact Nat.min_le_left _ _
  · have index := moves.index current
    have gained := (moves.moved liquidator).margin (timed.trans (by rw [index]))
    rwa [if_neg different.symm, if_pos rfl] at gained
  · exact (moves.congr (fun a => by rw [neg_neg]) fun _ => rfl)

structure WithinLimit (msg : Msg) (s t : Storage) (liquidatee liquidator insuranceFund : Address) (isBuy : Bool)
    (maxPosition : SignedInt) (liqAmount : Uint256) (price insuranceFee : Nat) : Prop where
  limit : if isBuy
    then (s.balances liquidator).positionInt < (t.balances liquidator).positionInt ∧
      (t.balances liquidator).positionInt ≤ SignedMath.toInt maxPosition
    else SignedMath.toInt maxPosition ≤ (t.balances liquidator).positionInt ∧
      (t.balances liquidator).positionInt < (s.balances liquidator).positionInt
  ofLiquidator : liqAmount.toNat =
    ((t.balances liquidator).positionInt - (s.balances liquidator).positionInt).natAbs
  ofLiquidatee : liqAmount.toNat =
    ((t.balances liquidatee).positionInt - (s.balances liquidatee).positionInt).natAbs
  moved : ∃ deltaMargin : Int,
    let deltaPosition := (t.balances liquidator).positionInt - (s.balances liquidator).positionInt
    let fee := feeOf (10 ^ 18 * deltaMargin + price * deltaPosition) insuranceFee
    BlockMoves msg s t
      (fun a => (if a = liquidatee then -deltaMargin else if a = liquidator then deltaMargin else 0) +
        ((if a = liquidator then -fee else 0) + if a = insuranceFund then fee else 0))
      (fun a => if a = liquidatee then -deltaPosition else if a = liquidator then deltaPosition else 0)

def liquidationSample (price : Uint256) : Externals (LiquidatorHost (LiquidationHost Unit)) where
  getPrice := fun _ _ => .ok (price * BaseMath.BASE)
  getFunding := fun _ _ _ => .ok (true,0)
  balanceOf := fun _ _ => .ok 0
  transferFrom := fun _ _ _ w => .ok w
  transfer := fun _ _ _ w => .ok w
  trade := fun trader call w => if trader = 9 then callLiquidation ⟨7,100⟩ call w else .error "no trader"

theorem liquidationSampleEnvironment (price : Uint256) (sender : Address) :
    LiquidationEnvironment 7 9 (liquidationSample price) ⟨sender,100⟩ where
  liquidations := fun _ _ => rfl
  honest :=
    { traders := by
        intro trader call w₁ r w₂ ok
        simp only [liquidationSample, callLiquidation] at ok
        split at ok
        · simp only [Checked.bindOk, Prod.exists, Checked.pureOk, Prod.mk.injEq] at ok
          obtain ⟨_,_,_,_,rfl⟩ := ok
          exact .own w₁ _ .refl
        · cases ok
      pulls := fun _ _ _ _ _ ok => .ofSame ok
      pushes := fun _ _ _ _ _ ok => .ofSame ok }

def sampleShort : World (LiquidatorHost (LiquidationHost Unit)) where
  perpetual := { Storage.deployed 3 with
    initialized := true
    balances := Function.update (fun _ => ⟨true,true,1000,7⟩) 1 ⟨true,false,150,7⟩
    globalOperators := fun _ => true
    minCollateral := 11 * 10 ^ 17 }
  logs := []
  ext := ⟨constructor ⟨4,1⟩ 7 9 5 (5 * 10 ^ 17),P1Liquidation.constructor 7,()⟩

def sampleTakeover : Checked (Uint256 × World (LiquidatorHost (LiquidationHost Unit))) :=
  liquidate (liquidationSample 20) 6 ⟨2,100⟩ 1 2 false ⟨3,true⟩ sampleShort

example : sampleTakeover.map (fun out => (out.1,[1,2,5].map out.2.perpetual.balances)) =
    .ok (4,[⟨true,false,65,3⟩,⟨true,true,1083,3⟩,⟨true,true,1002,7⟩]) := by decide +kernel

end P1LiquidatorProxy
end Perpetual
