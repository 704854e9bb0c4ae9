import Perpetual.TypedSignature
import Perpetual.Solvency

/-! `P1LiquidatorProxy`: liquidations on behalf of an account, a part of whose profit goes to
the insurance fund. -/
namespace Perpetual

inductive LiquidatorProxyLog where
  | liquidatorProxyUsed (liquidatee liquidator : Address) (isBuy : Bool)
      (liquidationAmount feeAmount : Uint256)
  | insuranceFundSet (insuranceFund : Address)
  | insuranceFeeSet (insuranceFee : Uint256)
  deriving DecidableEq, Repr

structure LiquidatorProxyContract where
  owner : Address
  perpetualV1 : Address
  liquidation : Address
  insuranceFund : Address
  insuranceFee : Uint256
  logs : List LiquidatorProxyLog
  deriving DecidableEq, Repr

structure LiquidatorHost (ρ : Type) where
  contract : LiquidatorProxyContract
  rest : ρ

namespace P1LiquidatorProxy
variable {ρ : Type}

def constructor (msg : Msg) (perpetualV1 liquidator insuranceFund : Address) (insuranceFee : Uint256) :
    LiquidatorProxyContract where
  owner := msg.sender
  perpetualV1 := perpetualV1
  liquidation := liquidator
  insuranceFund := insuranceFund
  insuranceFee := insuranceFee
  logs := [.insuranceFundSet insuranceFund,.insuranceFeeSet insuranceFee]

def setInsuranceFund (msg : Msg) (insuranceFund : Address) (s : LiquidatorProxyContract) :
    Checked LiquidatorProxyContract := do
  Checked.require (msg.sender = s.owner) "Ownable: caller is not the owner"
  return { s with insuranceFund := insuranceFund, logs := s.logs ++ [.insuranceFundSet insuranceFund] }

def setInsuranceFee (msg : Msg) (insuranceFee : Uint256) (s : LiquidatorProxyContract) :
    Checked LiquidatorProxyContract := do
  Checked.require (msg.sender = s.owner) "Ownable: caller is not the owner"
  Checked.require (insuranceFee.toNat ≤ (← SafeMath.div BaseMath.base 2).toNat)
    "insuranceFee cannot be greater than 50%"
  return { s with insuranceFee := insuranceFee, logs := s.logs ++ [.insuranceFeeSet insuranceFee] }

def getMaxPositionDelta (initialBalance : Balance) (isBuy : Bool) (maxPosition : SignedInt) :
    Checked SignedInt := do
  let result ← SignedMath.signedSub maxPosition initialBalance.getPosition
  Checked.require (result.isPositive = isBuy ∧ 0 < result.value.toNat)
    "Cannot liquidate if it would put liquidator past the specified maxPosition"
  return result

def liquidationArgs (liquidation liquidatee liquidator : Address) (maxPositionDelta : SignedInt) :
    List Address × TradeArg :=
  let takerFirst : Bool := decide (liquidator.toNat < liquidatee.toNat)
  let data := Abi.word maxPositionDelta.value ++
    Abi.word (if maxPositionDelta.isPositive then 1 else 0) ++ Abi.word 0
  if takerFirst then ([liquidator,liquidatee],⟨0,1,liquidation,data⟩)
  else ([liquidatee,liquidator],⟨1,0,liquidation,data⟩)

def getOraclePrice (x : Externals (LiquidatorHost ρ)) (msg : Msg) (w : World (LiquidatorHost ρ)) :
    Checked Uint256 := do
  Checked.require (w.perpetual.globalOperators msg.sender = true)
    "Oracle price requester not global operator"
  x.getPrice w.perpetual.oracle w

def getLiquidatedAndFeeAmount (x : Externals (LiquidatorHost ρ)) (self : Msg)
    (initialBalance currentBalance : Balance) (w : World (LiquidatorHost ρ)) :
    Checked (Uint256 × Uint256) := do
  let deltaPosition ← SignedMath.signedSub currentBalance.getPosition initialBalance.getPosition
  let deltaMargin ← SignedMath.signedSub currentBalance.getMargin initialBalance.getMargin
  let deltaBalance ← Balance.zero.setPosition deltaPosition
  let deltaBalance ← deltaBalance.setMargin deltaMargin
  let price ← getOraclePrice x self w
  let (posValue,negValue) ← deltaBalance.getPositiveAndNegativeValue price
  if negValue.toNat < posValue.toNat then
    let profit ← SafeMath.sub posValue negValue
    let feeAmount ← SafeMath.div (← BaseMath.baseMul profit w.ext.contract.insuranceFee) BaseMath.base
    return (deltaPosition.value,feeAmount)
  else
    return (deltaPosition.value,0)

def transferFee (x : Externals (LiquidatorHost ρ)) (self : Msg) (liquidator : Address) (feeAmount : Uint256)
    (w : World (LiquidatorHost ρ)) : Checked (World (LiquidatorHost ρ)) := do
  if 0 < feeAmount.toNat then
    let w ← exec x self (.withdraw liquidator self.sender feeAmount) w
    exec x self (.deposit w.ext.contract.insuranceFund feeAmount) w
  else
    return w

/-- `this` is the proxy. The contract at its `_PERPETUAL_V1_` is the one of the world. -/
def liquidate (x : Externals (LiquidatorHost ρ)) (this : Address) (msg : Msg)
    (liquidatee liquidator : Address) (isBuy : Bool) (maxPosition : SignedInt)
    (w : World (LiquidatorHost ρ)) : Checked (Uint256 × World (LiquidatorHost ρ)) := do
  let self : Msg := ⟨this,msg.timestamp⟩
  Checked.require (liquidator = msg.sender ∨ hasAccountPermissions w.perpetual liquidator msg.sender = true)
    "msg.sender cannot operate the liquidator account"
  let w ← exec x self (.deposit liquidator 0) w
  let initialBalance := w.perpetual.balances liquidator
  let maxPositionDelta ← getMaxPositionDelta initialBalance isBuy maxPosition
  let (accounts,tradeArg) :=
    liquidationArgs w.ext.contract.liquidation liquidatee liquidator maxPositionDelta
  let w ← exec x self (.trade accounts [tradeArg]) w
  let currentBalance := w.perpetual.balances liquidator
  let (liqAmount,feeAmount) ← getLiquidatedAndFeeAmount x self initialBalance currentBalance w
  let w ← transferFee x self liquidator feeAmount w
  let contract := { w.ext.contract with
    logs := w.ext.contract.logs ++ [.liquidatorProxyUsed liquidatee liquidator isBuy liqAmount feeAmount] }
  return (liqAmount,{ w with ext := { w.ext with contract := contract } })

/-! What each of these did. -/

def MAX_INSURANCE_FEE : Nat := 5 * 10 ^ 17

theorem feeSet {msg : Msg} {insuranceFee : Uint256} {s s' : LiquidatorProxyContract}
    (ok : setInsuranceFee msg insuranceFee s = .ok s') : s'.insuranceFee.toNat ≤ MAX_INSURANCE_FEE := by
  simp only [setInsuranceFee, Checked.bindOk, Checked.requireOk, SafeMath.divOk, exists_const,
    Checked.pureOk] at ok
  obtain ⟨_,half,⟨_,exact⟩,within,rfl⟩ := ok
  have base : BaseMath.base.toNat = 10 ^ 18 := BaseMath.baseNat
  have two : (2 : Uint256).toNat = 2 := rfl
  rw [base, two] at exact
  dsimp only
  unfold MAX_INSURANCE_FEE
  omega

theorem fundSet {msg : Msg} {insuranceFund : Address} {s s' : LiquidatorProxyContract}
    (ok : setInsuranceFund msg insuranceFund s = .ok s') : s'.insuranceFee = s.insuranceFee := by
  simp only [setInsuranceFund, Checked.bindOk, Checked.requireOk, exists_const, Checked.pureOk] at ok
  obtain ⟨_,rfl⟩ := ok
  rfl

def feeOf (profit : Int) (insuranceFee : Nat) : Int :=
  if 0 < profit then profit * insuranceFee / 10 ^ 36 else 0

theorem chargedExactly {x : Externals (LiquidatorHost ρ)} {self : Msg} {initial current : Balance}
    {w : World (LiquidatorHost ρ)} {liqAmount feeAmount : Uint256}
    (ok : getLiquidatedAndFeeAmount x self initial current w = .ok (liqAmount,feeAmount)) :
    liqAmount.toNat = (current.positionInt - initial.positionInt).natAbs ∧
    ∃ price, x.getPrice w.perpetual.oracle w = .ok price ∧ (feeAmount.toNat : Int) =
      feeOf (current.netValue price.toNat - initial.netValue price.toNat) w.ext.contract.insuranceFee.toNat := by
  simp only [getLiquidatedAndFeeAmount, getOraclePrice, Checked.bindOk, Checked.requireOk, exists_const,
    Prod.exists] at ok
  obtain ⟨position,hp,margin,hm,half,setPosition,delta,setMargin,price,⟨_,quote⟩,pos,neg,values,last⟩ := ok
  have amount : position.value.toNat = (current.positionInt - initial.positionInt).natAbs := by
    have exact := SignedMath.signedSubInt hp
    rw [Balance.getPositionInt, Balance.getPositionInt] at exact
    rw [← exact, SignedMath.toInt, Signed.natAbs]
  have movedPosition := Balance.setPositionMoved setPosition
  have movedMargin := Balance.setMarginMoved setMargin
  have positionInt : delta.positionInt = current.positionInt - initial.positionInt := by
    rw [movedMargin.positionInt, movedPosition.position, SignedMath.signedSubInt hp]
    simp
  have marginInt : delta.marginInt = current.marginInt - initial.marginInt := by
    rw [movedMargin.margin, SignedMath.signedSubInt hm]
    simp
  have net : (pos.toNat : Int) - neg.toNat = current.netValue price.toNat - initial.netValue price.toNat := by
    obtain ⟨exactPos,exactNeg⟩ := Balance.valuesExact values
    rw [exactPos, exactNeg, delta.netOfValues, Balance.netValue, marginInt, positionInt, Balance.netValue,
      Balance.netValue]
    ring
  split at last
  · rename_i gained
    simp only [Checked.bindOk, SafeMath.subOk, SafeMath.divOk, Checked.pureOk, Prod.mk.injEq] at last
    obtain ⟨profit,hs,share,hb,fee,⟨_,hf⟩,rfl,rfl⟩ := last
    refine ⟨amount,price,quote,?_⟩
    have profitInt : (pos.toNat : Int) - neg.toNat = profit.toNat := by omega
    have base : BaseMath.base.toNat = 10 ^ 18 := BaseMath.baseNat
    rw [base, BaseMath.baseMulNat hb, Nat.div_div_eq_div_mul, ← Nat.pow_add] at hf
    rw [← net, feeOf, if_pos (by omega), profitInt, hf]
    push_cast
    rfl
  · rename_i none'
    obtain ⟨rfl,rfl⟩ := Prod.mk.inj (Checked.pureOk.mp last)
    refine ⟨amount,price,quote,?_⟩
    rw [← net, feeOf, if_neg (by omega)]
    rfl

theorem feeCharged {x : Externals (LiquidatorHost ρ)} {self : Msg} {initial current : Balance}
    {w : World (LiquidatorHost ρ)} {liqAmount feeAmount : Uint256}
    (bounded : w.ext.contract.insuranceFee.toNat ≤ MAX_INSURANCE_FEE)
    (ok : getLiquidatedAndFeeAmount x self initial current w = .ok (liqAmount,feeAmount)) :
    ∃ price, x.getPrice w.perpetual.oracle w = .ok price ∧ (feeAmount = 0 ∨
      2 * 10 ^ 18 * (feeAmount.toNat : Int) ≤ current.netValue price.toNat - initial.netValue price.toNat) := by
  obtain ⟨_,price,quote,fee⟩ := chargedExactly ok
  refine ⟨price,quote,?_⟩
  unfold feeOf at fee
  split at fee
  · rename_i gained
    right
    generalize current.netValue price.toNat - initial.netValue price.toNat = profit at fee gained ⊢
    have floor := Int.ediv_mul_le (profit * w.ext.contract.insuranceFee.toNat) (show (10 ^ 36 : Int) ≠ 0 by decide)
    rw [← fee] at floor
    have most : profit * w.ext.contract.insuranceFee.toNat ≤ profit * MAX_INSURANCE_FEE :=
      Int.mul_le_mul_of_nonneg_left (by exact_mod_cast bounded) gained.le
    rw [MAX_INSURANCE_FEE] at most
    omega
  · exact .inl (BitVec.eq_of_toNat_eq (by exact_mod_cast fee))

end P1LiquidatorProxy
end Perpetual
