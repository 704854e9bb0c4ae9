import Perpetual.OrderRuns
import Perpetual.SoloBridge

/-! Whose consent an order or a bridge transfer carries. `ecrecover` fails with the zero
address, and the callers compare its answer with an address of their caller's choice. -/
namespace Perpetual
open Orders TypedSignature

def Authorised (crypto : Crypto) (s : OrdersContract) (calls : List OrderCall) (d : TradeData) : Prop :=
  .approve d.order.maker d.order ∈ calls ∨
    ValidBy crypto (getOrderHash crypto s.eip712DomainHash d.order) d.signature d.order.maker

/-- For every fill, from a state with this history: the maker has authorised it exactly when the
maker is not the zero address, or the order stands approved. -/
def FillsAuthorised (code : Code) (crypto : Crypto) (calls : List OrderCall) (s : OrdersContract) : Prop :=
  ∀ (inPlay : Set Order), Set.InjOn (getOrderHash crypto s.eip712DomainHash) inPlay →
    (∀ c ∈ calls, c.order ∈ inPlay) → ∀ msg perpetual call d result s', d.order ∈ inPlay →
    decodeTradeData call.data = .ok d → code.trade crypto msg perpetual call s = .ok (result,s') →
    (Authorised crypto s calls d ↔ d.order.maker ≠ 0 ∨
      s.status (getOrderHash crypto s.eip712DomainHash d.order) = .Approved)

theorem fillsAuthorised {code : Code} {crypto : Crypto} {start s : OrdersContract}
    {calls : List OrderCall} (steps : Steps code crypto start calls s)
    (fresh : ∀ h, start.status h = .Open) : FillsAuthorised code crypto calls s := by
  intro inPlay injective listed msg perpetual call d result s' mem decoded ok
  have permitted := (filled decoded ok).permitted
  have domain := stepsDomain steps
  constructor
  · rintro (approval | ⟨_,nonzero⟩)
    · have notOpen := stepsApproved steps approval
      rw [← domain] at notOpen
      rcases permitted with approved | ⟨stillOpen,_⟩
      · exact .inr approved
      · exact absurd stillOpen notOpen
    · exact .inl nonzero
  · intro condition
    rcases permitted with approved | ⟨stillOpen,recovered⟩
    · obtain ⟨o,same,approval⟩ := stepsApproval steps fresh approved
      rw [← domain] at same
      obtain rfl := injective (listed _ approval) mem same
      exact .inl approval
    · rcases condition with nonzero | approved
      · exact .inr ⟨recovered,nonzero⟩
      · rw [stillOpen] at approved
        cases approved

namespace P1SoloBridgeProxy
variable {σ : Type}

theorem transferRecovered {crypto : Crypto} {x : BridgeExternals σ} {this : Address} {msg : Msg}
    {t : Transfer} {signature : Signature} {w w' : BridgeWorld σ} {mode : TransferMode} {out : Uint256}
    (hasMode : getTransferMode t = .ok mode)
    (stranger : isValidOperator x msg w.bridge.soloMargin t (isToPerpetual mode) (setStatus w ENTERED) =
      .ok false)
    (ok : bridgeTransfer crypto x this msg t signature w = .ok (out,w')) :
    recover crypto (getTransferHash crypto w.bridge.eip712DomainHash t) signature = .ok t.account := by
  simp only [bridgeTransfer, Checked.bindOk, Checked.requireOk, exists_const, Prod.exists] at ok
  obtain ⟨_,token,_,mode',sameMode,_,_,valid,operator,w₁,permission,_⟩ := ok
  rw [hasMode] at sameMode
  obtain rfl := Except.ok.inj sameMode
  obtain rfl := Except.ok.inj (stranger.symm.trans operator)
  simp only [verifyPermission, Bool.false_eq_true, if_false, Checked.bindOk, verifySignature,
    Checked.requireOk, exists_const] at permission
  obtain ⟨⟨_,_,signer,recovered,rfl⟩,_⟩ := permission
  exact recovered

end P1SoloBridgeProxy

/-- In every state reached, an order or a transfer that executes carries its owner's consent
exactly when the owner is not the zero address, or the order was approved on chain. -/
theorem authorisedUnlessZeroOwner {σ : Type} (crypto : Crypto) :
    (∀ perpetualV1 chainId this calls s,
      Steps P1Orders.code crypto (constructor crypto P1Orders.EIP712_DOMAIN_NAME perpetualV1 chainId this)
        calls s → FillsAuthorised P1Orders.code crypto calls s) ∧
    (∀ perpetualV1 chainId this calls s,
      Steps P1InverseOrders.code crypto
        (constructor crypto P1InverseOrders.EIP712_DOMAIN_NAME perpetualV1 chainId this) calls s →
      FillsAuthorised P1InverseOrders.code crypto calls s) ∧
    (∀ (x : BridgeExternals σ) this msg t signature (w w' : BridgeWorld σ) mode out,
      P1SoloBridgeProxy.getTransferMode t = .ok mode →
      P1SoloBridgeProxy.isValidOperator x msg w.bridge.soloMargin t (P1SoloBridgeProxy.isToPerpetual mode)
        (P1SoloBridgeProxy.setStatus w ENTERED) = .ok false →
      P1SoloBridgeProxy.bridgeTransfer crypto x this msg t signature w = .ok (out,w') →
      (ValidBy crypto (P1SoloBridgeProxy.getTransferHash crypto w.bridge.eip712DomainHash t) signature
        t.account ↔ t.account ≠ 0)) := by
  refine ⟨?_,?_,?_⟩
  · exact fun _ _ _ _ _ steps => fillsAuthorised steps fun _ => rfl
  · exact fun _ _ _ _ _ steps => fillsAuthorised steps fun _ => rfl
  · intro x this msg t signature w w' mode out hasMode stranger ok
    have recovered := P1SoloBridgeProxy.transferRecovered hasMode stranger ok
    exact ⟨fun valid => valid.2,fun nonzero => ⟨recovered,nonzero⟩⟩

def ordersSampleContract : OrdersContract :=
  constructor Crypto.sample P1Orders.EIP712_DOMAIN_NAME 7 1 9

def strayData : TradeData :=
  ⟨{ sampleOrder with maker := 0 },⟨4,5 * BaseMath.BASE,0,false⟩,⟨0,0,0⟩⟩

theorem zeroMakerFillsUnauthorised :
    (∃ out, P1Orders.trade Crypto.sample ⟨7,100⟩ sampleDeployment.perpetual
      ⟨2,0,2,BaseMath.BASE,encodeTradeData strayData,0⟩ ordersSampleContract = .ok out) ∧
    decodeTradeData (encodeTradeData strayData) = .ok strayData ∧
    recover Crypto.sample (getOrderHash Crypto.sample ordersSampleContract.eip712DomainHash strayData.order)
      strayData.signature = .ok 0 ∧
    ¬ Authorised Crypto.sample ordersSampleContract [] strayData := by
  refine ⟨Checked.okExists (by decide +kernel),by decide +kernel,by decide +kernel,?_⟩
  rintro (approval | ⟨_,nonzero⟩)
  · cases approval
  · exact nonzero rfl

def signedData : TradeData := ⟨sampleOrder,⟨4,5 * BaseMath.BASE,0,false⟩,⟨1,0,0⟩⟩

def approvedContract : OrdersContract :=
  (performApproveOrder Crypto.sample ⟨1,90⟩ sampleOrder sampleDeployment).ext.contract

theorem sampleOwnersAuthorised :
    Authorised Crypto.sample approvedContract [.approve 1 sampleOrder]
      { signedData with signature := ⟨0,0,0⟩ } ∧
    Authorised Crypto.sample (constructor Crypto.sample P1InverseOrders.EIP712_DOMAIN_NAME 7 1 10) []
      signedData ∧
    ValidBy Crypto.sample (P1SoloBridgeProxy.getTransferHash Crypto.sample 0 ⟨1,7,0,0,5,0⟩) ⟨1,0,0⟩ 1 := by
  have approval : Orders.approveOrder Crypto.sample ⟨1,90⟩ sampleOrder
      (constructor Crypto.sample P1Orders.EIP712_DOMAIN_NAME 7 1 9) = .ok approvedContract := rfl
  obtain ⟨⟨_,_⟩,fill⟩ := Checked.okExists (x := P1Orders.code.trade Crypto.sample ⟨7,100⟩
    sampleDeployment.perpetual ⟨2,1,2,BaseMath.BASE,
      encodeTradeData { signedData with signature := ⟨0,0,0⟩ },0⟩ approvedContract) (by decide +kernel)
  obtain ⟨⟨_,_⟩,inverse⟩ := Checked.okExists (x := P1InverseOrders.code.trade Crypto.sample ⟨7,100⟩
    sampleDeployment.perpetual ⟨2,1,2,BaseMath.BASE,encodeTradeData signedData,0⟩
      (constructor Crypto.sample P1InverseOrders.EIP712_DOMAIN_NAME 7 1 10)) (by decide +kernel)
  obtain ⟨⟨_,_⟩,transfer⟩ := Checked.okExists (x := P1SoloBridgeProxy.bridgeTransfer Crypto.sample
    bridgeSample 11 ⟨2,100⟩ ⟨1,7,0,0,5,0⟩ ⟨1,0,0⟩ ⟨⟨1,6,0,fun _ => false,[]⟩,()⟩) (by decide +kernel)
  have owners := authorisedUnlessZeroOwner (σ := Unit) Crypto.sample
  have steps : Steps P1Orders.code Crypto.sample (constructor Crypto.sample P1Orders.EIP712_DOMAIN_NAME 7 1 9)
      [.approve 1 sampleOrder] approvedContract := .more .none (.approve ⟨1,90⟩ sampleOrder approval)
  refine ⟨?_,?_,?_⟩
  · refine (owners.1 7 1 9 _ _ steps {sampleOrder} (Set.injOn_singleton _ _) ?_ _ _ _
      { signedData with signature := ⟨0,0,0⟩ } _ _ rfl (by decide +kernel) fill).mpr (.inl (by decide))
    exact fun c mem => by rw [List.mem_singleton.mp mem]; rfl
  · exact (owners.2.1 7 1 10 _ _ .none {sampleOrder} (Set.injOn_singleton _ _) nofun _ _ _ signedData
      _ _ rfl (by decide +kernel) inverse).mpr (.inl (by decide))
  · exact (owners.2.2 bridgeSample 11 ⟨2,100⟩ ⟨1,7,0,0,5,0⟩ ⟨1,0,0⟩ _ _ .SomeToPerpetual _ rfl rfl
      transfer).mpr (by decide)

end Perpetual
