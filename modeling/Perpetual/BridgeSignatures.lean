import Perpetual.SoloBridge
import Perpetual.OneTime

/-! Over any activity around the bridge a signature is spent at most once. Solo, the tokens and
the PerpetualV1 contracts may call back into the bridge, and so may anyone else. -/
namespace Perpetual

inductive BridgeEvent where
  | executed (t : Transfer) (sender : Address) (timestamp : Uint256) (isValidOperator : Bool)
  | invalidated (t : Transfer)
  deriving DecidableEq, Repr

namespace BridgeEvent

def transfer : BridgeEvent → Transfer
  | executed t _ _ _ => t
  | invalidated t => t

def Signed : BridgeEvent → Prop
  | executed _ _ _ isValidOperator => isValidOperator = false
  | invalidated _ => False

instance : DecidablePred Signed
  | executed _ _ _ isValidOperator => inferInstanceAs (Decidable (isValidOperator = false))
  | invalidated _ => .isFalse id

def Spends : BridgeEvent → Prop
  | executed _ _ _ isValidOperator => isValidOperator = false
  | invalidated _ => True

def Timely : BridgeEvent → Prop
  | executed t _ timestamp isValidOperator => isValidOperator = false →
      P1SoloBridgeProxy.getExpiration t = 0 ∨
        timestamp.toNat ≤ (P1SoloBridgeProxy.getExpiration t).toNat
  | invalidated _ => True

theorem spending (e : BridgeEvent) (signed : e.Signed) : e.Spends := by
  cases e with
  | executed t sender timestamp isValidOperator => exact signed
  | invalidated t => trivial

end BridgeEvent

namespace P1SoloBridgeProxy
open BridgeEvent
variable {σ : Type}

structure Started (crypto : Crypto) (x : BridgeExternals σ) (msg : Msg) (t : Transfer)
    (signature : TypedSignature.Signature) (w : BridgeWorld σ) (token : Address) (mode : TransferMode)
    (operator : Bool) (w₁ : BridgeWorld σ) : Prop where
  free : w.bridge.status ≠ ENTERED
  asset : x.getTokenContract t.perpetual (setStatus w ENTERED) = .ok token
  option : getTransferMode t = .ok mode
  market : verifySoloMarket x w.bridge.soloMargin t token (setStatus w ENTERED) = .ok ()
  sender : isValidOperator x msg w.bridge.soloMargin t (isToPerpetual mode) (setStatus w ENTERED) =
    .ok operator
  permission : verifyPermission crypto msg t (getTransferHash crypto w.bridge.eip712DomainHash t) signature
    operator (setStatus w ENTERED) = .ok w₁

def finished (t : Transfer) (mode : TransferMode) (amount : Uint256) (w : BridgeWorld σ) : BridgeWorld σ :=
  setStatus (emit w (.transferred t.account t.perpetual t.soloAccountNumber t.soloMarketId
    (isToPerpetual mode) amount)) NOT_ENTERED

theorem bridged {crypto : Crypto} {x : BridgeExternals σ} {this : Address} {msg : Msg} {t : Transfer}
    {signature : TypedSignature.Signature} {w w' : BridgeWorld σ} {out : Uint256} :
    bridgeTransfer crypto x this msg t signature w = .ok (out,w') ↔
      ∃ token mode operator w₁ amount w₂, Started crypto x msg t signature w token mode operator w₁ ∧
        execute x this w.bridge.soloMargin token t mode w₁ = .ok (amount,w₂) ∧ out = 0 ∧
        w' = finished t mode amount w₂ := by
  simp only [bridgeTransfer, Checked.bindOk, Checked.requireOk, exists_const, Prod.exists, Checked.pureOk,
    Prod.mk.injEq]
  constructor
  · rintro ⟨free,token,ht,mode,hm,_,market,operator,ho,w₁,permission,amount,w₂,executed,rfl,rfl⟩
    exact ⟨token,mode,operator,w₁,amount,w₂,⟨free,ht,hm,market,ho,permission⟩,executed,rfl,rfl⟩
  · rintro ⟨token,mode,operator,w₁,amount,w₂,⟨free,ht,hm,market,ho,permission⟩,executed,rfl,rfl⟩
    exact ⟨free,token,ht,mode,hm,(),market,operator,ho,w₁,permission,amount,w₂,executed,rfl,rfl⟩

/-- What can go on around the bridge, with its events in order: calls of it by anyone at any
time, whose external calls are again such activity, and changes elsewhere. A call that reverts
leaves nothing. -/
inductive Activity (crypto : Crypto) (this : Address) :
    BridgeWorld σ → List BridgeEvent → BridgeWorld σ → Prop where
  | nothing (w : BridgeWorld σ) : Activity crypto this w [] w
  | elsewhere (w : BridgeWorld σ) (ext : σ) : Activity crypto this w [] { w with ext := ext }
  | andThen {u v w : BridgeWorld σ} {first last : List BridgeEvent} (before : Activity crypto this u first v)
      (next : Activity crypto this v last w) : Activity crypto this u (first ++ last) w
  | invalidate {w w' : BridgeWorld σ} (x : BridgeExternals σ) (msg : Msg) (t : Transfer)
      (ok : invalidateSignature crypto x msg t w = .ok w') : Activity crypto this w [.invalidated t] w'
  | transfer {w w₁ w₂ : BridgeWorld σ} {token : Address} {mode : TransferMode} {operator : Bool}
      {amount : Uint256} {nested : List BridgeEvent} (x : BridgeExternals σ) (msg : Msg) (t : Transfer)
      (signature : TypedSignature.Signature)
      (started : Started crypto x msg t signature w token mode operator w₁)
      (executed : execute x this w.bridge.soloMargin token t mode w₁ = .ok (amount,w₂))
      (inside : Activity crypto this w₁ nested w₂) :
      Activity crypto this w (.executed t msg.sender msg.timestamp operator::nested) (finished t mode amount w₂)

structure Honest (crypto : Crypto) (this : Address) (x : BridgeExternals σ) : Prop where
  operates : ∀ solo accounts actions w w', x.operate solo accounts actions w = .ok w' →
    ∃ trace, Activity crypto this w trace w'
  deposits : ∀ perpetual account amount w w', x.deposit perpetual account amount w = .ok w' →
    ∃ trace, Activity crypto this w trace w'
  withdraws : ∀ perpetual account destination amount w w',
    x.withdraw perpetual account destination amount w = .ok w' → ∃ trace, Activity crypto this w trace w'

section
variable {crypto : Crypto} {this : Address} {x : BridgeExternals σ} {w w' : BridgeWorld σ}

theorem executeToPerpetual {solo token : Address} {t : Transfer} {mode : TransferMode}
    (toPerpetual : isToPerpetual mode = true) (w : BridgeWorld σ) : execute x this solo token t mode w = (do
      let initialBalance ← x.balanceOf token this w
      let w ← doSoloOperation x this solo t true (mode == .AllToPerpetual) w
      let finalBalance ← x.balanceOf token this w
      let amount ← SafeMath.sub finalBalance initialBalance
      let w ← x.deposit t.perpetual t.account amount w
      return (amount,w)) := by
  cases mode with
  | SomeToSolo => cases toPerpetual
  | SomeToPerpetual => rfl
  | AllToPerpetual => rfl

theorem executeActivity (honest : Honest crypto this x) {solo token : Address} {t : Transfer}
    {mode : TransferMode} {amount : Uint256} (ok : execute x this solo token t mode w = .ok (amount,w')) :
    ∃ trace, Activity crypto this w trace w' := by
  cases direction : isToPerpetual mode with
  | true =>
    simp only [executeToPerpetual direction, Checked.bindOk, Checked.pureOk, Prod.mk.injEq] at ok
    obtain ⟨_,_,mid,operation,_,_,moved,_,last,deposit,rfl,rfl⟩ := ok
    obtain ⟨early,first⟩ := honest.operates _ _ _ _ _ operation
    obtain ⟨late,second⟩ := honest.deposits _ _ _ _ _ deposit
    exact ⟨early ++ late,first.andThen second⟩
  | false =>
    obtain rfl : mode = .SomeToSolo := by cases mode <;> first | rfl | cases direction
    simp only [execute, Checked.bindOk, Checked.pureOk, Prod.mk.injEq] at ok
    obtain ⟨mid,withdrawal,last,operation,rfl,rfl⟩ := ok
    obtain ⟨early,first⟩ := honest.withdraws _ _ _ _ _ _ withdrawal
    obtain ⟨late,second⟩ := honest.operates _ _ _ _ _ operation
    exact ⟨early ++ late,first.andThen second⟩

theorem transferActivity (honest : Honest crypto this x) {msg : Msg} {t : Transfer}
    {signature : TypedSignature.Signature} {out : Uint256}
    (ok : bridgeTransfer crypto x this msg t signature w = .ok (out,w')) :
    ∃ token mode operator w₁ nested, Started crypto x msg t signature w token mode operator w₁ ∧
      Activity crypto this w (.executed t msg.sender msg.timestamp operator::nested) w' := by
  obtain ⟨token,mode,operator,w₁,amount,w₂,started,executed,_,rfl⟩ := bridged.mp ok
  obtain ⟨nested,inside⟩ := executeActivity honest executed
  exact ⟨token,mode,operator,w₁,nested,started,.transfer x msg t signature started executed inside⟩

/-! The flags of the contract against the events. -/

def hashOf (crypto : Crypto) (w : BridgeWorld σ) (e : BridgeEvent) : Bytes32 :=
  getTransferHash crypto w.bridge.eip712DomainHash e.transfer

def spentIn (w : BridgeWorld σ) : Set Bytes32 := {h | w.bridge.signatureUsed h = true}

structure Spent (crypto : Crypto) (w : BridgeWorld σ) (trace : List BridgeEvent) (w' : BridgeWorld σ) :
    Prop where
  domain : w'.bridge.eip712DomainHash = w.bridge.eip712DomainHash
  orderly : OneTime.Orderly (hashOf crypto w) Spends Signed (spentIn w) trace
  spent : spentIn w' = trace.foldl (OneTime.after (hashOf crypto w) Spends) (spentIn w)
  timely : ∀ e ∈ trace, e.Timely

theorem spentUse (w : BridgeWorld σ) (h : Bytes32) : spentIn (useSignature w h) = spentIn w ∪ {h} := by
  ext other
  by_cases same : other = h
  · subst same
    simp [spentIn, useSignature]
  · simp [spentIn, useSignature, same]

theorem spentOne {e : BridgeEvent} (domain : w'.bridge.eip712DomainHash = w.bridge.eip712DomainHash)
    (unused : e.Signed → hashOf crypto w e ∉ spentIn w) (spends : e.Spends)
    (spent : spentIn w' = spentIn w ∪ {hashOf crypto w e}) (timely : e.Timely) : Spent crypto w [e] w' := by
  refine ⟨domain,⟨unused,trivial⟩,?_,List.forall_mem_singleton.mpr timely⟩
  rw [spent, List.foldl_cons, List.foldl_nil, OneTime.after]
  ext h
  simp [spends, eq_comm]

theorem startedSpent {msg : Msg} {t : Transfer} {signature : TypedSignature.Signature} {token : Address}
    {mode : TransferMode} {operator : Bool} {w₁ : BridgeWorld σ}
    (started : Started crypto x msg t signature w token mode operator w₁) :
    Spent crypto w [.executed t msg.sender msg.timestamp operator] w₁ := by
  have permission := started.permission
  cases operator with
  | true =>
    obtain rfl := Except.ok.inj permission
    refine ⟨rfl,⟨fun no => by (cases no),trivial⟩,?_,List.forall_mem_singleton.mpr fun no => by cases no⟩
    simp [OneTime.after, Spends, spentIn, setStatus]
  | false =>
    simp only [verifyPermission, Bool.false_eq_true, if_false, Checked.bindOk, verifySignature,
      Checked.requireOk, exists_const, Checked.pureOk] at permission
    obtain ⟨⟨timely,unused,_⟩,rfl⟩ := permission
    exact spentOne rfl (fun _ used => Bool.false_ne_true (unused.symm.trans used)) rfl (spentUse _ _)
      fun _ => timely.symm

theorem invalidated {msg : Msg} {t : Transfer} (ok : invalidateSignature crypto x msg t w = .ok w') :
    Spent crypto w [.invalidated t] w' := by
  have marked : w' = emit (useSignature w (getTransferHash crypto w.bridge.eip712DomainHash t))
      (.signatureInvalidated t.account (getTransferHash crypto w.bridge.eip712DomainHash t)) := by
    unfold invalidateSignature at ok
    split at ok
    · simp only [Checked.bindOk, Checked.requireOk, exists_const, Checked.pureOk] at ok
      obtain ⟨_,_,_,_,_,same⟩ := ok
      exact same.symm
    · exact (Checked.pureOk.mp ok).symm
  rw [marked]
  exact spentOne rfl False.elim trivial (spentUse _ _) trivial

theorem Spent.andThen {u v : BridgeWorld σ} {first last : List BridgeEvent} (a : Spent crypto u first v)
    (b : Spent crypto v last w) : Spent crypto u (first ++ last) w := by
  have same : hashOf crypto v = hashOf crypto u := by
    funext e
    rw [hashOf, a.domain, hashOf]
  have orderly := b.orderly
  have spent := b.spent
  rw [same, a.spent] at orderly spent
  refine ⟨b.domain.trans a.domain,a.orderly.append orderly,by rw [spent, List.foldl_append],?_⟩
  exact List.forall_mem_append.mpr ⟨a.timely,b.timely⟩

theorem activitySpent {trace : List BridgeEvent} (run : Activity crypto this w trace w') :
    Spent crypto w trace w' := by
  induction run with
  | nothing w => exact ⟨rfl,trivial,rfl,nofun⟩
  | elsewhere w ext => exact ⟨rfl,trivial,rfl,nofun⟩
  | andThen before next ihBefore ihNext => exact ihBefore.andThen ihNext
  | invalidate x msg t ok => exact invalidated ok
  | transfer x msg t signature started executed inside ih =>
    have whole := (startedSpent started).andThen ih
    exact ⟨whole.domain,whole.orderly,whole.spent,whole.timely⟩

end

/-- Executions that rest on the signature of a transfer: at most one, none after the signature was
invalidated, none after the expiration. Calls on other transfers leave it as usable as it was. -/
theorem signatureSpentOnce (crypto : Crypto) (this : Address) :
    (∀ (x : BridgeExternals σ) msg t signature w out w', Honest crypto this x →
      bridgeTransfer crypto x this msg t signature w = .ok (out,w') →
      ∃ token mode operator w₁ nested, Started crypto x msg t signature w token mode operator w₁ ∧
        Activity crypto this w (.executed t msg.sender msg.timestamp operator::nested) w') ∧
    ∀ (w : BridgeWorld σ) trace w', Activity crypto this w trace w' → ∀ t,
      trace.countP (fun e => decide (e.Signed ∧ e.transfer = t)) ≤ 1 ∧
      (∀ before after, trace = before ++ .invalidated t::after →
        ∀ e ∈ after, e.Signed → e.transfer ≠ t) ∧
      (∀ sender timestamp, .executed t sender timestamp false ∈ trace →
        getExpiration t = 0 ∨ timestamp.toNat ≤ (getExpiration t).toNat) ∧
      ∀ inPlay : Set Transfer, Set.InjOn (getTransferHash crypto w.bridge.eip712DomainHash) inPlay →
        t ∈ inPlay → (∀ e ∈ trace, e.transfer ∈ inPlay ∧ e.transfer ≠ t) →
        let hash := getTransferHash crypto w.bridge.eip712DomainHash t
        w'.bridge.signatureUsed hash = w.bridge.signatureUsed hash := by
  refine ⟨fun x msg t signature w out w' honest ok => transferActivity honest ok,?_⟩
  intro w trace w' run t
  have h := activitySpent run
  refine ⟨?_,?_,?_,?_⟩
  · have once := h.orderly.atMostOnce spending (getTransferHash crypto w.bridge.eip712DomainHash t)
    refine (List.countP_mono_left fun e _ both => ?_).trans once
    obtain ⟨signed,same⟩ := of_decide_eq_true both
    exact decide_eq_true ⟨signed,by rw [hashOf, same]⟩
  · rintro before after rfl e mem signed rfl
    exact h.orderly.noneLater trivial e mem signed rfl
  · intro sender timestamp mem
    exact h.timely _ mem rfl
  · intro inPlay injective mem others
    rw [Bool.eq_iff_iff]
    change _ ∈ spentIn w' ↔ _ ∈ spentIn w
    rw [h.spent, OneTime.mem_foldl_after]
    refine or_iff_left ?_
    rintro ⟨e,inTrace,_,same⟩
    obtain ⟨played,other⟩ := others e inTrace
    exact other (injective played mem same)

theorem sampleHonest : Honest Crypto.sample 11 bridgeSample where
  operates := by
    intro solo accounts actions w w' ok
    cases Except.ok.inj ok
    exact ⟨[],.nothing _⟩
  deposits := by
    intro perpetual account amount w w' ok
    cases Except.ok.inj ok
    exact ⟨[],.nothing _⟩
  withdraws := by
    intro perpetual account destination amount w w' ok
    cases Except.ok.inj ok
    exact ⟨[],.nothing _⟩

theorem sampleSpentOnce : ∃ w' : BridgeWorld Unit, ∃ trace : List BridgeEvent,
    bridgeTransfer Crypto.sample bridgeSample 11 ⟨2,100⟩ ⟨1,7,0,0,5,0⟩ ⟨1,0,0⟩
      ⟨⟨1,6,0,fun _ => false,[]⟩,()⟩ = .ok (0,w') ∧
    trace.head? = some (.executed ⟨1,7,0,0,5,0⟩ 2 100 false) ∧
    trace.countP (fun e => decide (e.Signed ∧ e.transfer = ⟨1,7,0,0,5,0⟩)) ≤ 1 := by
  obtain ⟨⟨out,w'⟩,ok⟩ := Checked.okExists (x := bridgeTransfer Crypto.sample bridgeSample 11 ⟨2,100⟩
    ⟨1,7,0,0,5,0⟩ ⟨1,0,0⟩ ⟨⟨1,6,0,fun _ => false,[]⟩,()⟩) (by decide +kernel)
  have spent := @signatureSpentOnce Unit Crypto.sample 11
  obtain ⟨token,mode,operator,w₁,nested,started,run⟩ := spent.1 _ _ _ _ _ _ _ sampleHonest ok
  obtain rfl : operator = false := by
    have sender := started.sender
    cases Except.ok.inj started.option
    exact (Except.ok.inj sender).symm
  obtain rfl : out = 0 := by
    obtain ⟨_,_,_,_,_,_,_,_,zero,_⟩ := bridged.mp ok
    exact zero
  exact ⟨w',_,ok,rfl,(spent.2 _ _ _ run _).1⟩

end P1SoloBridgeProxy
end Perpetual
