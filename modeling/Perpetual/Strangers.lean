import Mathlib.Algebra.Order.BigOperators.Group.List
import Perpetual.AccountLedger
import Perpetual.CallLogs
import Perpetual.Proxies

/-! Calls by those whom an account has given no permission, through the proxies or not, one after
the other or nested: they take nothing out of it, although it lets the proxies operate it. -/
namespace Perpetual
open Settlement

def Entry.takesFrom (account sender : Address) : Entry → Bool
  | .withdraw debited _ _ => debited = account
  | .withdrawFinalSettlement => sender = account
  | _ => false

def Log.takesFrom (account : Address) : Log → Bool
  | .withdraw debited _ _ _ => debited = account
  | .withdrawFinalSettlement paid _ _ => paid = account
  | _ => false

theorem Log.comesFrom.spares {account sender : Address} {entry : Entry} {l : Log}
    (comes : l.comesFrom sender entry) (spares : entry.takesFrom account sender = false) :
    l.takesFrom account = false := by
  cases l with
  | withdraw debited destination amount balance =>
    obtain rfl := comes
    exact spares
  | withdrawFinalSettlement paid amount balance =>
    obtain ⟨rfl,rfl⟩ := comes
    exact spares
  | _ => rfl

theorem unpermittedSpares {σ : Type} {x : Externals σ} {msg : Msg} {entry : Entry} {account : Address} {w w' : World σ}
    (denied : hasAccountPermissions w.perpetual account msg.sender = false) (ok : exec x msg entry w = .ok w') :
    entry.takesFrom account msg.sender = false := by
  cases entry with
  | withdraw debited destination amount =>
    cases withdrawn ok with
    | done live permission =>
      refine decide_eq_false fun same => ?_
      rw [same, denied] at permission
      cases permission
  | withdrawFinalSettlement =>
    refine decide_eq_false fun own => ?_
    simp [hasAccountPermissions, own] at denied
  | _ => rfl

variable {ρ : Type}

structure ProxyMoves (y : Surroundings (LiquidatorHost (ProxyHost ρ))) (account : Address)
    (R : ProxyWorld ρ → ProxyWorld ρ → Prop) : Prop where
  refl : ∀ w, R w w
  trans : ∀ {u v w}, R u v → R v w → R u w
  own : ∀ (w : ProxyWorld ρ) ext, R w { w with ext := ext }
  outcall : ∀ {sender call w out w'}, y.outcall sender call w = .ok (out,w') → R w w'
  inner : ∀ {self entry w w'}, entry.takesFrom account self.sender = false →
    exec y.calls self entry w = .ok w' → R w w'

def Stranger (account : Address) (msg : Msg) (w : ProxyWorld ρ) : Prop :=
  hasAccountPermissions w.perpetual account msg.sender = false

def ProxyCall.signedBy (crypto : Crypto) (account : Address) (w : ProxyWorld ρ) : ProxyCall → Prop
  | .bridgeTransfer t signature => t.account = account ∧ TypedSignature.recover crypto
      (P1SoloBridgeProxy.getTransferHash crypto w.ext.rest.bridge.eip712DomainHash t) signature = .ok account
  | _ => False

section
variable {y : Surroundings (LiquidatorHost (ProxyHost ρ))} {sites : ProxySites} {msg self : Msg}
variable {account : Address} {R : ProxyWorld ρ → ProxyWorld ρ → Prop} {w w' : ProxyWorld ρ}

theorem Stranger.notOwner (stranger : Stranger account msg w) : msg.sender ≠ account := by
  rintro rfl
  simp [Stranger, hasAccountPermissions] at stranger

theorem Stranger.denied (stranger : Stranger account msg w) :
    hasAccountPermissions w.perpetual account msg.sender ≠ true := by
  rw [Stranger] at stranger
  rw [stranger]
  exact Bool.false_ne_true

namespace ProxyMoves

theorem send (moves : ProxyMoves y account R) {call : Outcall} (ok : y.send self call w = .ok w') : R w w' := by
  simp only [Surroundings.send, Checked.bindOk, Prod.exists, Checked.pureOk] at ok
  obtain ⟨out,mid,called,rfl⟩ := ok
  exact moves.outcall called

theorem deposit (moves : ProxyMoves y account R) {perpetual credited : Address} {amount : Uint256}
    (ok : y.deposit sites self perpetual credited amount w = .ok w') : R w w' := by
  simp only [Surroundings.deposit] at ok
  split at ok
  · exact moves.inner rfl ok
  · exact moves.send ok

theorem withdraw (moves : ProxyMoves y account R) {perpetual debited destination : Address} {amount : Uint256}
    (other : perpetual = sites.perpetual → debited ≠ account)
    (ok : y.withdraw sites self perpetual debited destination amount w = .ok w') : R w w' := by
  simp only [Surroundings.withdraw] at ok
  split at ok
  · rename_i here
    have spares : (Entry.withdraw debited destination amount).takesFrom account self.sender = false :=
      decide_eq_false (other here)
    exact moves.inner spares ok
  · exact moves.send ok

theorem safeApprove (moves : ProxyMoves y account R) {token spender : Address} {value : Uint256}
    (ok : y.safeApprove self token spender value w = .ok w') : R w w' := by
  simp only [Surroundings.safeApprove] at ok
  split at ok
  · simp only [Checked.bindOk, Checked.requireOk, exists_const] at ok
    obtain ⟨_,_,_,sent⟩ := ok
    exact moves.send sent
  · exact moves.send ok

end ProxyMoves

theorem othersWithdraw {perpetual debited : Address} {u : ProxyWorld ρ} (stranger : Stranger account msg w)
    (same : u.perpetual = w.perpetual)
    (permitted : y.mayWithdraw sites perpetual msg debited u = .ok true) :
    perpetual = sites.perpetual → debited ≠ account := by
  rintro here rfl
  simp only [Surroundings.mayWithdraw, if_neg stranger.notOwner, Surroundings.permits, if_pos here, same] at permitted
  exact stranger.denied (Except.ok.inj permitted)

theorem wethProxyMoves (moves : ProxyMoves y account R) (stranger : Stranger account msg w) :
    (∀ {value perpetual credited}, P1WethProxy.depositEth y sites msg value perpetual credited w = .ok w' →
      R w w') ∧
    ∀ {perpetual debited destination amount},
      P1WethProxy.withdrawEth y sites msg perpetual debited destination amount w = .ok w' → R w w' := by
  constructor
  · intro value perpetual credited ok
    simp only [P1WethProxy.depositEth, Checked.bindOk, Checked.requireOk, exists_const, Checked.pureOk] at ok
    obtain ⟨paid,pay,_,token,_,_,wrapped,wrap,amount,_,deposited,deposit,rfl⟩ := ok
    have entered : R w (P1WethProxy.setStatus ENTERED paid) := moves.trans (moves.send pay) (moves.own _ _)
    have booked := moves.trans (moves.trans entered (moves.send wrap)) (moves.deposit deposit)
    exact moves.trans booked (moves.own _ _)
  · intro perpetual debited destination amount ok
    simp only [P1WethProxy.withdrawEth, Checked.bindOk, Checked.requireOk, exists_const, Checked.pureOk] at ok
    obtain ⟨_,token,_,_,permitted,asked,rfl,taken,withdraw,balance,_,unwrapped,unwrap,paid,pay,rfl⟩ := ok
    have entered : R w (P1WethProxy.setStatus ENTERED w) := moves.own _ _
    have others := othersWithdraw stranger (u := P1WethProxy.setStatus ENTERED w) rfl asked
    have debited := moves.trans entered (moves.withdraw others withdraw)
    have sent := moves.trans (moves.trans debited (moves.send unwrap)) (moves.send pay)
    exact moves.trans sent (moves.own _ _)

theorem converterMoves (moves : ProxyMoves y account R) (stranger : Stranger account msg w) :
    (∀ {credited perpetual exchangeWrapper tokenFrom tokenFromAmount data out},
      P1CurrencyConverterProxy.deposit y sites msg credited perpetual exchangeWrapper tokenFrom tokenFromAmount data
        w = .ok (out,w') → R w w') ∧
    ∀ {debited destination perpetual exchangeWrapper tokenTo tokenFromAmount data out},
      P1CurrencyConverterProxy.withdraw y sites msg debited destination perpetual exchangeWrapper tokenTo
        tokenFromAmount data w = .ok (out,w') → R w w' := by
  constructor
  · intro credited perpetual exchangeWrapper tokenFrom tokenFromAmount data out ok
    simp only [P1CurrencyConverterProxy.deposit, Checked.bindOk, Prod.exists, Checked.pureOk, Prod.mk.injEq] at ok
    obtain ⟨token,_,sent,send,amount,exchanged,exchange,received,receive,booked,deposit,rfl,rfl⟩ := ok
    have converted := moves.trans (moves.send send) (moves.outcall exchange)
    have booked := moves.trans (moves.trans converted (moves.send receive)) (moves.deposit deposit)
    exact moves.trans booked (moves.own _ _)
  · intro debited destination perpetual exchangeWrapper tokenTo tokenFromAmount data out ok
    simp only [P1CurrencyConverterProxy.withdraw, Checked.bindOk, Checked.requireOk, exists_const, Prod.exists,
      Checked.pureOk, Prod.mk.injEq] at ok
    obtain ⟨token,_,permitted,asked,rfl,taken,withdraw,amount,exchanged,exchange,sent,send,rfl,rfl⟩ := ok
    have debited := moves.withdraw (othersWithdraw stranger rfl asked) withdraw
    have converted := moves.trans debited (moves.outcall exchange)
    exact moves.trans (moves.trans converted (moves.send send)) (moves.own _ _)

theorem approvalMoves (moves : ProxyMoves y account R) {this perpetual : Address}
    (ok : approveMaximumOnPerpetual y sites msg this perpetual w = .ok w') : R w w' := by
  simp only [approveMaximumOnPerpetual, Checked.bindOk] at ok
  obtain ⟨token,_,reset,first,last⟩ := ok
  exact moves.trans (moves.safeApprove first) (moves.safeApprove last)

theorem liquidatorMoves (moves : ProxyMoves y account R) (stranger : Stranger account msg w)
    {liquidatee liquidator : Address} {isBuy : Bool} {maxPosition : SignedInt} {out : Uint256}
    (ok : P1LiquidatorProxy.liquidate y.calls sites.liquidator msg liquidatee liquidator isBuy maxPosition w =
      .ok (out,w')) : R w w' := by
  simp only [P1LiquidatorProxy.liquidate, Checked.bindOk, Checked.requireOk, exists_const, Prod.exists,
    Checked.pureOk, Prod.mk.injEq] at ok
  obtain ⟨permitted,settled,deposit,delta,_,traded,trade,amount,fee,_,charged,transfer,rfl,rfl⟩ := ok
  have other : liquidator ≠ account := by
    rintro rfl
    rcases permitted with owner | permission
    · exact stranger.notOwner owner.symm
    · exact stranger.denied permission
  have liquidated := moves.trans (moves.inner rfl deposit) (moves.inner rfl trade)
  refine moves.trans (moves.trans liquidated ?_) (moves.own _ _)
  simp only [P1LiquidatorProxy.transferFee] at transfer
  split at transfer
  · simp only [Checked.bindOk] at transfer
    obtain ⟨taken,withdraw,put⟩ := transfer
    have spares : (Entry.withdraw liquidator sites.liquidator fee).takesFrom account sites.liquidator = false :=
      decide_eq_false other
    exact moves.trans (moves.inner spares withdraw) (moves.inner rfl put)
  · cases Checked.pureOk.mp transfer
    exact moves.refl _

namespace P1SoloBridgeProxy

theorem partedOutOk {out : Checked (ProxyWorld ρ)} {b : BridgeWorld (ProxyWorld ρ)} :
    partedOut out = .ok b ↔ ∃ w, out = .ok w ∧ parted w = b := by
  simp only [partedOut, Checked.bindOk, Checked.pureOk]

theorem othersTransferred {crypto : Crypto} {t : Transfer} {signature : TypedSignature.Signature}
    (stranger : Stranger account msg w) (unsigned : ¬ (ProxyCall.bridgeTransfer t signature).signedBy crypto account w)
    {solo : Address} {valid : Bool} {b : BridgeWorld (ProxyWorld ρ)}
    (operator : isValidOperator (around y sites msg) msg solo t false (setStatus (parted w) ENTERED) = .ok valid)
    (permission : verifyPermission crypto msg t
      (getTransferHash crypto w.ext.rest.bridge.eip712DomainHash t) signature valid
      (setStatus (parted w) ENTERED) = .ok b) : t.perpetual = sites.perpetual → t.account ≠ account := by
  intro here own
  cases valid with
  | true =>
    have permits : (around y sites msg).hasAccountPermissions t.perpetual t.account msg.sender
        (setStatus (parted w) ENTERED) = .ok true := by
      simp only [isValidOperator, if_neg (own ▸ stranger.notOwner), Checked.bindOk] at operator
      obtain ⟨isGlobal,_,rest⟩ := operator
      cases isGlobal with
      | true => exact rest
      | false =>
        obtain ⟨isLocal,_,last⟩ := Checked.bindOk.mp rest
        cases isLocal with
        | true => exact last
        | false => cases last
    simp only [around, Surroundings.permits, if_pos here, own] at permits
    exact stranger.denied (Except.ok.inj permits)
  | false =>
    simp only [verifyPermission, Bool.false_eq_true, if_false, Checked.bindOk, verifySignature,
      Checked.requireOk, exists_const] at permission
    obtain ⟨⟨_,_,signer,recovered,rfl⟩,_⟩ := permission
    exact unsigned ⟨own,own ▸ recovered⟩

section
variable {b b' : BridgeWorld (ProxyWorld ρ)} {t : Transfer}

theorem bridgeOwn (moves : ProxyMoves y account R) (b : BridgeWorld (ProxyWorld ρ)) (contract : BridgeContract) :
    R (joined b) (joined { b with bridge := contract }) := moves.own _ _

theorem operationMoves (moves : ProxyMoves y account R) {this solo : Address} {isWithdrawal withdrawToZero : Bool}
    (ok : doSoloOperation (around y sites msg) this solo t isWithdrawal withdrawToZero b = .ok b') :
    R (joined b) (joined b') := by
  obtain ⟨w,sent,rfl⟩ := partedOutOk.mp ok
  exact moves.send sent

theorem permissionMoves (moves : ProxyMoves y account R) {crypto : Crypto} {transferHash : Bytes32}
    {signature : TypedSignature.Signature} {valid : Bool}
    (ok : verifyPermission crypto msg t transferHash signature valid b = .ok b') : R (joined b) (joined b') := by
  cases valid with
  | true =>
    cases Except.ok.inj ok
    exact moves.refl _
  | false =>
    simp only [verifyPermission, Bool.false_eq_true, if_false, Checked.bindOk, Checked.pureOk] at ok
    obtain ⟨_,_,rfl⟩ := ok
    exact bridgeOwn moves b _

theorem executionMoves (moves : ProxyMoves y account R) {this solo token : Address} {mode : TransferMode}
    {out : Uint256} (others : isToPerpetual mode = false → t.perpetual = sites.perpetual → t.account ≠ account)
    (ok : execute (around y sites msg) this solo token t mode b = .ok (out,b')) : R (joined b) (joined b') := by
  have toPerpetual {all : Bool} {u v : BridgeWorld (ProxyWorld ρ)} {amount : Uint256}
      (operated : doSoloOperation (around y sites msg) this solo t true all b = .ok u)
      (deposit : (around y sites msg).deposit t.perpetual t.account amount u = .ok v) : R (joined b) (joined v) := by
    obtain ⟨w,booked,rfl⟩ := partedOutOk.mp deposit
    exact moves.trans (operationMoves moves operated) (moves.deposit booked)
  cases mode with
  | SomeToSolo =>
    simp only [execute, Checked.bindOk, Checked.pureOk, Prod.mk.injEq] at ok
    obtain ⟨taken,withdraw,operated,operation,rfl,rfl⟩ := ok
    obtain ⟨w,withdrawn,rfl⟩ := partedOutOk.mp withdraw
    exact moves.trans (moves.withdraw (others rfl) withdrawn) (operationMoves moves operation)
  | SomeToPerpetual | AllToPerpetual =>
    simp only [execute, Checked.bindOk, Checked.pureOk, Prod.mk.injEq] at ok
    obtain ⟨_,_,operated,operation,_,_,amount,_,deposited,deposit,rfl,rfl⟩ := ok
    exact toPerpetual operation deposit

theorem transferMoves (moves : ProxyMoves y account R) {crypto : Crypto} {signature : TypedSignature.Signature}
    {out : Uint256} (stranger : Stranger account msg w)
    (unsigned : ¬ (ProxyCall.bridgeTransfer t signature).signedBy crypto account w)
    (ok : bridgeTransfer crypto (around y sites msg) sites.soloBridge msg t signature (parted w) = .ok (out,b)) :
    R w (joined b) := by
  simp only [bridgeTransfer, Checked.bindOk, Checked.requireOk, exists_const, Prod.exists, Checked.pureOk,
    Prod.mk.injEq] at ok
  obtain ⟨_,token,_,mode,_,_,_,valid,operator,permitted,permission,amount,moved,executed,rfl,rfl⟩ := ok
  have others : isToPerpetual mode = false → t.perpetual = sites.perpetual → t.account ≠ account := by
    intro leaves
    rw [leaves] at operator
    exact othersTransferred stranger unsigned operator permission
  have entered : R w (joined (setStatus (parted w) ENTERED)) := bridgeOwn moves (parted w) _
  have bridged := moves.trans (moves.trans entered (permissionMoves moves permission))
    (executionMoves moves others executed)
  exact moves.trans bridged (bridgeOwn moves moved _)

theorem invalidationMoves (moves : ProxyMoves y account R) {crypto : Crypto}
    (ok : invalidateSignature crypto (around y sites msg) msg t (parted w) = .ok b) : R w (joined b) := by
  simp only [invalidateSignature] at ok
  split at ok
  · simp only [Checked.bindOk, Checked.requireOk, exists_const, Checked.pureOk] at ok
    obtain ⟨_,_,_,_,_,rfl⟩ := ok
    exact bridgeOwn moves (parted w) _
  · cases Checked.pureOk.mp ok
    exact bridgeOwn moves (parted w) _

end

end P1SoloBridgeProxy

theorem proxyMoves (moves : ProxyMoves y account R) {crypto : Crypto} {call : ProxyCall}
    (stranger : Stranger account msg w) (unsigned : ¬ call.signedBy crypto account w)
    (ok : execProxy y sites msg crypto call w = .ok w') : R w w' := by
  cases call with
  | approveMaximumOnPerpetual proxy perpetual => exact approvalMoves moves ok
  | approveMaximumOnSolo soloMarketId =>
    simp only [execProxy, P1SoloBridgeProxy.approveMaximumOnSolo, Checked.bindOk] at ok
    obtain ⟨token,_,reset,first,last⟩ := ok
    exact moves.trans (moves.safeApprove first) (moves.safeApprove last)
  | depositEth value perpetual credited => exact (wethProxyMoves moves stranger).1 ok
  | withdrawEth perpetual debited destination amount => exact (wethProxyMoves moves stranger).2 ok
  | convertedDeposit credited perpetual exchangeWrapper tokenFrom tokenFromAmount data =>
    simp only [execProxy, Checked.bindOk, Prod.exists, Checked.pureOk] at ok
    obtain ⟨out,mid,deposit,rfl⟩ := ok
    exact (converterMoves moves stranger).1 deposit
  | convertedWithdrawal debited destination perpetual exchangeWrapper tokenTo tokenFromAmount data =>
    simp only [execProxy, Checked.bindOk, Prod.exists, Checked.pureOk] at ok
    obtain ⟨out,mid,withdraw,rfl⟩ := ok
    exact (converterMoves moves stranger).2 withdraw
  | bridgeTransfer t signature =>
    simp only [execProxy, Checked.bindOk, Prod.exists, Checked.pureOk] at ok
    obtain ⟨out,b,transfer,rfl⟩ := ok
    exact P1SoloBridgeProxy.transferMoves moves stranger unsigned transfer
  | invalidateSignature t =>
    simp only [execProxy, Checked.bindOk, Checked.pureOk] at ok
    obtain ⟨b,invalidate,rfl⟩ := ok
    exact P1SoloBridgeProxy.invalidationMoves moves invalidate
  | liquidate liquidatee liquidator isBuy maxPosition =>
    simp only [execProxy, Checked.bindOk, Prod.exists, Checked.pureOk] at ok
    obtain ⟨out,mid,liquidate,rfl⟩ := ok
    exact liquidatorMoves moves stranger liquidate

end

/-- Runs of calls by strangers to the account, directly or through the proxies, nested in any way. -/
inductive ByStrangers (crypto : Crypto) (sites : ProxySites) (account : Address) :
    ProxyWorld ρ → ProxyWorld ρ → Prop where
  | refl (w : ProxyWorld ρ) : ByStrangers crypto sites account w w
  | own (w : ProxyWorld ρ) (ext : LiquidatorHost (ProxyHost ρ)) :
      ByStrangers crypto sites account w { w with ext := ext }
  | call {w w' : ProxyWorld ρ} (x : Externals (LiquidatorHost (ProxyHost ρ))) (msg : Msg) (entry : Entry)
      (honest : Honest (fun _ _ => True) x) (stranger : Stranger account msg w)
      (ok : exec x msg entry w = .ok w') : ByStrangers crypto sites account w w'
  | proxy {w w' : ProxyWorld ρ} (y : Surroundings (LiquidatorHost (ProxyHost ρ))) (msg : Msg) (call : ProxyCall)
      (honest : Honest (fun _ _ => True) y.calls)
      (outcalls : ∀ sender call w out w', y.outcall sender call w = .ok (out,w') →
        ByStrangers crypto sites account w w')
      (stranger : Stranger account msg w) (unsigned : ¬ call.signedBy crypto account w)
      (ok : execProxy y sites msg crypto call w = .ok w') : ByStrangers crypto sites account w w'
  | trans {u v w : ProxyWorld ρ} (first : ByStrangers crypto sites account u v)
      (last : ByStrangers crypto sites account v w) : ByStrangers crypto sites account u w

section
variable {crypto : Crypto} {sites : ProxySites} {account : Address} {w w' : ProxyWorld ρ}

def Spared (account : Address) (w w' : ProxyWorld ρ) : Prop :=
  LogsOf (fun l => l.takesFrom account = false) w w' ∧ AccountKept account w w'

theorem Spared.trans {u v w : ProxyWorld ρ} (first : Spared account u v) (last : Spared account v w) :
    Spared account u w := ⟨first.1.trans last.1,first.2.trans last.2⟩

theorem Spared.quiet (w : ProxyWorld ρ) (ext : LiquidatorHost (ProxyHost ρ)) :
    Spared account w { w with ext := ext } := ⟨.quiet rfl,.quiet rfl rfl rfl⟩

theorem execSpares {x : Externals (LiquidatorHost (ProxyHost ρ))} (honest : Honest (fun _ _ => True) x)
    {msg : Msg} {entry : Entry} (spares : entry.takesFrom account msg.sender = false)
    (ok : exec x msg entry w = .ok w') : Spared account w w' :=
  ⟨(execLogged honest ok).mono fun _ comes => comes.spares spares,execAccounted honest ok⟩

theorem runSpares (run : ByStrangers crypto sites account w w') : Spared account w w' := by
  induction run with
  | refl w => exact .quiet w w.ext
  | own w ext => exact .quiet w ext
  | call x msg entry honest stranger ok => exact execSpares honest (unpermittedSpares stranger ok) ok
  | proxy y msg call honest outcalls stranger unsigned ok ih =>
    have moves : ProxyMoves y account (Spared account) :=
      ⟨fun w => .quiet w w.ext,.trans,.quiet,fun called => ih _ _ _ _ _ called,
        fun spares inner => execSpares honest spares inner⟩
    exact proxyMoves moves stranger unsigned ok
  | trans first last ihFirst ihLast => exact ihFirst.trans ihLast

theorem transferSpared (l : Log) (spares : l.takesFrom account = false) : 0 ≤ l.transferOf account := by
  cases l with
  | deposit credited amount balance =>
    rw [Log.transferOf]
    split <;> omega
  | withdraw debited destination amount balance =>
    rw [Log.transferOf, if_neg (of_decide_eq_false spares)]
  | _ => exact Int.le_refl 0

/-- However strangers to an account go about it, over the proxies that it lets operate it, over wrappers that
call back, or directly: nothing is withdrawn from it or paid out of it, and unless it is traded with it keeps
its position and, but for less than one unit of margin for each of its settlements, its value. -/
theorem strangersTakeNothing (run : ByStrangers crypto sites account w w') :
    ∃ new, w'.logs = w.logs ++ new ∧ (∀ l ∈ new, l.takesFrom account = false) ∧
      ((∀ l ∈ new, l.trades account = false) →
        (w'.perpetual.balances account).positionInt = (w.perpetual.balances account).positionInt ∧
        ∀ G, w.perpetual.fundedTo account G ≤
          w'.perpetual.fundedTo account G + (10 ^ 18 - 1) * new.countP (Log.settles account)) := by
  obtain ⟨⟨new,logged,spares⟩,others,kept⟩ := runSpares run
  obtain rfl : new = others := List.append_cancel_left (logged.symm.trans kept.logged)
  have unpaid : ∀ l ∈ new, l.paysOut account = false := by
    intro l mem
    have spared := spares l mem
    cases l with
    | withdrawFinalSettlement paid amount balance => exact spared
    | _ => rfl
  refine ⟨new,logged,spares,fun untraded => ⟨kept.positionStays unpaid untraded,fun G => ?_⟩⟩
  have paidIn : 0 ≤ sumOf (Log.transferOf account) new := by
    refine List.sum_nonneg fun _ mem => ?_
    obtain ⟨l,inside,rfl⟩ := List.mem_map.mp mem
    exact transferSpared l (spares l inside)
  have value := (kept.value unpaid untraded G).2
  omega

end

def plainCalls {σ : Type} : Externals σ :=
  { Externals.silent with
    getPrice := fun _ _ => .ok BaseMath.BASE
    getFunding := fun _ _ _ => .ok (true,0)
    transferFrom := fun _ _ _ w => .ok w
    transfer := fun _ _ _ w => .ok w }

theorem plainCallsHonest {σ : Type} : Honest (fun _ _ => True) (plainCalls (σ := σ)) where
  traders := by
    intro trader call w₁ r w₂ ok
    cases ok
  pulls := fun _ _ _ _ _ ok => .ofSame ok
  pushes := fun _ _ _ _ _ ok => .ofSame ok

def wrapperCallsBack : Surroundings (LiquidatorHost (ProxyHost Unit)) where
  calls := plainCalls
  getTokenContract := fun _ _ => .error "no contract"
  hasAccountPermissions := fun _ _ _ _ => .ok true
  balanceOf := fun _ _ _ => .ok 0
  allowance := fun _ _ _ _ => .ok 0
  getMarketTokenAddress := fun _ _ _ => .error "no contract"
  getIsGlobalOperator := fun _ _ _ => .ok false
  getIsLocalOperator := fun _ _ _ _ => .ok false
  outcall := fun sender call w =>
    match call with
    | .exchange wrapper _ _ _ _ _ _ => do
        Checked.require (Perpetual.hasAccountPermissions w.perpetual 1 wrapper = false) "not a stranger"
        let w ← exec plainCalls ⟨wrapper,100⟩ (.setLocalOperator sender true) w
        return (5,w)
    | _ => .ok (0,w)

def operatedWorld : ProxyWorld Unit where
  perpetual :=
    { Storage.deployed 3 with
      balances := fun account => if account = 1 then ⟨true,false,100,0⟩ else ⟨false,false,0,0⟩
      localOperators := fun account operator => decide (account = 1 ∧ operator ∈ [11,12,13,14]) }
  logs := []
  ext := ⟨⟨3,7,15,16,0,[]⟩,⟨NOT_ENTERED,8⟩,[],⟨NOT_ENTERED,6,0,fun _ => false,[]⟩,()⟩

def convertedSample : Checked (ProxyWorld Unit) :=
  execProxy wrapperCallsBack ⟨7,11,12,13,14⟩ ⟨2,100⟩ Crypto.sample (.convertedDeposit 1 7 20 8 5 []) operatedWorld

theorem sampleSpared : ∃ w', convertedSample = .ok w' ∧
    ∃ new, w'.logs = operatedWorld.logs ++ new ∧ (∀ l ∈ new, l.takesFrom 1 = false) ∧
      ((∀ l ∈ new, l.trades 1 = false) →
        (w'.perpetual.balances 1).positionInt = (operatedWorld.perpetual.balances 1).positionInt ∧
        ∀ G, operatedWorld.perpetual.fundedTo 1 G ≤
          w'.perpetual.fundedTo 1 G + (10 ^ 18 - 1) * new.countP (Log.settles 1)) := by
  obtain ⟨w',ok⟩ := Checked.okExists (x := convertedSample) (by decide +kernel)
  have stranger : Stranger 1 ⟨2,100⟩ operatedWorld := by
    rw [Stranger]
    decide
  have unsigned : ¬ (ProxyCall.convertedDeposit 1 7 20 8 5 []).signedBy Crypto.sample 1 operatedWorld := id
  refine ⟨w',ok,strangersTakeNothing (.proxy wrapperCallsBack ⟨2,100⟩ _ plainCallsHonest ?_ stranger unsigned ok)⟩
  intro sender call w out w' asked
  cases call with
  | exchange wrapper originator receiver makerToken takerToken amount data =>
    simp only [wrapperCallsBack, Checked.bindOk, Checked.requireOk, exists_const, Checked.pureOk,
      Prod.mk.injEq] at asked
    obtain ⟨stranger,mid,nested,rfl,rfl⟩ := asked
    exact .call plainCalls ⟨wrapper,100⟩ _ plainCallsHonest stranger nested
  | _ =>
    cases Except.ok.inj asked
    exact .refl _

end Perpetual
