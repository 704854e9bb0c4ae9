import Perpetual.BridgeSignatures
import Perpetual.Solvency

/-! What a permitted bridge transfer moves, between a Solo that behaves as its interface documents
and PerpetualV1. The bridge names the Solo account by its number, where Solo takes an index. -/
namespace Perpetual
open Settlement

structure SoloCalls (τ : Type) where
  getMarketTokenAddress : Uint256 → World τ → Checked Address
  getIsGlobalOperator : Address → World τ → Checked Bool
  getIsLocalOperator : Address → Address → World τ → Checked Bool
  operate : List Solo.AccountInfo → List Solo.ActionArgs → World τ → Checked (World τ)

structure Assets (τ : Type) where
  ledger : τ → Address → Nat
  wei : τ → Solo.AccountInfo → Uint256 → Nat

def changeWei (account : Solo.AccountInfo) (market : Uint256) (change : Nat → Nat)
    (wei : Solo.AccountInfo → Uint256 → Nat) : Solo.AccountInfo → Uint256 → Nat :=
  fun a m => if a = account ∧ m = market then change (wei a m) else wei a m

variable {τ : Type}

/-- `I_Solo`: an action is about the account at its index, a Wei delta moves its value to or from
the other address, and a zero target moves all there is. The proxy is an operator of Solo. -/
structure SoloDocumented (assets : Assets τ) (soloMargin : Address) (market : Uint256)
    (operate : List Solo.AccountInfo → List Solo.ActionArgs → World τ → Checked (World τ)) : Prop where
  index : ∀ accounts action w, accounts.length ≤ action.accountId.toNat →
    ∃ reason, operate accounts [action] w = .error reason
  withdraw : ∀ accounts (action : Solo.ActionArgs) account w v,
    accounts[action.accountId.toNat]? = some account → action.primaryMarketId = market →
    action.actionType = .Withdraw → action.amount.denomination = .Wei →
    (action.amount.ref = .Delta ∧ action.amount.sign = false ∧ action.amount.value.toNat = v ∨
      action.amount.ref = .Target ∧ action.amount.value = 0 ∧ v = assets.wei w.ext account market) →
    v ≤ assets.wei w.ext account market → v ≤ assets.ledger w.ext soloMargin →
    ∃ ext, operate accounts [action] w = .ok { w with ext := ext } ∧
      assets.ledger ext = moveTokens soloMargin action.otherAddress v (assets.ledger w.ext) ∧
      assets.wei ext = changeWei account market (fun n => n - v) (assets.wei w.ext)
  deposit : ∀ accounts (action : Solo.ActionArgs) account w v,
    accounts[action.accountId.toNat]? = some account → action.primaryMarketId = market →
    action.actionType = .Deposit → action.amount.denomination = .Wei → action.amount.ref = .Delta →
    action.amount.sign = true → action.amount.value.toNat = v →
    v ≤ assets.ledger w.ext action.otherAddress →
    ∃ ext, operate accounts [action] w = .ok { w with ext := ext } ∧
      assets.ledger ext = moveTokens action.otherAddress soloMargin v (assets.ledger w.ext) ∧
      assets.wei ext = changeWei account market (fun n => n + v) (assets.wei w.ext)

namespace P1SoloBridgeProxy

def within (w : BridgeWorld (World τ)) (out : Checked (World τ)) : Checked (BridgeWorld (World τ)) := do
  let ext ← out
  return { w with ext := ext }

def bridgeExternals (perpetual this : Address) (timestamp : Uint256) (x : Externals τ)
    (balanceOf : (token account : Address) → World τ → Checked Uint256) (solo : SoloCalls τ) :
    BridgeExternals (World τ) where
  getTokenContract := fun p w =>
    if p = perpetual then .ok w.ext.perpetual.token else .error "no contract"
  hasAccountPermissions := fun p account operator w =>
    if p = perpetual then .ok (Perpetual.hasAccountPermissions w.ext.perpetual account operator)
    else .error "no contract"
  getMarketTokenAddress := fun _ market w => solo.getMarketTokenAddress market w.ext
  getIsGlobalOperator := fun _ operator w => solo.getIsGlobalOperator operator w.ext
  getIsLocalOperator := fun _ owner operator w => solo.getIsLocalOperator owner operator w.ext
  balanceOf := fun token account w => balanceOf token account w.ext
  operate := fun _ accounts actions w => within w (solo.operate accounts actions w.ext)
  deposit := fun p account amount w =>
    if p = perpetual then within w (exec x ⟨this,timestamp⟩ (.deposit account amount) w.ext)
    else .error "no contract"
  withdraw := fun p account destination amount w =>
    if p = perpetual then within w (exec x ⟨this,timestamp⟩ (.withdraw account destination amount) w.ext)
    else .error "no contract"

def SettledBalance (x : Externals τ) (msg : Msg) (p : Storage) (account : Address) (b : Balance) : Prop :=
  ∃ (w : World τ) (context : Context) (w₁ w₂ : World τ), w.perpetual = p ∧
    loadContext x msg (w.setStatus ENTERED) = .ok (context,w₁) ∧
    settleAccount context account w₁ = .ok (b,w₂)

structure MovedBetween (assets : Assets τ) (x : Externals τ) (this : Address) (timestamp : Uint256)
    (t : Transfer) (toPerpetual : Bool) (amount : Nat) (w w' : World τ) : Prop where
  solo : assets.wei w'.ext = changeWei ⟨t.account,t.soloAccountNumber⟩ t.soloMarketId
    (fun n => if toPerpetual then n - amount else n + amount) (assets.wei w.ext)
  perpetual : ∃ b, SettledBalance x ⟨this,timestamp⟩ w.perpetual t.account b ∧
    (w'.perpetual.balances t.account).marginInt = b.marginInt + signed toPerpetual amount
  others : ∀ a ≠ t.account, w'.perpetual.balances a = w.perpetual.balances a
  proxy : assets.ledger w'.ext this = assets.ledger w.ext this

structure BridgeSetting (assets : Assets τ) (perpetual this soloMargin token : Address) (market : Uint256)
    (x : Externals τ) (balanceOf : (token account : Address) → World τ → Checked Uint256)
    (solo : SoloCalls τ) : Prop where
  documented : SoloDocumented assets soloMargin market solo.operate
  plain : PlainToken assets.ledger perpetual token x
  pulls : ∀ sender amount w w', x.transferFrom token sender amount w = .ok w' →
    assets.wei w'.ext = assets.wei w.ext
  pushes : ∀ recipient amount w w', x.transfer token recipient amount w = .ok w' →
    assets.wei w'.ext = assets.wei w.ext
  balances : ∀ a w, assets.ledger w.ext a < 2 ^ 256 →
    balanceOf token a w = .ok (BitVec.ofNat 256 (assets.ledger w.ext a))
  notPerpetual : perpetual ≠ this
  notSolo : soloMargin ≠ this

def asked (assets : Assets τ) (t : Transfer) (mode : TransferMode) (w : World τ) : Nat :=
  match mode with
  | .AllToPerpetual => assets.wei w.ext ⟨t.account,t.soloAccountNumber⟩ t.soloMarketId
  | _ => t.amount.toNat

def Funded (assets : Assets τ) (x : Externals τ) (this soloMargin : Address) (timestamp : Uint256)
    (t : Transfer) (mode : TransferMode) (w : World τ) : Prop :=
  if isToPerpetual mode then
    asked assets t mode w ≤ assets.wei w.ext ⟨t.account,t.soloAccountNumber⟩ t.soloMarketId ∧
    asked assets t mode w ≤ assets.ledger w.ext soloMargin ∧
    assets.ledger w.ext this + asked assets t mode w < 2 ^ 256 ∧
    ∀ amount ext, amount.toNat = asked assets t mode w → amount.toNat ≤ assets.ledger ext this →
      ∃ w', exec x ⟨this,timestamp⟩ (.deposit t.account amount) { w with ext := ext } = .ok w'
  else ∃ w', exec x ⟨this,timestamp⟩ (.withdraw t.account this t.amount) w = .ok w'

section
variable {assets : Assets τ} {perpetual this soloMargin token : Address} {market timestamp : Uint256}
  {x : Externals τ} {balanceOf : (token account : Address) → World τ → Checked Uint256}
  {solo : SoloCalls τ} {w w' : World τ}

theorem settledToken {context : Context} {account : Address} {b : Balance} {w₁ w₂ : World τ}
    (load : Loaded (w.setStatus ENTERED) context w₁) (settle : Settled context account w₁ b w₂) :
    w₂.perpetual.token = w.perpetual.token ∧ w₂.ext = w.ext ∧
    ∀ a ≠ account, w₂.perpetual.balances a = w.perpetual.balances a := by
  refine ⟨?_,settle.ext.trans load.ext,fun a other => ?_⟩
  · obtain ⟨_,same,_⟩ := settle.storage
    rw [same, Storage.setBalance, Storage.setLocalIndex, load.storage]
    rfl
  · rw [(settle.elsewhere other).1, load.storage]
    rfl

theorem settledBooked {msg : Msg} {context : Context} {account : Address} {b out : Balance} {w₁ w₂ : World τ}
    {delta : Int} (load : loadContext x msg (w.setStatus ENTERED) = .ok (context,w₁))
    (settle : settleAccount context account w₁ = .ok (b,w₂)) (moved : out.marginInt = b.marginInt + delta) :
    (∃ b, SettledBalance x msg w.perpetual account b ∧
      (Function.update w₂.perpetual.balances account out account).marginInt = b.marginInt + delta) ∧
    ∀ a ≠ account, Function.update w₂.perpetual.balances account out a = w.perpetual.balances a := by
  obtain ⟨_,_,others⟩ := settledToken (loaded load) (settled settle)
  refine ⟨⟨b,⟨w,context,w₁,w₂,rfl,load,settle⟩,?_⟩,fun a other => ?_⟩
  · rw [Function.update_self, moved]
  · rw [Function.update_of_ne other, others a other]

theorem deposits (setting : BridgeSetting assets perpetual this soloMargin token market x balanceOf solo)
    (known : w.perpetual.token = token) {account : Address} {amount : Uint256}
    (ok : exec x ⟨this,timestamp⟩ (.deposit account amount) w = .ok w') :
    (∃ b, SettledBalance x ⟨this,timestamp⟩ w.perpetual account b ∧
      (w'.perpetual.balances account).marginInt = b.marginInt + amount.toNat) ∧
    (∀ a ≠ account, w'.perpetual.balances a = w.perpetual.balances a) ∧
    assets.ledger w'.ext = moveTokens this perpetual amount.toNat (assets.ledger w.ext) ∧
    assets.wei w'.ext = assets.wei w.ext := by
  obtain ⟨_,guarded⟩ := noFinalSettlementOk.mp ok
  obtain ⟨_,mid,body,rfl⟩ := nonReentrantOk.mp guarded
  simp only [Checked.bindOk, Prod.exists, Checked.pureOk] at body
  obtain ⟨context,w₁,load,b,w₂,settle,w₃,pull,out,add,rfl⟩ := body
  obtain ⟨sameToken,sameExt,_⟩ := settledToken (loaded load) (settled settle)
  rw [sameToken, known] at pull
  obtain ⟨ext,rfl,_,ledger⟩ := setting.plain.transferFrom _ _ _ _ pull
  have wei := setting.pulls _ _ _ _ pull
  rw [sameExt] at ledger wei
  obtain ⟨booked,others⟩ := settledBooked load settle (Balance.addToMarginMoved add).margin
  exact ⟨booked,others,ledger,wei⟩

theorem withdraws (setting : BridgeSetting assets perpetual this soloMargin token market x balanceOf solo)
    (known : w.perpetual.token = token) {account : Address} {amount : Uint256}
    (ok : exec x ⟨this,timestamp⟩ (.withdraw account this amount) w = .ok w') :
    (∃ b, SettledBalance x ⟨this,timestamp⟩ w.perpetual account b ∧
      (w'.perpetual.balances account).marginInt = b.marginInt + -(amount.toNat : Int)) ∧
    (∀ a ≠ account, w'.perpetual.balances a = w.perpetual.balances a) ∧
    assets.ledger w'.ext = moveTokens perpetual this amount.toNat (assets.ledger w.ext) ∧
    assets.wei w'.ext = assets.wei w.ext := by
  obtain ⟨_,guarded⟩ := noFinalSettlementOk.mp ok
  obtain ⟨_,mid,body,rfl⟩ := nonReentrantOk.mp guarded
  simp only [Checked.bindOk, Checked.requireOk, exists_const, Prod.exists, Checked.pureOk] at body
  obtain ⟨_,context,w₁,load,b,w₂,settle,w₃,push,out,sub,_,_,_,rfl⟩ := body
  obtain ⟨sameToken,sameExt,_⟩ := settledToken (loaded load) (settled settle)
  rw [sameToken, known] at push
  obtain ⟨ext,rfl,_,ledger⟩ := setting.plain.transfer _ _ _ _ push
  have wei := setting.pushes _ _ _ _ push
  rw [sameExt] at ledger wei
  obtain ⟨booked,others⟩ := settledBooked load settle (Balance.subFromMarginMoved sub).margin
  exact ⟨booked,others,ledger,wei⟩

theorem onlyAccount {t : Transfer} (first : t.soloAccountNumber = 0) :
    ([⟨t.account,t.soloAccountNumber⟩] : List Solo.AccountInfo)[t.soloAccountNumber.toNat]? =
      some ⟨t.account,t.soloAccountNumber⟩ := by
  rw [first]
  rfl

theorem soloWithdraws (timestamp : Uint256)
    (setting : BridgeSetting assets perpetual this soloMargin token market x balanceOf solo)
    {t : Transfer} {mode : TransferMode} (ofMarket : t.soloMarketId = market)
    (first : t.soloAccountNumber = 0) (v : BridgeWorld (World τ))
    (enough : asked assets t mode v.ext ≤ assets.wei v.ext.ext ⟨t.account,t.soloAccountNumber⟩ market)
    (held : asked assets t mode v.ext ≤ assets.ledger v.ext.ext soloMargin)
    (toPerpetual : isToPerpetual mode = true) :
    ∃ ext, doSoloOperation (bridgeExternals perpetual this timestamp x balanceOf solo) this soloMargin t true
        (mode == .AllToPerpetual) v = .ok { v with ext := { v.ext with ext := ext } } ∧
      assets.ledger ext = moveTokens soloMargin this (asked assets t mode v.ext) (assets.ledger v.ext.ext) ∧
      assets.wei ext = changeWei ⟨t.account,t.soloAccountNumber⟩ market
        (fun n => n - asked assets t mode v.ext) (assets.wei v.ext.ext) := by
  let action : Solo.ActionArgs := ⟨.Withdraw,t.soloAccountNumber,⟨false,.Wei,
    if mode == .AllToPerpetual then .Target else .Delta,if mode == .AllToPerpetual then 0 else t.amount⟩,
    t.soloMarketId,0,this,0,[]⟩
  obtain ⟨ext,done,ledger,wei⟩ := setting.documented.withdraw _ action _ v.ext _ (onlyAccount first) ofMarket rfl rfl
    (by
      cases mode with
      | SomeToSolo => cases toPerpetual
      | SomeToPerpetual => exact .inl ⟨rfl,rfl,rfl⟩
      | AllToPerpetual => exact .inr ⟨rfl,rfl,by rw [asked, ofMarket]⟩) enough held
  refine ⟨ext,?_,ledger,wei⟩
  change within v (solo.operate _ [action] v.ext) = _
  rw [done]
  rfl

theorem soloDeposits (timestamp : Uint256)
    (setting : BridgeSetting assets perpetual this soloMargin token market x balanceOf solo)
    {t : Transfer} (ofMarket : t.soloMarketId = market) (first : t.soloAccountNumber = 0)
    (v : BridgeWorld (World τ)) (held : t.amount.toNat ≤ assets.ledger v.ext.ext this) :
    ∃ ext, doSoloOperation (bridgeExternals perpetual this timestamp x balanceOf solo) this soloMargin t false
        false v = .ok { v with ext := { v.ext with ext := ext } } ∧
      assets.ledger ext = moveTokens this soloMargin t.amount.toNat (assets.ledger v.ext.ext) ∧
      assets.wei ext = changeWei ⟨t.account,t.soloAccountNumber⟩ market (fun n => n + t.amount.toNat)
        (assets.wei v.ext.ext) := by
  let action : Solo.ActionArgs :=
    ⟨.Deposit,t.soloAccountNumber,⟨true,.Wei,.Delta,t.amount⟩,t.soloMarketId,0,this,0,[]⟩
  obtain ⟨ext,done,ledger,wei⟩ := setting.documented.deposit _ action _ v.ext _ (onlyAccount first) ofMarket rfl rfl
    rfl rfl rfl held
  refine ⟨ext,?_,ledger,wei⟩
  change within v (solo.operate _ [action] v.ext) = _
  rw [done]
  rfl

theorem movesToPerpetual (setting : BridgeSetting assets perpetual this soloMargin token market x balanceOf solo)
    {t : Transfer} {mode : TransferMode} (ofMarket : t.soloMarketId = market) (served : t.perpetual = perpetual)
    (first : t.soloAccountNumber = 0) (v : BridgeWorld (World τ)) (known : v.ext.perpetual.token = token)
    (toPerpetual : isToPerpetual mode = true) (funded : Funded assets x this soloMargin timestamp t mode v.ext) :
    ∃ amount v', execute (bridgeExternals perpetual this timestamp x balanceOf solo) this soloMargin token t mode
        v = .ok (amount,v') ∧
      MovedBetween assets x this timestamp t true (asked assets t mode v.ext) v.ext v'.ext := by
  subst ofMarket
  rw [Funded, if_pos toPerpetual] at funded
  obtain ⟨enough,held,fits,accepts⟩ := funded
  obtain ⟨ext,operation,ledger,wei⟩ :=
    soloWithdraws timestamp setting rfl first v enough held toPerpetual
  have arrived : assets.ledger ext this = assets.ledger v.ext.ext this + asked assets t mode v.ext := by
    rw [ledger, tokensIn setting.notSolo]
  have initial := setting.balances this v.ext (by omega)
  have final := setting.balances this { v.ext with ext := ext } (by rw [arrived]; exact fits)
  rw [arrived] at final
  have initialNat : (BitVec.ofNat 256 (assets.ledger v.ext.ext this)).toNat = assets.ledger v.ext.ext this := by
    rw [BitVec.toNat_ofNat, Nat.mod_eq_of_lt (by omega)]
  have finalNat : (BitVec.ofNat 256 (assets.ledger v.ext.ext this + asked assets t mode v.ext)).toNat =
      assets.ledger v.ext.ext this + asked assets t mode v.ext := by
    rw [BitVec.toNat_ofNat, Nat.mod_eq_of_lt fits]
  obtain ⟨amount,difference⟩ := SafeMath.subFits
    (a := BitVec.ofNat 256 (assets.ledger v.ext.ext this + asked assets t mode v.ext))
    (b := BitVec.ofNat 256 (assets.ledger v.ext.ext this)) (by omega)
  have exact := SafeMath.subOk.mp difference
  have moved : amount.toNat = asked assets t mode v.ext := by omega
  obtain ⟨w',deposit⟩ := accepts amount ext moved (by omega)
  obtain ⟨perpetualSide,others,paid,books⟩ := deposits (w := { v.ext with ext := ext }) setting known deposit
  refine ⟨amount,{ v with ext := w' },?_,?_,?_,others,?_⟩
  · rw [executeToPerpetual toPerpetual]
    simp only [Checked.bindOk]
    refine ⟨_,initial,_,operation,_,final,_,difference,_,?_,rfl⟩
    change (if t.perpetual = perpetual then _ else _) = _
    rw [if_pos served, deposit]
    rfl
  · simp only [books, wei, if_true]
  · rw [moved] at perpetualSide
    exact perpetualSide
  · change assets.ledger w'.ext this = _
    rw [paid, tokensOut setting.notPerpetual, moved]
    simp only [arrived, Nat.add_sub_cancel]

theorem movesToSolo (setting : BridgeSetting assets perpetual this soloMargin token market x balanceOf solo)
    {t : Transfer} (ofMarket : t.soloMarketId = market) (served : t.perpetual = perpetual)
    (first : t.soloAccountNumber = 0) (v : BridgeWorld (World τ)) (known : v.ext.perpetual.token = token)
    (funded : Funded assets x this soloMargin timestamp t .SomeToSolo v.ext) :
    ∃ amount v', execute (bridgeExternals perpetual this timestamp x balanceOf solo) this soloMargin token t
        .SomeToSolo v = .ok (amount,v') ∧
      MovedBetween assets x this timestamp t false t.amount.toNat v.ext v'.ext := by
  subst ofMarket
  obtain ⟨w',withdrawal⟩ := funded
  obtain ⟨perpetualSide,others,paid,books⟩ := withdraws setting known withdrawal
  have arrived : assets.ledger w'.ext this = assets.ledger v.ext.ext this + t.amount.toNat := by
    rw [paid, tokensIn setting.notPerpetual]
  obtain ⟨ext,operation,ledger,wei⟩ := soloDeposits timestamp setting rfl first
    { v with ext := w' } (by rw [arrived]; exact Nat.le_add_left _ _)
  refine ⟨t.amount,{ v with ext := { w' with ext := ext } },?_,?_,perpetualSide,others,?_⟩
  · simp only [execute, Checked.bindOk]
    refine ⟨{ v with ext := w' },?_,_,operation,rfl⟩
    change (if t.perpetual = perpetual then _ else _) = _
    rw [if_pos served, withdrawal]
    rfl
  · simp only [wei, books, Bool.false_eq_true, if_false]
  · change assets.ledger ext this = _
    rw [ledger, tokensOut setting.notSolo]
    simp only [arrived, Nat.add_sub_cancel]

theorem strangeNumber (setting : BridgeSetting assets perpetual this soloMargin token market x balanceOf solo)
    {t : Transfer} (number : t.soloAccountNumber ≠ 0) (v v' : BridgeWorld (World τ)) (isWithdrawal toZero : Bool) :
    doSoloOperation (bridgeExternals perpetual this timestamp x balanceOf solo) this soloMargin t isWithdrawal
      toZero v ≠ .ok v' := by
  intro ok
  have outside : 1 ≤ t.soloAccountNumber.toNat :=
    Nat.pos_of_ne_zero fun zero => number (BitVec.eq_of_toNat_eq zero)
  obtain ⟨reason,failed⟩ := setting.documented.index [⟨t.account,t.soloAccountNumber⟩]
    ⟨if isWithdrawal then .Withdraw else .Deposit,t.soloAccountNumber,
      ⟨!isWithdrawal,.Wei,if toZero then .Target else .Delta,if toZero then 0 else t.amount⟩,
      t.soloMarketId,0,this,0,[]⟩ v.ext outside
  change within v (solo.operate _ _ v.ext) = _ at ok
  rw [failed] at ok
  cases ok

theorem executesAtZero (setting : BridgeSetting assets perpetual this soloMargin token market x balanceOf solo)
    {asset : Address} {t : Transfer} {mode : TransferMode} {v v' : BridgeWorld (World τ)} {amount : Uint256}
    (ok : execute (bridgeExternals perpetual this timestamp x balanceOf solo) this soloMargin asset t mode v =
      .ok (amount,v')) : t.soloAccountNumber = 0 := by
  by_contra number
  cases direction : isToPerpetual mode with
  | true =>
    simp only [executeToPerpetual direction, Checked.bindOk] at ok
    obtain ⟨_,_,_,operation,_⟩ := ok
    exact strangeNumber setting number _ _ _ _ operation
  | false =>
    obtain rfl : mode = .SomeToSolo := by cases mode <;> first | rfl | cases direction
    simp only [execute, Checked.bindOk] at ok
    obtain ⟨_,_,_,operation,_⟩ := ok
    exact strangeNumber setting number _ _ _ _ operation

theorem startedKeeps {crypto : Crypto} {msg : Msg} {t : Transfer} {signature : TypedSignature.Signature}
    {mode : TransferMode} {operator : Bool} {w w₁ : BridgeWorld (World τ)}
    (started : Started crypto (bridgeExternals perpetual this timestamp x balanceOf solo) msg t signature w
      token mode operator w₁) : w₁.ext = w.ext ∧ t.perpetual = perpetual ∧ w.ext.perpetual.token = token := by
  refine ⟨?_,?_⟩
  · have permission := started.permission
    unfold verifyPermission at permission
    split at permission
    · cases Except.ok.inj permission
      rfl
    · obtain ⟨_,_,last⟩ := Checked.bindOk.mp permission
      cases Checked.pureOk.mp last
      rfl
  · have asset := started.asset
    simp only [bridgeExternals] at asset
    split at asset
    · rename_i served
      exact ⟨served,Except.ok.inj asset⟩
    · cases asset

end

def BridgesAsAsked (assets : Assets τ) (x : Externals τ) (bridge : BridgeExternals (World τ)) (crypto : Crypto)
    (this : Address) (msg : Msg) (t : Transfer) (signature : TypedSignature.Signature) (mode : TransferMode)
    (w : BridgeWorld (World τ)) : Prop :=
  ∃ out w', bridgeTransfer crypto bridge this msg t signature w = .ok (out,w') ∧
    out.toNat = asked assets t mode w.ext ∧
    MovedBetween assets x this msg.timestamp t (isToPerpetual mode) (asked assets t mode w.ext) w.ext w'.ext

/-- A transfer of the Solo account of number 0 moves exactly what it asks for, but it returns 0. One of
any other number reverts. -/
theorem bridgesAsAsked (assets : Assets τ) (perpetual this token : Address) (x : Externals τ)
    (balanceOf : (token account : Address) → World τ → Checked Uint256) (solo : SoloCalls τ) (crypto : Crypto)
    (msg : Msg) (t : Transfer) (signature : TypedSignature.Signature) (mode : TransferMode) (operator : Bool)
    (w w₁ : BridgeWorld (World τ))
    (setting : BridgeSetting assets perpetual this w.bridge.soloMargin token t.soloMarketId x balanceOf solo)
    (permitted : Started crypto (bridgeExternals perpetual this msg.timestamp x balanceOf solo) msg t signature w
      token mode operator w₁)
    (funded : Funded assets x this w.bridge.soloMargin msg.timestamp t mode w.ext) :
    let bridge := bridgeExternals perpetual this msg.timestamp x balanceOf solo
    (BridgesAsAsked assets x bridge crypto this msg t signature mode w ↔
      t.soloAccountNumber = 0 ∧ asked assets t mode w.ext = 0) ∧
    (t.soloAccountNumber = 0 → ∃ w', bridgeTransfer crypto bridge this msg t signature w = .ok (0,w') ∧
      MovedBetween assets x this msg.timestamp t (isToPerpetual mode) (asked assets t mode w.ext) w.ext w'.ext) := by
  obtain ⟨same,served,known⟩ := startedKeeps permitted
  have moves : t.soloAccountNumber = 0 → ∃ w', bridgeTransfer crypto
      (bridgeExternals perpetual this msg.timestamp x balanceOf solo) this msg t signature w = .ok (0,w') ∧
      MovedBetween assets x this msg.timestamp t (isToPerpetual mode) (asked assets t mode w.ext) w.ext
        w'.ext := by
    intro first
    rw [← same] at known funded ⊢
    cases direction : isToPerpetual mode with
    | true =>
      obtain ⟨amount,v',executed,moved⟩ := movesToPerpetual setting rfl served first w₁ known direction funded
      exact ⟨_,bridged.mpr ⟨token,mode,operator,w₁,amount,v',permitted,executed,rfl,rfl⟩,moved⟩
    | false =>
      obtain rfl : mode = .SomeToSolo := by cases mode <;> first | rfl | cases direction
      obtain ⟨amount,v',executed,moved⟩ := movesToSolo setting rfl served first w₁ known funded
      exact ⟨_,bridged.mpr ⟨token,_,operator,w₁,amount,v',permitted,executed,rfl,rfl⟩,moved⟩
  refine ⟨⟨?_,?_⟩,moves⟩
  · rintro ⟨out,w',ok,returned,_⟩
    obtain ⟨_,_,_,_,_,_,_,executed,rfl,_⟩ := bridged.mp ok
    exact ⟨executesAtZero setting executed,returned.symm⟩
  · rintro ⟨first,nothing⟩
    obtain ⟨w',ok,moved⟩ := moves first
    exact ⟨0,w',ok,nothing.symm,moved⟩

/-! Bridge 11 between Solo 6 and contract 7, with token 8. Account 1 has 40 on contract 7. -/

structure SampleAssets where
  ledger : Address → Nat
  wei : Solo.AccountInfo → Uint256 → Nat

def SampleAssets.assets : Assets SampleAssets := ⟨ledger,wei⟩

def SampleAssets.pay (sender recipient : Address) (amount : Nat) (w : World SampleAssets) :
    Checked (World SampleAssets) := do
  Checked.require (amount ≤ w.ext.ledger sender) "insufficient balance"
  return { w with ext := { w.ext with ledger := moveTokens sender recipient amount w.ext.ledger } }

def SampleAssets.book (account : Solo.AccountInfo) (market : Uint256) (change : Nat → Nat)
    (w : World SampleAssets) : World SampleAssets :=
  { w with ext := { w.ext with wei := changeWei account market change w.ext.wei } }

open SampleAssets

def sampleExternals : Externals SampleAssets where
  getPrice := fun _ _ => .ok BaseMath.BASE
  getFunding := fun _ _ _ => .ok (true,0)
  balanceOf := fun _ w => do
    Checked.require (w.ext.ledger 7 < 2 ^ 256) "balance overflow"
    return BitVec.ofNat 256 (w.ext.ledger 7)
  transferFrom := fun _ sender amount w => pay sender 7 amount.toNat w
  transfer := fun _ recipient amount w => pay 7 recipient amount.toNat w
  trade := fun _ _ w => .ok (⟨0,0,false,0⟩,w)

def sampleOperate (accounts : List Solo.AccountInfo) (actions : List Solo.ActionArgs)
    (w : World SampleAssets) : Checked (World SampleAssets) :=
  match actions with
  | [action] =>
      match accounts[action.accountId.toNat]? with
      | none => .error "invalid opcode"
      | some account =>
          let held := w.ext.wei account action.primaryMarketId
          let value := if action.amount.ref = .Target then held else action.amount.value.toNat
          match action.actionType with
          | .Withdraw => do
              Checked.require (value ≤ held) "insufficient Wei"
              let w ← pay 6 action.otherAddress value w
              return book account action.primaryMarketId (fun n => n - value) w
          | .Deposit => do
              let w ← pay action.otherAddress 6 value w
              return book account action.primaryMarketId (fun n => n + value) w
          | _ => .error "unused action"
  | _ => .error "one action at a time"

def sampleSolo : SoloCalls SampleAssets where
  getMarketTokenAddress := fun _ _ => .ok 8
  getIsGlobalOperator := fun _ _ => .ok false
  getIsLocalOperator := fun _ _ _ => .ok false
  operate := sampleOperate

def sampleBalanceOf (_token account : Address) (w : World SampleAssets) : Checked Uint256 :=
  .ok (BitVec.ofNat 256 (w.ext.ledger account))

theorem payOk {sender recipient : Address} {amount : Nat} {w w' : World SampleAssets} :
    pay sender recipient amount w = .ok w' ↔ amount ≤ w.ext.ledger sender ∧
      { w with ext := { w.ext with ledger := moveTokens sender recipient amount w.ext.ledger } } = w' := by
  simp only [pay, Checked.bindOk, Checked.requireOk, exists_const, Checked.pureOk]

theorem sampleDocumented (market : Uint256) : SoloDocumented assets 6 market sampleOperate where
  index := by
    intro accounts action w outside
    exact ⟨"invalid opcode",by rw [sampleOperate, List.getElem?_eq_none outside]⟩
  withdraw := by
    intro accounts action account w v named ofMarket kind _ amount enough held
    have value : (if action.amount.ref = .Target then w.ext.wei account action.primaryMarketId
        else action.amount.value.toNat) = v := by
      obtain ⟨delta,_,rfl⟩ | ⟨target,_,rfl⟩ := amount
      · rw [if_neg (by rw [delta]; decide)]
      · rw [if_pos target, ofMarket]
        rfl
    refine ⟨⟨moveTokens 6 action.otherAddress v w.ext.ledger,
      changeWei account market (fun n => n - v) w.ext.wei⟩,?_,rfl,rfl⟩
    simp only [sampleOperate, named, value, kind, Checked.bindOk, Checked.requireOk, exists_const]
    subst ofMarket
    exact ⟨enough,_,payOk.mpr ⟨held,rfl⟩,rfl⟩
  deposit := by
    intro accounts action account w v named ofMarket kind _ delta _ value held
    refine ⟨⟨moveTokens action.otherAddress 6 v w.ext.ledger,
      changeWei account market (fun n => n + v) w.ext.wei⟩,?_,rfl,rfl⟩
    subst ofMarket
    simp only [sampleOperate, named, delta, kind, value, reduceCtorEq, if_false, Checked.bindOk]
    exact ⟨_,payOk.mpr ⟨held,rfl⟩,rfl⟩

theorem sampleSetting (market : Uint256) :
    BridgeSetting assets 7 11 6 8 market sampleExternals sampleBalanceOf sampleSolo where
  documented := sampleDocumented market
  plain := by
    refine ⟨?_,?_,?_⟩
    · intro w held ok
      simp only [sampleExternals, Checked.bindOk, Checked.requireOk, exists_const, Checked.pureOk] at ok
      obtain ⟨small,rfl⟩ := ok
      exact (BitVec.toNat_ofNat _ _).trans (Nat.mod_eq_of_lt small)
    · intro sender amount w w' ok
      obtain ⟨enough,rfl⟩ := payOk.mp ok
      exact ⟨_,rfl,enough,rfl⟩
    · intro recipient amount w w' ok
      obtain ⟨enough,rfl⟩ := payOk.mp ok
      exact ⟨_,rfl,enough,rfl⟩
  pulls := by
    intro sender amount w w' ok
    obtain ⟨_,rfl⟩ := payOk.mp ok
    rfl
  pushes := by
    intro recipient amount w w' ok
    obtain ⟨_,rfl⟩ := payOk.mp ok
    rfl
  balances := fun _ _ _ => rfl
  notPerpetual := by decide
  notSolo := by decide

def sampleBridge : BridgeWorld (World SampleAssets) :=
  let calls : List (Msg × Entry) := [(⟨3,100⟩,.initializeV1 8 4 5 BaseMath.BASE),
    (⟨3,100⟩,.setGlobalOperator 11 true),(⟨1,110⟩,.deposit 1 40)]
  let deployed : World SampleAssets := ⟨Storage.deployed 3,[],⟨fun _ => 100,fun _ _ => 100⟩⟩
  ⟨⟨NOT_ENTERED,6,0,fun _ => false,[]⟩,calls.foldl (fun w c => perform sampleExternals c.1 c.2 w) deployed⟩

def sampleTransfer (number : Uint256) : Transfer := ⟨1,7,number,2,5,1⟩

def sampleBridgeExternals : BridgeExternals (World SampleAssets) :=
  bridgeExternals 7 11 120 sampleExternals sampleBalanceOf sampleSolo

theorem sampleStarted (number : Uint256) : Started Crypto.sample sampleBridgeExternals ⟨1,120⟩
    (sampleTransfer number) ⟨0,0,0⟩ sampleBridge 8 .SomeToSolo true (setStatus sampleBridge ENTERED) where
  free := by decide
  asset := rfl
  option := by
    have mode : ((1 : Bytes32) &&& OPTIONS_MASK_TRANSFER_MODE).toNat = 1 := by decide
    rw [getTransferMode, show (sampleTransfer number).options = 1 from rfl, mode]
    rfl
  market := rfl
  sender := rfl
  permission := rfl

theorem sampleFunded (number : Uint256) : Funded assets sampleExternals 11 6 120 (sampleTransfer number)
    .SomeToSolo sampleBridge.ext :=
  Checked.okExists (x := exec sampleExternals ⟨11,120⟩ (.withdraw 1 11 5) sampleBridge.ext) (by decide +kernel)

theorem sampleMoved : ∃ w', bridgeTransfer Crypto.sample sampleBridgeExternals 11 ⟨1,120⟩ (sampleTransfer 0)
      ⟨0,0,0⟩ sampleBridge = .ok (0,w') ∧
    MovedBetween assets sampleExternals 11 120 (sampleTransfer 0) false 5 sampleBridge.ext w'.ext :=
  (bridgesAsAsked assets 7 11 8 sampleExternals sampleBalanceOf sampleSolo Crypto.sample ⟨1,120⟩
    (sampleTransfer 0) ⟨0,0,0⟩ .SomeToSolo true sampleBridge _ (sampleSetting 2) (sampleStarted 0)
    (sampleFunded 0)).2 rfl

theorem sampleNotAsAsked : BridgeSetting assets 7 11 6 8 2 sampleExternals sampleBalanceOf sampleSolo ∧
    (∀ number, Started Crypto.sample sampleBridgeExternals ⟨1,120⟩ (sampleTransfer number) ⟨0,0,0⟩ sampleBridge 8
        .SomeToSolo true (setStatus sampleBridge ENTERED) ∧
      Funded assets sampleExternals 11 6 120 (sampleTransfer number) .SomeToSolo sampleBridge.ext) ∧
    (∀ result, bridgeTransfer Crypto.sample sampleBridgeExternals 11 ⟨1,120⟩ (sampleTransfer 1) ⟨0,0,0⟩
      sampleBridge ≠ .ok result) ∧
    ¬ BridgesAsAsked assets sampleExternals sampleBridgeExternals Crypto.sample 11 ⟨1,120⟩
      (sampleTransfer 0) ⟨0,0,0⟩ .SomeToSolo sampleBridge := by
  refine ⟨sampleSetting 2,fun number => ⟨sampleStarted number,sampleFunded number⟩,?_,?_⟩
  · rintro ⟨out,w'⟩ ok
    obtain ⟨_,_,_,_,_,_,_,executed,_⟩ := bridged.mp ok
    exact absurd (executesAtZero (sampleSetting 2) executed) (by decide)
  · rintro ⟨out,w',ok,returned,_⟩
    obtain ⟨_,_,_,_,_,_,_,_,rfl,_⟩ := bridged.mp ok
    cases returned

end P1SoloBridgeProxy
end Perpetual
