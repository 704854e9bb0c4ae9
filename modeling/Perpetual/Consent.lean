import Perpetual.AccountLedger
import Perpetual.DecreaseOnly
import Perpetual.Strangers
import Perpetual.TradeCauses

/-! What can happen to an account that takes part in nothing: nobody with its permission calls, and
no order of its is presented with its approval or its signature. -/
namespace Perpetual
open Settlement

def TraderSites.Consents (sites : TraderSites) (crypto : Crypto) (account : Address) (presented : List UInt8) : Prop :=
  ∃ data, Orders.decodeTradeData presented = .ok data ∧ data.order.maker = account ∧
    (sites.orders.Vouched crypto data ∨ sites.inverseOrders.Vouched crypto data)

inductive UnconsentedStep {σ : Type} (crypto : Crypto) (sites : TraderSites) (account : Address) :
    World σ → World σ → Prop where
  | call (w : World σ) (x : Externals σ) (msg : Msg) (entry : Entry) (four : FourTraders crypto sites x msg)
      (stranger : hasAccountPermissions w.perpetual account msg.sender = false)
      (unsigned : ∀ data ∈ entry.tradeData, ¬ sites.Consents crypto account data) :
      UnconsentedStep crypto sites account w (perform x msg entry w)
  | elsewhere (w : World σ) (ext : σ) : UnconsentedStep crypto sites account w { w with ext := ext }

/-- Closer to zero, and on the same side. -/
def Narrowed (before after : Int) : Prop := 0 ≤ after ∧ after ≤ before ∨ before ≤ after ∧ after ≤ 0

def Log.sparesBut (deleveraging account : Address) : Log → Prop
  | .trade maker taker trader _ _ _ _ _ => maker = account ∨ taker = account → trader = deleveraging
  | l => l.takesFrom account = false

def Unharmed {σ : Type} (deleveraging account : Address) (w w' : World σ) : Prop :=
  LogsOf (Log.sparesBut deleveraging account) w w' ∧
    Narrowed (w.perpetual.balances account).positionInt (w'.perpetual.balances account).positionInt

theorem Narrowed.refl (p : Int) : Narrowed p p := by
  rw [Narrowed]
  omega

theorem Narrowed.trans {p q r : Int} (first : Narrowed p q) (last : Narrowed q r) : Narrowed p r := by
  rw [Narrowed] at first last ⊢
  omega

theorem Shrunk.narrowed {b b' : Balance} {amount : Nat} (h : Shrunk b b' amount) :
    Narrowed b.positionInt b'.positionInt := by
  obtain ⟨size,notDown,notUp⟩ := h.decreased
  rw [Narrowed]
  omega

section
variable {σ : Type} {crypto : Crypto} {sites : TraderSites} {account : Address} {x : Externals σ} {msg : Msg}
variable {w mid w' : World σ}

namespace Unharmed
variable {deleveraging : Address}

theorem refl (w : World σ) : Unharmed deleveraging account w w := ⟨.quiet rfl,.refl _⟩

theorem trans (first : Unharmed deleveraging account w mid) (last : Unharmed deleveraging account mid w') :
    Unharmed deleveraging account w w' := ⟨first.1.trans last.1,first.2.trans last.2⟩

theorem untraded {sender : Address} {entry : Entry} (kept : AccountKept account w w')
    (logs : LogsOf (Log.comesFrom sender entry) w w') (spares : entry.takesFrom account sender = false)
    (other : ∀ accounts trades, entry ≠ .trade accounts trades) : Unharmed deleveraging account w w' := by
  obtain ⟨new,logged,comes⟩ := logs
  obtain ⟨same,kept⟩ := kept
  obtain rfl : new = same := List.append_cancel_left (logged.symm.trans kept.logged)
  have quiet : ∀ l ∈ new, l.trades account = false ∧ l.paysOut account = false ∧
      l.sparesBut deleveraging account := by
    intro l mem
    have spared := (comes l mem).spares spares
    have came := comes l mem
    cases l with
    | trade =>
      obtain ⟨accounts,trades,same⟩ := came
      exact absurd same (other accounts trades)
    | withdrawFinalSettlement paid amount balance => exact ⟨rfl,spared,spared⟩
    | _ => exact ⟨rfl,rfl,spared⟩
  have stays := kept.positionStays (fun l mem => (quiet l mem).2.1) fun l mem => (quiet l mem).1
  refine ⟨⟨new,logged,fun l mem => (quiet l mem).2.2⟩,?_⟩
  rw [stays]
  exact .refl _

end Unharmed

theorem Cause.unconsented {perpetual : Storage} {sender maker taker trader : Address} {price : Uint256}
    {presented : List UInt8} {result : TradeResult}
    (cause : Cause crypto sites (observe perpetual) sender price presented maker taker result trader)
    (stranger : hasAccountPermissions perpetual account sender = false)
    (unsigned : ¬ sites.Consents crypto account presented) (ours : maker = account ∨ taker = account) :
    trader = sites.deleveraging ∧ Takeover (perpetual.balances maker) price.toNat result ∧
      (perpetual.balances taker).positionIsPositive = (!result.isBuy) ∧
      result.positionAmount.toNat ≤ (perpetual.balances taker).position.toNat := by
  have ordered {site : OrdersSite} {data : TradeData}
      (given : Ordered crypto site (observe perpetual) sender maker taker presented data)
      (vouched : sites.orders.Vouched crypto data ∨ sites.inverseOrders.Vouched crypto data) : False := by
    rcases ours with rfl | rfl
    · exact unsigned ⟨data,given.decoded,given.ofMaker,vouched⟩
    · have permitted : hasAccountPermissions perpetual taker sender = true := given.permitted
      rw [stranger] at permitted
      cases permitted
  cases cause with
  | order given => exact (ordered given (.inl given.vouched)).elim
  | inverseOrder given => exact (ordered given (.inr given.vouched)).elim
  -- A liquidator is a global operator, and so permitted for every account.
  | liquidation operator =>
    have global : perpetual.globalOperators sender = true := operator
    simp [hasAccountPermissions, global] at stranger
  | deleveraging under opposite bounded takeover => exact ⟨rfl,takeover,opposite,bounded⟩

namespace FourTraders

theorem passSpares (four : FourTraders crypto sites x msg) {context : Context} {accounts : List Address}
    {s s' : Trade.Batch σ} {tradeArg : TradeArg} (inStep : Trade.InStep context accounts s)
    (stranger : hasAccountPermissions s.world.perpetual account msg.sender = false)
    (unsigned : ¬ sites.Consents crypto account tradeArg.data)
    (ok : Trade.tradeOne x msg context accounts s tradeArg = .ok s') :
    Unharmed sites.deleveraging account s.world s'.world ∧
      hasAccountPermissions s'.world.perpetual account msg.sender = false := by
  simp only [Trade.tradeOne, Checked.bindOk, Checked.requireOk, Checked.atOk, Prod.exists, exists_const] at ok
  obtain ⟨_,maker,atMaker,taker,atTaker,result,called,trade,ok⟩ := ok
  obtain ⟨ext,rfl,answered⟩ := four.answers trade
  split at ok
  · cases Checked.pureOk.mp ok
    exact ⟨⟨.quiet rfl,.refl _⟩,stranger⟩
  · rename_i different
    simp only [Checked.bindOk, Checked.atOk, Prod.exists, Checked.pureOk] at ok
    obtain ⟨m,foundMaker,t,foundTaker,m',t',exchange,rfl⟩ := ok
    -- The traders judge by the storage, and what is exchanged is the batch's copy of it.
    obtain rfl := inStep.stored atMaker foundMaker
    obtain rfl := inStep.stored atTaker foundTaker
    have moved := Trade.applied exchange
    have consented := answered.cause.unconsented stranger unsigned
    refine ⟨⟨.emitted rfl fun ours => (consented ours).1,?_⟩,stranger⟩
    change Narrowed _
      (Function.update (Function.update s.world.perpetual.balances maker m') taker t' account).positionInt
    by_cases asTaker : account = taker
    · subst asTaker
      obtain ⟨_,_,opposite,bounded⟩ := consented (.inr rfl)
      rw [Function.update_self]
      refine (shrunk bounded ?_).narrowed
      rw [moved.takerPosition, opposite]
      cases result.isBuy <;> simp [sub_eq_add_neg]
    · rw [Function.update_of_ne asTaker]
      by_cases asMaker : account = maker
      · subst asMaker
        obtain ⟨_,takeover,_⟩ := consented (.inl rfl)
        rw [Function.update_self]
        exact (takeover.leftPosition moved).narrowed
      · rw [Function.update_of_ne asMaker]
        exact .refl _

theorem tradeSpares (four : FourTraders crypto sites x msg) {accounts : List Address} {trades : List TradeArg}
    (stranger : hasAccountPermissions w.perpetual account msg.sender = false)
    (unsigned : ∀ data ∈ trades.map TradeArg.data, ¬ sites.Consents crypto account data)
    (ok : Trade.trade x msg accounts trades w = .ok w') : Unharmed sites.deleveraging account w w' := by
  cases batchTraded ok with
  | @done context initialBalances w₁ w₂ batch live unique load settle start ran verified =>
    have logs : LogsOf (Log.comesFrom msg.sender (.setOracle 0)) w w₂ := openingLogged load settle
    have kept : AccountKept account w w₂ := (statusAccounted w ENTERED).trans
      ((loadAccounted (loaded load)).trans (settleAllAccounted settle))
    have opened : Unharmed sites.deleveraging account w w₂ :=
      .untraded kept logs rfl fun _ _ same => by cases same
    have still : hasAccountPermissions w₂.perpetual account msg.sender = false := by
      have same := (settledAll settle).same (fun w => hasAccountPermissions w.perpetual account msg.sender)
        fun settle => by
          obtain ⟨index,same,_⟩ := settle.storage
          rw [same]
          rfl
      rw [same, (loaded load).storage]
      exact stranger
    have loop := Checked.loopKeeps
      (P := fun s : Trade.Batch σ => Trade.InStep context accounts s ∧
        hasAccountPermissions s.world.perpetual account msg.sender = false ∧
        Unharmed sites.deleveraging account w₂ s.world)
      (fun s tradeArg s' mem before pass => by
        obtain ⟨inStep,stranger,unharmed⟩ := before
        have next := passSpares four inStep stranger (unsigned _ (List.mem_map_of_mem mem)) pass
        exact ⟨Trade.inStepPass four.honest.traders unique inStep pass,next.2,unharmed.trans next.1⟩)
      ran ⟨start,still,.refl w₂⟩
    exact opened.trans loop.2.2

theorem execSpares (four : FourTraders crypto sites x msg) {entry : Entry}
    (stranger : hasAccountPermissions w.perpetual account msg.sender = false)
    (unsigned : ∀ data ∈ entry.tradeData, ¬ sites.Consents crypto account data)
    (ok : exec x msg entry w = .ok w') : Unharmed sites.deleveraging account w w' := by
  cases entry with
  | trade accounts trades => exact four.tradeSpares stranger unsigned ok
  | _ =>
    exact .untraded (execAccounted four.honest ok) (execLogged four.honest ok) (unpermittedSpares stranger ok)
      fun _ _ same => by cases same

end FourTraders

/-- Without its consent nothing is taken from an account, and it is traded with only to deleverage it or
others: its position comes closer to zero, if it moves at all, and never changes sides. -/
theorem nothingWithoutConsent (run : Relation.ReflTransGen (UnconsentedStep crypto sites account) w w') :
    ∃ new, w'.logs = w.logs ++ new ∧ (∀ l ∈ new, l.sparesBut sites.deleveraging account) ∧
      Narrowed (w.perpetual.balances account).positionInt (w'.perpetual.balances account).positionInt := by
  suffices Unharmed sites.deleveraging account w w' by
    obtain ⟨⟨new,logged,spares⟩,narrowed⟩ := this
    exact ⟨new,logged,spares,narrowed⟩
  induction run with
  | refl => exact .refl w
  | tail _ last ih =>
    refine ih.trans ?_
    cases last with
    | call x msg entry four stranger unsigned =>
      unfold perform
      split
      · rename_i ok
        exact four.execSpares stranger unsigned ok
      · exact .refl _
    | elsewhere ext => exact .refl _

end

def deleveragingOnly (timestamp : Uint256) : Externals DeleveragingContract where
  getPrice := fun _ _ => .ok (20 * BaseMath.BASE)
  getFunding := fun _ _ _ => .ok (true,0)
  balanceOf := fun _ _ => .ok 0
  transferFrom := fun _ _ _ w => .ok w
  transfer := fun _ _ _ w => .ok w
  trade := fun trader call w =>
    if trader = 12 then do
      let (result,deleveraging) ← P1Deleveraging.trade ⟨7,timestamp⟩ w.perpetual call w.ext
      return (result,{ w with ext := deleveraging })
    else .error "no trader"

theorem deleveragingOnlyFour (timestamp : Uint256) :
    FourTraders Crypto.sample sampleSites (deleveragingOnly timestamp) ⟨2,timestamp⟩ where
  caller := rfl
  prices := fun same => (Except.ok.inj same).symm
  answers := by
    intro trader call w result w' ok
    simp only [deleveragingOnly] at ok
    split at ok
    · rename_i here
      subst here
      simp only [Checked.bindOk, Prod.exists, Checked.pureOk, Prod.mk.injEq] at ok
      obtain ⟨_,deleveraging,taken,rfl,rfl⟩ := ok
      exact ⟨_,rfl,.deleveraging taken⟩
    · cases ok
  pulls := fun _ _ _ _ _ ok => .ofSame ok
  pushes := fun _ _ _ _ _ ok => .ofSame ok

def sampleUnderwater : World DeleveragingContract where
  perpetual := { Storage.deployed 4 with
    initialized := true
    balances := Function.update (fun _ => ⟨true,true,1000,5⟩) 3 ⟨true,false,100,7⟩
    globalOperators := fun operator => operator = 12
    minCollateral := 11 * 10 ^ 17 }
  logs := []
  ext := ⟨4,7,fun _ => 0,2,[]⟩

def sampleOffset : Entry := .trade [1,3] [⟨0,1,12,Abi.word 3 ++ Abi.word 0 ++ Abi.word 0⟩]

theorem sampleUnconsented : ∃ w' : World DeleveragingContract,
    exec (deleveragingOnly 100) ⟨2,100⟩ sampleOffset sampleUnderwater = .ok w' ∧
    ∃ new, w'.logs = sampleUnderwater.logs ++ new ∧ (∀ l ∈ new, l.sparesBut 12 3) ∧
      Narrowed (sampleUnderwater.perpetual.balances 3).positionInt (w'.perpetual.balances 3).positionInt := by
  have succeeds : (exec (deleveragingOnly 100) ⟨2,100⟩ sampleOffset sampleUnderwater).isOk = true := by
    decide +kernel
  obtain ⟨w',ok⟩ := Checked.okExists succeeds
  have performed : perform (deleveragingOnly 100) ⟨2,100⟩ sampleOffset sampleUnderwater = w' := by rw [perform, ok]
  have unsigned : ∀ data ∈ sampleOffset.tradeData, ¬ sampleSites.Consents Crypto.sample 3 data := by
    rintro presented mem ⟨data,decoded,_⟩
    cases List.mem_singleton.mp mem
    have short : Orders.decodeTradeData (Abi.word 3 ++ Abi.word 0 ++ Abi.word 0) = .error "" := by decide +kernel
    rw [short] at decoded
    cases decoded
  have run : Relation.ReflTransGen (UnconsentedStep Crypto.sample sampleSites 3) sampleUnderwater w' :=
    performed ▸ .single (.call _ _ _ _ (deleveragingOnlyFour 100) (by decide) unsigned)
  exact ⟨w',ok,nothingWithoutConsent run⟩

end Perpetual
