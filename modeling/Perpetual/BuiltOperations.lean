import Perpetual.ClientTrades
import Perpetual.LiquidationLimits

/-! Operations put together of fills, liquidations and deleveragings: what a commit sends, as P1Trade and
each of the three traders read it. -/
namespace Perpetual
namespace Client

def boolToBytes32 (b : Bool) : Text := '0' :: 'x' :: (List.replicate 63 '0' ++ [if b then '1' else '0'])

def makeLiquidateTradeData (amount : Decimal) (isBuy allOrNothing : Bool) : Checked Text := do
  let amountData ← bnToBytes32 amount
  return combineHexStrings [amountData,boolToBytes32 isBuy,boolToBytes32 allOrNothing]

def makeDeleverageTradeData : Decimal → Bool → Bool → Checked Text := makeLiquidateTradeData

structure TraderTexts where
  p1Orders : Text
  p1Liquidation : Text
  p1Deleveraging : Text

structure TraderTexts.Known (crypto : Crypto) (contracts : TraderTexts) : Prop where
  p1Orders : ∃ a, Ethers.getAddress crypto contracts.p1Orders = .ok a
  p1Liquidation : ∃ a, Ethers.getAddress crypto contracts.p1Liquidation = .ok a
  p1Deleveraging : ∃ a, Ethers.getAddress crypto contracts.p1Deleveraging = .ok a

namespace TradeOperation

def fillSignedOrder (crypto : Crypto) (contracts : TraderTexts) (taker : Text) (order : SignedOrder)
    (amount : Decimal) (price fee : BaseValue) (op : TradeOperation) : Checked TradeOperation := do
  let tradeData ← order.fillToTradeData crypto amount price fee
  op.addTradeArg ⟨order.maker,taker,contracts.p1Orders,tradeData⟩

def liquidate (contracts : TraderTexts) (maker taker : Text) (amount : Decimal) (isBuy allOrNothing : Bool)
    (op : TradeOperation) : Checked TradeOperation := do
  let data ← makeLiquidateTradeData amount isBuy allOrNothing
  op.addTradeArg ⟨maker,taker,contracts.p1Liquidation,data⟩

def deleverage (contracts : TraderTexts) (maker taker : Text) (amount : Decimal) (isBuy allOrNothing : Bool)
    (op : TradeOperation) : Checked TradeOperation := do
  let data ← makeDeleverageTradeData amount isBuy allOrNothing
  op.addTradeArg ⟨maker,taker,contracts.p1Deleveraging,data⟩

end TradeOperation

inductive Addition where
  | fillSignedOrder (taker : Text) (order : SignedOrder) (amount : Decimal) (price fee : BaseValue)
  | liquidate (maker taker : Text) (amount : Decimal) (isBuy allOrNothing : Bool)
  | deleverage (maker taker : Text) (amount : Decimal) (isBuy allOrNothing : Bool)

namespace Addition

def call (crypto : Crypto) (contracts : TraderTexts) (op : TradeOperation) : Addition → Checked TradeOperation
  | .fillSignedOrder taker order amount price fee =>
      op.fillSignedOrder crypto contracts taker order amount price fee
  | .liquidate maker taker amount isBuy allOrNothing => op.liquidate contracts maker taker amount isBuy allOrNothing
  | .deleverage maker taker amount isBuy allOrNothing => op.deleverage contracts maker taker amount isBuy allOrNothing

def maker : Addition → Text
  | .fillSignedOrder _ order _ _ _ => order.maker
  | .liquidate maker _ _ _ _ => maker
  | .deleverage maker _ _ _ _ => maker

def taker : Addition → Text
  | .fillSignedOrder taker _ _ _ _ => taker
  | .liquidate _ taker _ _ _ => taker
  | .deleverage _ taker _ _ _ => taker

def trader (contracts : TraderTexts) : Addition → Text
  | .fillSignedOrder .. => contracts.p1Orders
  | .liquidate .. => contracts.p1Liquidation
  | .deleverage .. => contracts.p1Deleveraging

theorem traderKnown {crypto : Crypto} {contracts : TraderTexts} (known : contracts.Known crypto) (addition : Addition) :
    ∃ a, Ethers.getAddress crypto (addition.trader contracts) = .ok a := by
  cases addition with
  | fillSignedOrder => exact known.p1Orders
  | liquidate => exact known.p1Liquidation
  | deleverage => exact known.p1Deleveraging

structure WholeAmount (amount : Decimal) : Prop where
  whole : amount.isInteger = true
  nonneg : 0 ≤ amount.value
  small : amount.rounded < 2 ^ 256

/-- The order with its signature, and the fill, are in the ranges of what they are encoded as. -/
structure FillFits (crypto : Crypto) (order : SignedOrder) (amount : Decimal) (price fee : BaseValue) : Prop where
  encodes : order.Fits (addressOf order.maker) (addressOf order.taker)
  makerCase : LetterCase crypto order.maker
  takerCase : LetterCase crypto order.taker
  amount : InUint256 (BigNumber.toFixed0 amount.value)
  price : InUint256 price.number.toSolidity
  fee : InUint256 fee.number.toSolidity

def Fits (crypto : Crypto) (addition : Addition) : Prop :=
  Prefixed addition.maker ∧ Prefixed addition.taker ∧ match addition with
    | .fillSignedOrder _ order amount price fee => FillFits crypto order amount price fee
    | .liquidate _ _ amount _ _ => WholeAmount amount
    | .deleverage _ _ amount _ _ => WholeAmount amount

structure OrderArrives (order : SignedOrder) (decoded : Order) : Prop where
  amount : (decoded.amount.toNat : ℤ) = BigNumber.toFixed0 order.amount.value
  limitPrice : (decoded.limitPrice.toNat : ℤ) = order.limitPrice.number.toSolidity
  triggerPrice : (decoded.triggerPrice.toNat : ℤ) = order.triggerPrice.number.toSolidity
  limitFee : (decoded.limitFee.toNat : ℤ) = order.limitFee.number.toSolidity
  maker : decoded.maker = addressOf order.maker
  taker : decoded.taker = addressOf order.taker
  expiration : (decoded.expiration.toNat : ℤ) = BigNumber.toFixed0 order.expiration.value
  salt : decoded.flags.toNat / 16 = order.salt.rounded % 16 ^ 63

def Decoded (addition : Addition) (data : List UInt8) : Prop :=
  match addition with
  | .fillSignedOrder _ order amount price fee => ∃ tradeData, Orders.decodeTradeData data = .ok tradeData ∧
      OrderArrives order tradeData.order ∧ ReadAs order amount price fee tradeData
  | .liquidate _ _ amount isBuy allOrNothing =>
      P1Liquidation.decodeTradeData data = .ok ⟨BitVec.ofNat 256 amount.rounded,isBuy,allOrNothing⟩
  | .deleverage _ _ amount isBuy allOrNothing =>
      P1Deleveraging.decodeTradeData data = .ok ⟨BitVec.ofNat 256 amount.rounded,isBuy,allOrNothing⟩

end Addition

theorem boolWord (b : Bool) :
    HexText.bytes (List.replicate 63 '0' ++ [if b then '1' else '0']) = some (Abi.word (if b then 1 else 0)) := by
  cases b <;> decide +kernel

theorem amountWord {amount : Decimal} (fits : Addition.WholeAmount amount) : ∃ digits,
    bnToBytes32 amount = .ok ('0' :: 'x' :: digits) ∧
      HexText.bytes digits = some (Abi.word (BitVec.ofNat 256 amount.rounded)) := by
  obtain ⟨plain,_⟩ := plainSign fits.nonneg
  obtain ⟨hex,number⟩ := HexText.hexDigits amount.rounded
  have text : toString16 amount = Nat.toDigits 16 amount.rounded := by
    rw [toString16, plain, Decimal.signed, if_neg Bool.false_ne_true]
  have short : (Nat.toDigits 16 amount.rounded).length ≤ 64 :=
    (Nat.length_toDigits_le_iff (by decide) (by decide)).mpr (fits.small.trans_eq (by norm_num))
  have padded : HexText.IsHex (padStart (Nat.toDigits 16 amount.rounded) 64) := hexAppend (hexZeros _) hex
  have long : (padStart (Nat.toDigits 16 amount.rounded) 64).length = 64 := by
    rw [padStart, List.length_append, List.length_replicate]
    omega
  have total : HexText.value (padStart (Nat.toDigits 16 amount.rounded) 64) = amount.rounded := by
    rw [padStart, HexText.valueAppend, HexText.valueZeros, number, Nat.zero_mul, Nat.zero_add]
  obtain ⟨data,reads⟩ := HexText.bytesTotal padded (by rw [long])
  obtain ⟨length,value⟩ := HexText.bytesValue reads
  refine ⟨padStart (Nat.toDigits 16 amount.rounded) 64,?_,?_⟩
  · simp only [bnToBytes32, Checked.bindOk, Checked.requireOk, exists_const, Checked.pureOk, text,
      and_true]
    exact fits.whole
  · have number : Abi.natOf data = amount.rounded := value.trans total
    rw [reads, ← number, Abi.wordOfNat (by omega)]

theorem takeoverTexts {amount : Decimal} (fits : Addition.WholeAmount amount) (isBuy allOrNothing : Bool) :
    ∃ text bytes, makeLiquidateTradeData amount isBuy allOrNothing = .ok text ∧
      Ethers.arrayify text = .ok bytes ∧
      P1Liquidation.decodeTradeData bytes = .ok ⟨BitVec.ofNat 256 amount.rounded,isBuy,allOrNothing⟩ := by
  obtain ⟨digits,written,word⟩ := amountWord fits
  refine ⟨combineHexStrings ['0' :: 'x' :: digits,boolToBytes32 isBuy,boolToBytes32 allOrNothing],_,?_,?_,
    P1Liquidation.decodeEncode _ isBuy allOrNothing⟩
  · simp only [makeLiquidateTradeData, Checked.bindOk, Checked.pureOk]
    exact ⟨_,written,rfl⟩
  · have joined : combineHexStrings ['0' :: 'x' :: digits,boolToBytes32 isBuy,boolToBytes32 allOrNothing] =
        '0' :: 'x' :: (digits ++ ((List.replicate 63 '0' ++ [if isBuy then '1' else '0']) ++
          (List.replicate 63 '0' ++ [if allOrNothing then '1' else '0']))) := by
      simp only [combineHexStrings, List.flatMap_cons, List.flatMap_nil, List.append_nil]
      rfl
    rw [joined, Ethers.arrayify, HexText.bytesAppend word, HexText.bytesAppend (boolWord isBuy), boolWord]
    simp only [Option.map_some, List.append_assoc]

namespace Addition

theorem FillFits.written {crypto : Crypto} {order : SignedOrder} {amount : Decimal} {price fee : BaseValue}
    (fits : FillFits crypto order amount price fee) (taker : Text) : ∃ text bytes,
      order.fillToTradeData crypto amount price fee = .ok text ∧ Ethers.arrayify text = .ok bytes ∧
      (Addition.fillSignedOrder taker order amount price fee).Decoded bytes := by
  obtain ⟨solidityOrder,encodes,_,orderData⟩ := SignedOrder.orderEncoded crypto fits.encodes ⟨0,0,0⟩
  obtain ⟨text,data,written,bytes,same,fillAmount,fillPrice,fillFee,fillSign,signature⟩ :=
    fillTexts fits.encodes amount price fee (orderData fits.makerCase fits.takerCase) fits.amount fits.price fits.fee
  have encoded := Perpetual.SignedOrder.encoded.mp encodes
  have salt : order.salt.value = ((order.salt.rounded : ℤ) : ℚ) := by
    rw [(plainSign fits.encodes.salt).2, integerRounded fits.encodes.whole, Int.cast_natCast]
  refine ⟨text,_,written,bytes,data,TradeData.decodeEncode data,?_,?_,?_,?_,fillSign,fillAmount,fillPrice,fillFee,
    signature⟩ <;> rw [same]
  · exact ⟨encoded.amount,encoded.limitPrice,encoded.triggerPrice,encoded.limitFee,encoded.maker,encoded.taker,
      encoded.expiration,Perpetual.SignedOrder.saltFlagged salt encoded.flags⟩
  · exact Perpetual.SignedOrder.sideKept encodes
  · exact Perpetual.SignedOrder.decreaseKept encodes
  · exact Perpetual.SignedOrder.feeSideKept encodes

structure Adds (crypto : Crypto) (contracts : TraderTexts) (addition : Addition) (arg : TempTradeArg) : Prop where
  call : ∀ op, addition.call crypto contracts op = op.addTradeArg arg
  maker : arg.maker = addition.maker
  taker : arg.taker = addition.taker
  trader : arg.trader = addition.trader contracts
  data : ∃ bytes, Ethers.arrayify arg.data = .ok bytes ∧ addition.Decoded bytes

theorem Fits.adds {crypto : Crypto} {addition : Addition} (contracts : TraderTexts) (fits : addition.Fits crypto) :
    ∃ arg, addition.Adds crypto contracts arg := by
  obtain ⟨_,_,inRange⟩ := fits
  cases addition with
  | fillSignedOrder taker order amount price fee =>
    obtain ⟨text,bytes,written,reads,decoded⟩ := FillFits.written inRange taker
    refine ⟨⟨order.maker,taker,contracts.p1Orders,text⟩,fun op => ?_,rfl,rfl,rfl,bytes,reads,decoded⟩
    rw [call, TradeOperation.fillSignedOrder, written, Checked.okBind]
  | liquidate maker taker amount isBuy allOrNothing =>
    obtain ⟨text,bytes,written,reads,decoded⟩ := takeoverTexts inRange isBuy allOrNothing
    refine ⟨⟨maker,taker,contracts.p1Liquidation,text⟩,fun op => ?_,rfl,rfl,rfl,bytes,reads,decoded⟩
    rw [call, TradeOperation.liquidate, written, Checked.okBind]
  | deleverage maker taker amount isBuy allOrNothing =>
    obtain ⟨text,bytes,written,reads,decoded⟩ := takeoverTexts inRange isBuy allOrNothing
    refine ⟨⟨maker,taker,contracts.p1Deleveraging,text⟩,fun op => ?_,rfl,rfl,rfl,bytes,reads,decoded⟩
    rw [call, TradeOperation.deleverage, makeDeleverageTradeData, written, Checked.okBind]

theorem allAdd {crypto : Crypto} (contracts : TraderTexts) {additions : List Addition}
    (fits : ∀ addition ∈ additions, addition.Fits crypto) :
    ∃ args, List.Forall₂ (Adds crypto contracts) additions args ∧ ∀ arg ∈ args, TradeOperation.Spelled arg := by
  induction additions with
  | nil => exact ⟨[],.nil,List.forall_mem_nil _⟩
  | cons first rest ih =>
    obtain ⟨now,later⟩ := List.forall_mem_cons.mp fits
    obtain ⟨arg,adds⟩ := now.adds contracts
    obtain ⟨args,others,spelled⟩ := ih later
    exact ⟨arg::args,.cons adds others,
      List.forall_mem_cons.mpr ⟨⟨adds.maker ▸ now.1,adds.taker ▸ now.2.1⟩,spelled⟩⟩

theorem calls {crypto : Crypto} {contracts : TraderTexts} {additions : List Addition} {args : List TempTradeArg}
    (adds : List.Forall₂ (Adds crypto contracts) additions args) (op : TradeOperation) :
    additions.foldlM (fun op addition => addition.call crypto contracts op) op =
      args.foldlM TradeOperation.addTradeArg op := by
  induction adds generalizing op with
  | nil => rfl
  | cons first rest ih =>
    rw [List.foldlM_cons, List.foldlM_cons, first.call]
    exact Checked.bindCongr fun next _ => ih next

end Addition

namespace TradeOperation

theorem indexSent {addresses : List Address} {index : ℤ} {account : Address} (points : PointsTo addresses index account)
    (few : addresses.length < 2 ^ 53 - 1) :
    ∃ x, Ethers.uint256OfNumber index = .ok x ∧ addresses[x.toNat]? = some account := by
  obtain ⟨n,rfl,found⟩ := points
  have inside : n < addresses.length := (List.getElem?_eq_some_iff.mp found).1
  have small : n < 2 ^ 256 := by omega
  have number : (BitVec.ofNat 256 n).toNat = n := by rw [BitVec.toNat_ofNat, Nat.mod_eq_of_lt small]
  refine ⟨BitVec.ofNat 256 n,?_,by rw [number, found]⟩
  simp only [Ethers.uint256OfNumber, Checked.bindOk, Checked.requireOk, exists_const]
  refine ⟨?_,SignedOrder.uint256Ok.mpr (by rw [number])⟩
  rw [abs_of_nonneg (Int.natCast_nonneg n)]
  omega

theorem Kept.sent {crypto : Crypto} {addresses : List Address} {arg : TempTradeArg} {t : TradeArg}
    (kept : Kept addresses arg t) (few : addresses.length < 2 ^ 53 - 1) {trader : Address} {data : List UInt8}
    (isTrader : Ethers.getAddress crypto arg.trader = .ok trader) (isData : Ethers.arrayify arg.data = .ok data) :
    ∃ sent, encodeTradeArg crypto t = .ok sent ∧ addresses[sent.makerIndex.toNat]? = some (addressOf arg.maker) ∧
      addresses[sent.takerIndex.toNat]? = some (addressOf arg.taker) ∧ sent.trader = trader ∧ sent.data = data := by
  obtain ⟨makerIndex,maker,isMaker⟩ := indexSent kept.maker few
  obtain ⟨takerIndex,taker,isTaker⟩ := indexSent kept.taker few
  refine ⟨⟨takerIndex,makerIndex,trader,data⟩,?_,isMaker,isTaker,rfl,rfl⟩
  simp only [encodeTradeArg, Checked.bindOk, Checked.pureOk]
  exact ⟨_,taker,_,maker,_,kept.trader ▸ isTrader,_,kept.data ▸ isData,rfl⟩

theorem commitSending {τ : Type} {crypto : Crypto} {op : TradeOperation} {call : TradeCall}
    (pending : op.committed = false) (some' : op.trades ≠ [])
    (encoded : encodeTrade crypto op.accounts op.tradeArgs = .ok call) (sendTransaction : TradeCall → Checked τ) :
    (op.commit crypto sendTransaction).2 = sendTransaction call := by
  rw [commit, if_neg (by rw [pending]; exact Bool.false_ne_true), if_neg some', encoded, Checked.okBind]
  cases sendTransaction call <;> rfl

theorem accountsFew {args : List TempTradeArg} {op : TradeOperation} (trades : op.trades = args.map lowered) :
    op.accounts.length ≤ 2 * args.length := by
  have distinct : op.accounts.Nodup := (accountsSorted op).imp fun less same => less.ne same
  have listed : op.accounts ⊆ (op.trades.flatMap fun t => [t.maker,t.taker]) := by
    intro text mem
    simpa [accounts] using mem
  have bound := (distinct.subperm listed).length_le
  have twice : (op.trades.flatMap fun t => [t.maker,t.taker]).length = 2 * op.trades.length := by
    simp [List.length_flatMap, Nat.mul_comm]
  rw [twice, trades, List.length_map] at bound
  exact bound

end TradeOperation

namespace Addition

structure Reaches (crypto : Crypto) (contracts : TraderTexts) (addresses : List Address) (addition : Addition)
    (t : Perpetual.TradeArg) : Prop where
  maker : addresses[t.makerIndex.toNat]? = some (addressOf addition.maker)
  taker : addresses[t.takerIndex.toNat]? = some (addressOf addition.taker)
  trader : Ethers.getAddress crypto (addition.trader contracts) = .ok t.trader
  data : addition.Decoded t.data

theorem reached {crypto : Crypto} {contracts : TraderTexts} {addresses : List Address}
    (known : contracts.Known crypto) (few : addresses.length < 2 ^ 53 - 1) {additions : List Addition}
    {args : List TempTradeArg} {tradeArgs : List TradeArg} (adds : List.Forall₂ (Adds crypto contracts) additions args)
    (kept : List.Forall₂ (TradeOperation.Kept addresses) args tradeArgs) :
    ∃ trades, tradeArgs.mapM (encodeTradeArg crypto) = .ok trades ∧
      List.Forall₂ (Reaches crypto contracts addresses) additions trades := by
  simp only [Checked.mapMOk]
  induction adds generalizing tradeArgs with
  | nil =>
    cases kept
    exact ⟨[],.nil,.nil⟩
  | @cons addition arg _ _ first rest ih =>
    cases kept with
    | cons firstKept restKept =>
      obtain ⟨trades,encoded,others⟩ := ih restKept
      obtain ⟨trader,isTrader⟩ := traderKnown known addition
      obtain ⟨bytes,reads,decoded⟩ := first.data
      obtain ⟨sent,one,maker,taker,rfl,rfl⟩ := firstKept.sent few (first.trader ▸ isTrader) reads
      exact ⟨sent::trades,.cons one encoded,.cons ⟨first.maker ▸ maker,first.taker ▸ taker,isTrader,decoded⟩ others⟩

end Addition

theorem sortedVerified {addresses : List Address} (some' : addresses ≠ [])
    (sorted : addresses.Pairwise fun a b => a.toNat < b.toNat) : Trade.verifyAccounts addresses = .ok () := by
  cases addresses with
  | nil => exact absurd rfl some'
  | cons first rest => exact Trade.sortedAccepted sorted

/-- Whatever is added to an operation arrives: the commit sends one call, its accounts pass the check
of P1Trade, and each trade finds its maker, its taker and a trader that decodes what was asked for. -/
theorem operationArrives (crypto : Crypto) (contracts : TraderTexts) (additions : List Addition)
    (some' : additions ≠ []) (fits : ∀ addition ∈ additions, addition.Fits crypto)
    (known : contracts.Known crypto) (few : 2 * additions.length < 2 ^ 53 - 1) : ∃ op call,
      additions.foldlM (fun op addition => addition.call crypto contracts op) TradeOperation.initiate = .ok op ∧
      (∀ {τ : Type} (sendTransaction : TradeCall → Checked τ),
        (op.commit crypto sendTransaction).2 = sendTransaction call) ∧
      Trade.verifyAccounts call.accounts = .ok () ∧
      List.Forall₂ (Addition.Reaches crypto contracts call.accounts) additions call.trades := by
  obtain ⟨args,adds,spelled⟩ := Addition.allAdd contracts fits
  have length : args.length = additions.length := adds.length_eq.symm
  let op : TradeOperation := ⟨args.map TradeOperation.lowered,false⟩
  have trades : op.trades = args.map TradeOperation.lowered := rfl
  have sorted := TradeOperation.addressesSorted trades spelled
  have bound := TradeOperation.accountsFew trades
  have someArgs : args ≠ [] := fun none => some' (List.length_eq_zero_iff.mp (by rw [← length, none]; rfl))
  have fewAddresses : (op.accounts.map addressOf).length < 2 ^ 53 - 1 := by
    rw [List.length_map]
    omega
  obtain ⟨sent,encoded,reached⟩ := Addition.reached known fewAddresses adds (TradeOperation.argsKept trades spelled)
  refine ⟨op,⟨op.accounts.map addressOf,sent⟩,?_,fun send => ?_,?_,reached⟩
  · rw [Addition.calls adds]
    exact TradeOperation.added args rfl
  · refine TradeOperation.commitSending rfl ?_ ?_ send
    · rw [trades]
      exact fun none => someArgs (List.map_eq_nil_iff.mp none)
    · simp only [encodeTrade, Checked.bindOk, Checked.pureOk]
      exact ⟨_,TradeOperation.addressesRead crypto trades spelled,_,encoded,rfl⟩
  · refine sortedVerified (fun none => ?_) sorted
    obtain ⟨arg,mem⟩ := List.exists_mem_of_ne_nil args someArgs
    have listed := (TradeOperation.addressesExact trades spelled (addressOf arg.maker)).mpr ⟨arg,mem,.inl rfl⟩
    rw [show op.accounts.map addressOf = [] from none] at listed
    cases listed

def sampleAdditions : List Addition :=
  let order := sampleOrder 'a' 'b'
  [.fillSignedOrder order.taker order (.make false 4 0) ⟨.make false 5 0⟩ ⟨.zero true⟩,
    .liquidate order.maker order.taker (.make false 3 0) true false,
    .deleverage order.maker order.taker (.make false 12 2) false true]

def sampleTraders : TraderTexts :=
  ⟨'0' :: 'x' :: List.replicate 40 '1','0' :: 'x' :: List.replicate 40 '2','0' :: 'x' :: List.replicate 40 '3'⟩

theorem sampleArrives : ∃ op call,
    sampleAdditions.foldlM (fun op addition => addition.call .sample sampleTraders op) TradeOperation.initiate =
      .ok op ∧ (∀ {τ : Type} (sendTransaction : TradeCall → Checked τ),
      (op.commit .sample sendTransaction).2 = sendTransaction call) ∧
    Trade.verifyAccounts call.accounts = .ok () ∧
    List.Forall₂ (Addition.Reaches .sample sampleTraders call.accounts) sampleAdditions call.trades := by
  have maker : Prefixed (sampleOrder 'a' 'b').maker := by decide +kernel
  have taker : Prefixed (sampleOrder 'a' 'b').taker := by decide +kernel
  have encodes : (sampleOrder 'a' 'b').Fits (addressOf (sampleOrder 'a' 'b').maker)
      (addressOf (sampleOrder 'a' 'b').taker) := sampleFits ⟨rfl,by decide +kernel,by decide +kernel⟩
  refine operationArrives .sample sampleTraders sampleAdditions (List.cons_ne_nil _ _) (fun addition mem => ?_)
    ⟨Checked.okExists ?_,Checked.okExists ?_,Checked.okExists ?_⟩ (by decide)
  · simp only [sampleAdditions, List.mem_cons, List.not_mem_nil, or_false] at mem
    rcases mem with rfl | rfl | rfl
    · exact ⟨maker,taker,encodes,.inl (by decide +kernel),.inl (by decide +kernel),fixed0Fits (by decide +kernel),
        solidityFits (by decide +kernel),solidityFits (by decide +kernel)⟩
    · exact ⟨maker,taker,by decide +kernel,Decimal.magnitudeNonneg (.make false 3 0),by decide +kernel⟩
    · exact ⟨maker,taker,by decide +kernel,Decimal.magnitudeNonneg (.make false 12 2),by decide +kernel⟩
  · decide +kernel
  · decide +kernel
  · decide +kernel

end Client
end Perpetual
