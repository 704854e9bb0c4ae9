import Mathlib.Order.Monotone.Basic
import Perpetual.AdjustedPrices
import Perpetual.BatchMerging
import Perpetual.MirrorSigners

/-! The prices that PerpetualV1 gets from a `P1MirrorOracle` through `P1MakerOracle`, with or without a
`P1OracleInverter` before it, and how far a minority of the signers can move them. -/
namespace Perpetual
open Settlement
variable {σ : Type}

inductive RouterLog where
  | routeSet (sender oracle : Address)
  | adjustmentSet (oracle : Address) (adjustment : Uint256)
  deriving DecidableEq, Repr

structure PriceRouter where
  owner : Address
  router : Address → Address
  adjustments : Address → Uint256
  logs : List RouterLog

namespace P1MakerOracle

def adjustment (oracle : Address) (s : PriceRouter) : Uint256 :=
  if s.adjustments oracle = 0 then BaseMath.base else s.adjustments oracle

def getPrice (read : Address → Checked Bytes32) (sender : Address) (s : PriceRouter) : Checked Uint256 := do
  let oracle := s.router sender
  Checked.require (oracle ≠ 0) "Sender not authorized to get price"
  let rawPrice ← read oracle
  let result ← BaseMath.baseMul rawPrice (adjustment oracle s)
  Checked.require (result ≠ 0) "Oracle would return zero price"
  return result

def setRoute (msg : Msg) (sender oracle : Address) (s : PriceRouter) : Checked PriceRouter := do
  Checked.require (msg.sender = s.owner) "Ownable: caller is not the owner"
  return { s with router := Function.update s.router sender oracle, logs := s.logs ++ [.routeSet sender oracle] }

def setAdjustment (msg : Msg) (oracle : Address) (adjustment : Uint256) (s : PriceRouter) : Checked PriceRouter := do
  Checked.require (msg.sender = s.owner) "Ownable: caller is not the owner"
  return { s with
    adjustments := Function.update s.adjustments oracle adjustment
    logs := s.logs ++ [.adjustmentSet oracle adjustment] }

end P1MakerOracle

namespace P1MirrorOracleETHUSD

def WAT : Bytes32 := BitVec.ofNat 256 (Abi.natOf (Abi.ascii "ETHUSD" ++ List.replicate 26 0))

end P1MirrorOracleETHUSD

structure PriceFeed where
  router : PriceRouter
  mirror : MirrorOracleContract

structure FeedSetting where
  perpetual : Address
  routerAt : Address
  deployed : routerAt ≠ 0
  mirrorAt : Address
  inverterAt : Address
  adjustmentExponent : BitVec 96
  others : Address → Checked Bytes32

namespace FeedSetting
variable (setting : FeedSetting)

def routerPrice (sender : Address) (feed : PriceFeed) : Checked Uint256 :=
  P1MakerOracle.getPrice (fun oracle =>
    if oracle = setting.mirrorAt then P1MirrorOracle.read ⟨setting.routerAt,0⟩ feed.mirror
    else setting.others oracle) sender feed.router

def price (oracle : Address) (feed : PriceFeed) : Checked Uint256 :=
  if oracle = setting.routerAt then setting.routerPrice setting.perpetual feed
  else if oracle = setting.inverterAt then
    P1OracleInverter.getPrice (fun other =>
      if other = setting.routerAt then setting.routerPrice setting.inverterAt feed else .error "no contract")
      setting.perpetual (ReaderOracle.constructor setting.routerAt setting.perpetual setting.adjustmentExponent)
  else .error "no contract"

def asker (oracle : Address) : Address :=
  if oracle = setting.routerAt then setting.perpetual else setting.inverterAt

def scaled (feed : PriceFeed) (val : Nat) : Nat :=
  val * (P1MakerOracle.adjustment setting.mirrorAt feed.router).toNat / 10 ^ 18

def scale (oracle : Address) (feed : PriceFeed) (val : Nat) : Nat :=
  if oracle = setting.routerAt then setting.scaled feed val
  else 10 ^ 36 / max 1 (setting.scaled feed val) *
    (ReaderOracle.powerOfTen setting.adjustmentExponent.toNat).toNat / 10 ^ 18

end FeedSetting

/-! What is done to the mirror and to the router, and the pokes that were accepted. -/

structure FeedPoke where
  before : MirrorOracleContract
  timestamp : Uint256
  args : P1MirrorOracle.PokeArgs

def P1MirrorOracle.MirrorCall.isPoke : MirrorCall → Bool
  | .poke _ => true
  | _ => false

inductive FeedStep (crypto : Crypto) (wat : Bytes32) (feed : PriceFeed) : List FeedPoke → PriceFeed → Prop where
  | poke {c' : MirrorOracleContract} (timestamp : Uint256) (args : P1MirrorOracle.PokeArgs)
      (ok : P1MirrorOracle.poke crypto wat timestamp args feed.mirror = .ok c') :
      FeedStep crypto wat feed [⟨feed.mirror,timestamp,args⟩] { feed with mirror := c' }
  | mirror {c' : MirrorOracleContract} (tx : P1MirrorOracle.Transaction) (other : tx.call.isPoke = false)
      (ok : P1MirrorOracle.execute crypto wat tx feed.mirror = .ok c') :
      FeedStep crypto wat feed [] { feed with mirror := c' }
  | route {s : PriceRouter} (msg : Msg) (sender oracle : Address)
      (ok : P1MakerOracle.setRoute msg sender oracle feed.router = .ok s) :
      FeedStep crypto wat feed [] { feed with router := s }
  | adjustment {s : PriceRouter} (msg : Msg) (oracle : Address) (adjustment : Uint256)
      (ok : P1MakerOracle.setAdjustment msg oracle adjustment feed.router = .ok s) :
      FeedStep crypto wat feed [] { feed with router := s }
  | owner (newOwner : Address) :
      FeedStep crypto wat feed [] { feed with router := { feed.router with owner := newOwner } }

inductive FeedRun (crypto : Crypto) (wat : Bytes32) (start : PriceFeed) : List FeedPoke → PriceFeed → Prop where
  | none : FeedRun crypto wat start [] start
  | more {pokes new : List FeedPoke} {feed feed' : PriceFeed} (before : FeedRun crypto wat start pokes feed)
      (next : FeedStep crypto wat feed new feed') : FeedRun crypto wat start (new ++ pokes) feed'

section
variable {crypto : Crypto} {wat : Bytes32} {start feed feed' : PriceFeed} {pokes more : List FeedPoke}

theorem FeedRun.trans (first : FeedRun crypto wat start pokes feed) (last : FeedRun crypto wat feed more feed') :
    FeedRun crypto wat start (more ++ pokes) feed' := by
  induction last with
  | none => exact first
  | more before next ih =>
    rw [List.append_assoc]
    exact .more ih next

theorem valueKept {tx : P1MirrorOracle.Transaction} {c c' : MirrorOracleContract} (other : tx.call.isPoke = false)
    (ok : P1MirrorOracle.execute crypto wat tx c = .ok c') : c'.val = c.val := by
  unfold P1MirrorOracle.execute at ok
  cases call : tx.call with
  | poke args =>
    rw [call] at other
    cases other
  | lift signers =>
    rw [call] at ok
    refine Checked.loopKeeps (P := fun s : MirrorOracleContract => s.val = c.val) ?_ ok rfl
    intro s signer s' _ kept one
    simp only [P1MirrorOracle.liftOne, Checked.bindOk, Checked.requireOk, exists_const, Checked.pureOk] at one
    obtain ⟨_,_,_,_,rfl⟩ := one
    exact kept
  | drop signers =>
    rw [call] at ok
    refine Checked.loopKeeps (P := fun s : MirrorOracleContract => s.val = c.val) ?_ ok rfl
    intro s signer s' _ kept one
    simp only [P1MirrorOracle.dropOne, Checked.bindOk, Checked.requireOk, exists_const, Checked.pureOk] at one
    obtain ⟨_,_,_,_,rfl⟩ := one
    exact kept
  | setBar =>
    rw [call] at ok
    obtain ⟨_,_,last⟩ := Checked.bindOk.mp ok
    cases Checked.pureOk.mp last
    rfl
  | setReaders msg authorized readers =>
    rw [call] at ok
    simp only [P1MirrorOracle.setReaders, Checked.bindOk, Checked.requireOk, exists_const, Checked.pureOk] at ok
    obtain ⟨owner,rfl⟩ := ok
    clear call owner
    induction readers generalizing c with
    | nil => rfl
    | cons reader rest ih => exact ih (c := P1MirrorOracle.setReader authorized c reader)
  | owner newOwner =>
    rw [call] at ok
    cases ok
    rfl

def Latest (crypto : Crypto) (wat : Bytes32) (pokes : List FeedPoke) (c : MirrorOracleContract) : Prop :=
  c.val = 0 ∨ ∃ last rest c', pokes = last::rest ∧
    P1MirrorOracle.poke crypto wat last.timestamp last.args last.before = .ok c' ∧ c.val = c'.val

theorem runLatest (empty : start.mirror.val = 0) (run : FeedRun crypto wat start pokes feed) :
    Latest crypto wat pokes feed.mirror := by
  induction run with
  | none => exact .inl empty
  | more before next ih =>
    cases next with
    | poke timestamp args ok => exact .inr ⟨_,_,_,rfl,ok,rfl⟩
    | mirror tx other ok =>
      rw [Latest, valueKept other ok]
      exact ih
    | route | adjustment | owner => exact ih

end

/-- The messages of a poke were signed by different authorised signers after the poke before it. With fewer
than half of the signers dishonest, what `scale` makes of the honest values encloses the price. -/
def SignedPrice (crypto : Crypto) (wat : Bytes32) (poke : FeedPoke) (scale : Nat → Nat) (price : Nat) : Prop :=
  ∃ messages, P1MirrorOracle.Read poke.args poke.before.bar.toNat messages ∧
    (messages.map (P1MirrorOracle.Message.signer crypto wat)).Nodup ∧
    (∀ m ∈ messages, poke.before.orcl (m.signer crypto wat) = 1 ∧ poke.before.age.toNat < m.age.toNat) ∧
    ∀ honest : Address → Bool,
      2 * (messages.map (P1MirrorOracle.Message.signer crypto wat)).countP (fun a => !honest a) < messages.length →
      (∀ m ∈ messages, honest (m.signer crypto wat) = true → m.val.toNat < 2 ^ 128) →
      (∃ m ∈ messages, honest (m.signer crypto wat) = true ∧ scale m.val.toNat ≤ price) ∧
      ∃ m ∈ messages, honest (m.signer crypto wat) = true ∧ price ≤ scale m.val.toNat

theorem signedAs {crypto : Crypto} {wat : Bytes32} {poke : FeedPoke} {c' : MirrorOracleContract} {scale : Nat → Nat}
    (ordered : Monotone scale ∨ Antitone scale)
    (ok : P1MirrorOracle.poke crypto wat poke.timestamp poke.args poke.before = .ok c') :
    SignedPrice crypto wat poke scale (scale c'.val.toNat) := by
  obtain ⟨messages,poked⟩ := P1MirrorOracle.poked ok
  refine ⟨messages,poked.read,poked.checks.signers,?_,fun honest minority narrow => ?_⟩
  · exact fun m mem => ⟨poked.checks.authorised m mem,poked.checks.fresh m mem⟩
  · obtain ⟨⟨low,inLow,honestLow,below⟩,high,inHigh,honestHigh,above⟩ := poked.enclosed honest minority narrow
    rcases ordered with keeps | turns
    · exact ⟨⟨low,inLow,honestLow,keeps below⟩,high,inHigh,honestHigh,keeps above⟩
    · exact ⟨⟨high,inHigh,honestHigh,turns above⟩,low,inLow,honestLow,turns below⟩

namespace FeedSetting
variable {setting : FeedSetting} {oracle sender : Address} {feed : PriceFeed} {price : Uint256}

theorem scaledMonotone (setting : FeedSetting) (feed : PriceFeed) : Monotone (setting.scaled feed) := by
  intro a b order
  exact Nat.div_le_div_right (Nat.mul_le_mul_right _ order)

theorem scaleOrdered (setting : FeedSetting) (oracle : Address) (feed : PriceFeed) :
    Monotone (setting.scale oracle feed) ∨ Antitone (setting.scale oracle feed) := by
  by_cases direct : oracle = setting.routerAt
  · left
    intro a b order
    rw [scale, scale, if_pos direct, if_pos direct]
    exact setting.scaledMonotone feed order
  · right
    intro a b order
    rw [scale, scale, if_neg direct, if_neg direct]
    have larger : max 1 (setting.scaled feed a) ≤ max 1 (setting.scaled feed b) :=
      max_le_max_left 1 (setting.scaledMonotone feed order)
    have smaller : 10 ^ 36 / max 1 (setting.scaled feed b) ≤ 10 ^ 36 / max 1 (setting.scaled feed a) :=
      Nat.div_le_div_left larger (by omega)
    exact Nat.div_le_div_right (Nat.mul_le_mul_right _ smaller)

theorem routed (route : feed.router.router sender = setting.mirrorAt)
    (ok : setting.routerPrice sender feed = .ok price) :
    feed.mirror.val ≠ 0 ∧ 0 < price.toNat ∧ price.toNat = setting.scaled feed feed.mirror.val.toNat := by
  simp only [routerPrice, P1MakerOracle.getPrice, route, if_true, P1MirrorOracle.read, Checked.bindOk,
    Checked.requireOk, exists_const, Checked.pureOk] at ok
  obtain ⟨_,raw,⟨_,positive,rfl⟩,result,mul,nonzero,rfl⟩ := ok
  rw [widenNat128] at positive
  refine ⟨?_,nonzeroWord.mp nonzero,?_⟩
  · rintro none
    rw [none] at positive
    cases positive
  · rw [BaseMath.baseMulNat mul, widenNat128, scaled]

theorem priced (route : feed.router.router (setting.asker oracle) = setting.mirrorAt)
    (ok : setting.price oracle feed = .ok price) :
    feed.mirror.val ≠ 0 ∧ price.toNat = setting.scale oracle feed feed.mirror.val.toNat := by
  rw [asker] at route
  rw [FeedSetting.price] at ok
  rw [scale]
  split_ifs at ok route ⊢ with direct inverted
  · exact ⟨(routed route ok).1,(routed route ok).2.2⟩
  · rw [P1OracleInverter.asked setting.deployed] at ok
    obtain ⟨raw,answer,reciprocal,⟨_,inverse⟩,mul⟩ := ok
    rw [if_pos rfl] at answer
    obtain ⟨some,positive,exact⟩ := routed route answer
    refine ⟨some,?_⟩
    rw [BaseMath.baseMulNat mul, inverse, ← exact, max_eq_right positive]

variable {σ : Type} (setting) (feed : σ → PriceFeed)

structure Behind (moves : σ → σ → Prop) (x : Externals σ) (_msg : Msg) : Prop where
  honest : Honest moves x
  answers : ∀ oracle w, oracle = setting.routerAt ∨ oracle = setting.inverterAt →
    x.getPrice oracle w = setting.price oracle (feed w.ext)

end FeedSetting

def FeedMoves (crypto : Crypto) (wat : Bytes32) (feed : σ → PriceFeed) (e e' : σ) : Prop :=
  ∃ pokes, FeedRun crypto wat (feed e) pokes (feed e')

section
variable {crypto : Crypto} {wat : Bytes32} {feed : σ → PriceFeed} {setting : FeedSetting} {x : Externals σ} {msg : Msg}
  {w w' : World σ}

theorem FeedMoves.refl (e : σ) : FeedMoves crypto wat feed e e := ⟨[],.none⟩

theorem FeedMoves.trans {a b c : σ} (first : FeedMoves crypto wat feed a b) (last : FeedMoves crypto wat feed b c) :
    FeedMoves crypto wat feed a c := by
  obtain ⟨pokes,early⟩ := first
  obtain ⟨more,late⟩ := last
  exact ⟨_,early.trans late⟩

theorem transactionFeeds (next : Transaction (setting.Behind feed (FeedMoves crypto wat feed))
    (FeedMoves crypto wat feed) w w') : FeedMoves crypto wat feed w.ext w'.ext := by
  cases next with
  | call x msg entry behind =>
    unfold perform
    cases result : exec x msg entry w with
    | error reason => exact .refl _
    | ok w' => exact execMoves (behind.honest.moves .refl .trans) result
  | elsewhere ext moves => exact moves

theorem runFeeds (run : Relation.ReflTransGen (Transaction (setting.Behind feed (FeedMoves crypto wat feed))
    (FeedMoves crypto wat feed)) w w') : FeedMoves crypto wat feed w.ext w'.ext := by
  induction run with
  | refl => exact .refl _
  | tail _ last ih => exact ih.trans (transactionFeeds last)

/-- Whatever has been done to PerpetualV1, its router and its mirror, the price that a call into PerpetualV1
loads is that of the last accepted poke. While fewer than half of the signers of that poke are dishonest, the
price is enclosed by what the router, and the inverter if there is one, make of values that honest signers
signed. -/
theorem pricesAreSigned (empty : (feed w.ext).mirror.val = 0)
    (run : Relation.ReflTransGen (Transaction (setting.Behind feed (FeedMoves crypto wat feed))
      (FeedMoves crypto wat feed)) w w')
    (here : w'.perpetual.oracle = setting.routerAt ∨ w'.perpetual.oracle = setting.inverterAt)
    (route : (feed w'.ext).router.router (setting.asker w'.perpetual.oracle) = setting.mirrorAt)
    (behind : setting.Behind feed (FeedMoves crypto wat feed) x msg) {context : Context} {w₁ : World σ}
    (load : loadContext x msg (w'.setStatus ENTERED) = .ok (context,w₁)) :
    ∃ last rest, FeedRun crypto wat (feed w.ext) (last::rest) (feed w'.ext) ∧
      SignedPrice crypto wat last (setting.scale w'.perpetual.oracle (feed w'.ext)) context.price.toNat := by
  obtain ⟨pokes,fed⟩ := runFeeds run
  have answer : setting.price w'.perpetual.oracle (feed w'.ext) = .ok context.price :=
    (behind.answers _ (w'.setStatus ENTERED) here).symm.trans (Trade.loadedPrice load)
  obtain ⟨some,price⟩ := FeedSetting.priced route answer
  obtain ⟨last,rest,c',rfl,ok,val⟩ := (runLatest empty fed).resolve_left some
  refine ⟨last,rest,fed,?_⟩
  have signed := signedAs (setting.scaleOrdered w'.perpetual.oracle (feed w'.ext)) ok
  rw [← val] at signed
  exact price ▸ signed

end

def sampleFeedSetting : FeedSetting where
  perpetual := 7
  routerAt := 12
  deployed := by decide
  mirrorAt := 11
  inverterAt := 14
  adjustmentExponent := 18
  others _ := .error "no contract"

def emptyFeed : PriceFeed where
  router := ⟨3,fun sender => if sender = 14 then 11 else 0,fun _ => 0,[]⟩
  mirror := { P1MirrorOracle.sampleMirror with readers := fun reader => if reader = 12 then 1 else 0 }

def behindFeed : Externals PriceFeed where
  getPrice oracle w := sampleFeedSetting.price oracle w.ext
  getFunding _ _ _ := .ok (true,0)
  balanceOf _ _ := .ok 0
  transferFrom _ _ _ _ := .error "no contract"
  transfer _ _ _ _ := .error "no contract"
  trade _ _ _ := .error "no contract"

def unpriced : World PriceFeed := ⟨{ Storage.deployed 3 with oracle := 14, initialized := true },[],emptyFeed⟩

theorem sampleSignedPrice : ∃ mirror context w₁,
    loadContext behindFeed ⟨1,200⟩ ({ unpriced with ext := { emptyFeed with mirror := mirror } }.setStatus ENTERED) =
      .ok (context,w₁) ∧
    ∃ last, SignedPrice .sample P1MirrorOracleETHUSD.WAT last (sampleFeedSetting.scale 14 emptyFeed)
      context.price.toNat := by
  obtain ⟨mirror,ok⟩ := Checked.okExists
    (x := P1MirrorOracle.poke Crypto.sample P1MirrorOracleETHUSD.WAT 100 P1MirrorOracle.samplePoke emptyFeed.mirror)
    (by decide +kernel)
  have moves : FeedMoves .sample P1MirrorOracleETHUSD.WAT id emptyFeed { emptyFeed with mirror := mirror } :=
    ⟨_,.more .none (.poke 100 P1MirrorOracle.samplePoke ok)⟩
  have behind : sampleFeedSetting.Behind id (FeedMoves .sample P1MirrorOracleETHUSD.WAT id) behindFeed ⟨1,200⟩ := by
    refine ⟨⟨?_,?_,?_⟩,fun _ _ _ => rfl⟩
    · exact fun _ _ _ _ _ failed => by cases failed
    · exact fun _ _ _ _ _ failed => by cases failed
    · exact fun _ _ _ _ _ failed => by cases failed
  obtain ⟨⟨context,w₁⟩,load⟩ := Checked.okExists (x := loadContext behindFeed ⟨1,200⟩
    ({ unpriced with ext := { emptyFeed with mirror := mirror } }.setStatus ENTERED)) (by
      cases ok
      decide +kernel)
  obtain ⟨last,_,_,signed⟩ := pricesAreSigned (w := unpriced) rfl (.single (.elsewhere unpriced _ moves)) (.inr rfl)
    rfl behind load
  exact ⟨mirror,context,w₁,load,last,signed⟩

end Perpetual
