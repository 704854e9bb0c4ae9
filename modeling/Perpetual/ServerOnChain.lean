import Mathlib.Logic.Relation
import Perpetual.BehindChain
import Perpetual.OperatorNeutrality

/-! The server on its chain: PerpetualV1 and P1Orders themselves decide about the transaction of a
match, and other transactions come in between. -/
namespace Perpetual
namespace TradeOperation
open Trade OrderBook
variable {ρ : Type} {crypto : Crypto} {this ordersAddress : Address} {x : Externals (OrdersHost ρ)}
  {msg : Msg} {context : Context} {accounts : List Address}

def filledOf (e : OrdersHost ρ) : OrderBook.Filled := fun h => (e.contract.filledAmount h).toNat

structure Records (crypto : Crypto) (datas : List TradeData) (e e' : OrdersHost ρ) : Prop where
  domain : e'.contract.eip712DomainHash = e.contract.eip712DomainHash
  filled : commitOnChain (Orders.getOrderHash crypto e.contract.eip712DomainHash) datas (filledOf e) =
    .ok (filledOf e')

theorem traderRecords
    (orders : ∀ call w, x.trade ordersAddress call w = ordersTrade crypto ⟨this,msg.timestamp⟩ call w)
    {call : TraderCall} {w w' : World (OrdersHost ρ)} {result : TradeResult}
    (ok : x.trade ordersAddress call w = .ok (result,w')) {data : TradeData}
    (encoded : call.data = encodeTradeData data) : Records crypto [data] w.ext w'.ext := by
  rw [orders] at ok
  simp only [ordersTrade, Checked.bindOk, Prod.exists, Checked.pureOk, Prod.mk.injEq] at ok
  obtain ⟨_,contract,trades,tradeData,decoded,_,rfl⟩ := ok
  rw [encoded, TradeData.decodeEncode] at decoded
  obtain rfl := Except.ok.inj decoded
  have step : Orders.Step P1Orders.code crypto w.ext.contract (.fill data.order data.fill) contract :=
    .fill _ _ _ _ _ (by rw [encoded, TradeData.decodeEncode]) trades
  exact ⟨Orders.stepDomain step,Checked.bindOk.mpr ⟨_,contractFills step,rfl⟩⟩

theorem recordsOne
    (orders : ∀ call w, x.trade ordersAddress call w = ordersTrade crypto ⟨this,msg.timestamp⟩ call w)
    {t : OrderBook.TradeArg} (trader : t.trader = ordersAddress) {s s' : Batch (OrdersHost ρ)}
    (ok : tradeOne x msg context accounts s (tradeArg accounts t) = .ok s') :
    Records crypto [t.data] s.world.ext s'.world.ext := by
  obtain ⟨maker,taker,result,w,_,_,called,moved,_⟩ := (traded ok).called
  have trader' : (tradeArg accounts t).trader = ordersAddress := trader
  rw [trader'] at called
  have records : Records crypto [t.data] s.world.ext w.ext := traderRecords orders called rfl
  generalize s'.world = after, s'.currentBalances = balances at moved
  cases moved with
  | self => exact records
  | between _ _ _ _ _ _ _ _ ext => rwa [ext]

theorem Records.cons {data : TradeData} {datas : List TradeData} {e mid e' : OrdersHost ρ}
    (first : Records crypto [data] e mid) (last : Records crypto datas mid e') :
    Records crypto (data::datas) e e' := by
  refine ⟨last.domain.trans first.domain,?_⟩
  obtain ⟨filled,one,same⟩ := Checked.bindOk.mp first.filled
  obtain rfl := Except.ok.inj same
  refine Checked.bindOk.mpr ⟨_,one,?_⟩
  rw [← first.domain]
  exact last.filled

theorem recordsAll
    (orders : ∀ call w, x.trade ordersAddress call w = ordersTrade crypto ⟨this,msg.timestamp⟩ call w)
    {trades : List OrderBook.TradeArg} (all : ∀ t ∈ trades, t.trader = ordersAddress)
    {s s' : Batch (OrdersHost ρ)}
    (ok : (trades.map (tradeArg accounts)).foldlM (tradeOne x msg context accounts) s = .ok s') :
    Records crypto (trades.map OrderBook.TradeArg.data) s.world.ext s'.world.ext := by
  induction trades generalizing s with
  | nil =>
    obtain rfl : s = s' := by simpa using ok
    exact ⟨rfl,rfl⟩
  | cons t rest ih =>
    rw [List.forall_mem_cons] at all
    simp only [List.map_cons, List.foldlM_cons, Checked.bindOk] at ok
    obtain ⟨mid,first,last⟩ := ok
    exact (recordsOne orders all.1 first).cons (ih all.2 last)

theorem commitRecords
    (orders : ∀ call w, x.trade ordersAddress call w = ordersTrade crypto ⟨this,msg.timestamp⟩ call w)
    {trades : List OrderBook.TradeArg} (all : ∀ t ∈ trades, t.trader = ordersAddress)
    {w w' : World (OrdersHost ρ)} (ok : commit x msg trades w = .ok w') :
    Records crypto (trades.map OrderBook.TradeArg.data) w.ext w'.ext := by
  simp only [commit, Checked.bindOk, Checked.requireOk, exists_const] at ok
  cases batchTraded ok.2 with
  | @done context initialBalances w₁ w₂ batch live unique load settle start ran verified =>
    have same : w₂.ext = w.ext :=
      (settledExt (Settlement.settledAll settle)).trans (Settlement.loaded load).ext
    have records := recordsAll orders all ran
    rw [same] at records
    exact records

end TradeOperation

namespace OrderBook
open TradeOperation
variable {ι ρ : Type} {env : Environment}

structure Block (ρ : Type) where
  time : Uint256
  world : World (OrdersHost ρ)

/-- P1Orders and the code around PerpetualV1 as a block at some time runs them, and the transactions
of everybody else. -/
structure Deployment (env : Environment) (ρ : Type) where
  this : Address
  contracts : Uint256 → Externals (OrdersHost ρ)
  environment : ∀ msg : Msg, OrdersEnvironment env.crypto this env.p1Orders (contracts msg.timestamp) msg
  others : Block ρ → Block ρ → Prop
  later : ∀ {b b' : Block ρ}, others b b' → b.time ≤ b'.time
  calls : ∀ {b b' : Block ρ}, others b b' → CallsOrders env.crypto b.world.ext b'.world.ext

namespace Deployment
variable (chain : Deployment env ρ)

def Takes (trades : List TradeArg) (b b' : Block ρ) : Prop :=
  b.time ≤ b'.time ∧
    TradeOperation.commit (chain.contracts b'.time) ⟨env.operator,b'.time⟩ trades b.world = .ok b'.world

inductive Next (b : Block ρ) : Block ρ → Prop where
  | operator {b' : Block ρ} (trades : List TradeArg) (takes : chain.Takes trades b b') : Next b b'
  | others {b' : Block ρ} (moves : chain.others b b') : Next b b'

def CanStillTake (trades : List TradeArg) (b : Block ρ) : Prop :=
  ∃ later taken, Relation.ReflTransGen chain.Next b later ∧ chain.Takes trades later taken

theorem Takes.calls {chain : Deployment env ρ} {trades : List TradeArg} {b b' : Block ρ}
    (takes : chain.Takes trades b b') : CallsOrders env.crypto b.world.ext b'.world.ext := by
  have ok := takes.2
  simp only [TradeOperation.commit, Checked.bindOk, Checked.requireOk, exists_const] at ok
  have entered : exec (chain.contracts b'.time) ⟨env.operator,b'.time⟩ (.trade _ _) b.world = .ok b'.world := ok.2
  exact execMoves (chain.environment ⟨env.operator,b'.time⟩).moves entered

theorem Next.calls {chain : Deployment env ρ} {b b' : Block ρ} (next : chain.Next b b') :
    CallsOrders env.crypto b.world.ext b'.world.ext := by
  cases next with
  | operator trades takes => exact takes.calls
  | others moves => exact chain.calls moves

theorem CanStillTake.before {chain : Deployment env ρ} {trades : List TradeArg} {b b' : Block ρ}
    (moves : Relation.ReflTransGen chain.Next b b') (can : chain.CanStillTake trades b') :
    chain.CanStillTake trades b := by
  obtain ⟨later,taken,rest,takes⟩ := can
  exact ⟨later,taken,moves.trans rest,takes⟩

end Deployment

structure ChainServer (ι ρ : Type) where
  table : Table
  request : ι → Request
  block : Block ρ

def ChainServer.server (l : ChainServer ι ρ) : Server ι := ⟨⟨l.table,filledOf l.block.world.ext⟩,l.request⟩

def Server.onBlock (s : Server ι) (block : Block ρ) : ChainServer ι ρ := ⟨s.book.table,s.request,block⟩

def Request.toSend : Request → Option (SignedOrder × Plan)
  | .matched signedOrder plan => some (signedOrder,plan)
  | _ => none

theorem matchedToSend {request : Request} {signedOrder : SignedOrder} {plan : Plan}
    (ready : request.toSend = some (signedOrder,plan)) : request = .matched signedOrder plan := by
  cases request with
  | matched =>
    cases ready
    rfl
  | posted | saving | answered | failed | canceling | canceled | cancelFailed => cases ready

def Action.own : Action ι → Bool
  | .submit _ => false
  | _ => true

def ownStep : Server ι → Action ι → Prop := fun _ action => action.own = true

instance (s : Server ι) (action : Action ι) : Decidable (ownStep s action) :=
  inferInstanceAs (Decidable (action.own = true))

variable [DecidableEq ι]

def ChainServer.become (l : ChainServer ι ρ) (i : ι) (request : Request) (table : Table)
    (block : Block ρ) : ChainServer ι ρ :=
  ⟨table,Function.update l.request i request,block⟩

@[simp] theorem ChainServer.becomeRequest (l : ChainServer ι ρ) (i : ι) (request : Request)
    (table : Table) (block : Block ρ) :
    (l.become i request table block).request = Function.update l.request i request := rfl

inductive ChainStep (chain : Deployment env ρ) (l : ChainServer ι ρ) : ChainServer ι ρ → Prop where
  | request {s' : Server ι} (action : Action ι) (own : action.own = true)
      (ok : step env l.server action = some s') : ChainStep chain l (s'.onBlock l.block)
  | submit {i : ι} {signedOrder : SignedOrder} {plan : Plan} {block : Block ρ}
      (matched : l.request i = .matched signedOrder plan) (takes : chain.Takes plan.trades l.block block) :
      ChainStep chain l (l.become i (.saving signedOrder (signedOrder.amount - plan.remainingAmount)
        plan.updatedOrders) l.table block)
  | chain {block : Block ρ} (next : chain.Next l.block block) : ChainStep chain l ⟨l.table,l.request,block⟩

abbrev ChainRun (chain : Deployment env ρ) : ChainServer ι ρ → ChainServer ι ρ → Prop :=
  Relation.ReflTransGen (ChainStep chain)

theorem callsGrow {crypto : Crypto} {e e' : OrdersHost ρ} (calls : CallsOrders crypto e e') (h : Bytes32) :
    filledOf e h ≤ filledOf e' h := by
  obtain ⟨made,steps,_⟩ := calls
  have now := Orders.stepsFilled steps h
  simp only [filledOf]
  omega

theorem callsDomain {crypto : Crypto} {e e' : OrdersHost ρ} (calls : CallsOrders crypto e e') :
    e'.contract.eip712DomainHash = e.contract.eip712DomainHash := by
  obtain ⟨made,steps,_⟩ := calls
  exact Orders.stepsDomain steps

theorem stepKeepsFilled {s s' : Server ι} {action : Action ι} (own : action.own = true)
    (ok : step env s action = some s') : s'.book.filled = s.book.filled := by
  cases stepped ok with
  | submit => cases own
  | read | revert | save | add | unhashable | find | delete => rfl

theorem onBlockServer {l : ChainServer ι ρ} {s' : Server ι} {action : Action ι} (own : action.own = true)
    (ok : step env l.server action = some s') : (s'.onBlock l.block).server = s' := by
  have kept : filledOf l.block.world.ext = s'.book.filled := (stepKeepsFilled own ok).symm
  rw [ChainServer.server, Server.onBlock, kept]

theorem ChainRun.ofChain {chain : Deployment env ρ} {l : ChainServer ι ρ} {block : Block ρ}
    (moves : Relation.ReflTransGen chain.Next l.block block) :
    ChainRun chain l ⟨l.table,l.request,block⟩ := by
  induction moves with
  | refl => exact .refl
  | tail _ next ih => exact ih.tail (.chain next)

theorem ChainRun.ofOwn (chain : Deployment env ρ) {l : ChainServer ι ρ} {s : Server ι}
    (run : Run env ownStep l.server s) : ChainRun chain l (s.onBlock l.block) ∧ (s.onBlock l.block).server = s := by
  induction run with
  | none => exact ⟨.refl,rfl⟩
  | @more s s' before action may next ih =>
    have ok : step env (s.onBlock l.block).server action = some s' := by rwa [ih.2]
    exact ⟨ih.1.tail (.request action may ok),onBlockServer (l := s.onBlock l.block) may ok⟩

def Built (env : Environment) : Request → Prop
  | .matched _ plan => ∀ t ∈ plan.trades, t.trader = env.p1Orders
  | _ => True

theorem matchBuilt (now : ℚ) (rows : List SignedOrderEntity) (signedOrder : SignedOrder) :
    Built env (matchOrder env now rows signedOrder) := by
  unfold matchOrder
  cases plans : fulfillOrder env now rows signedOrder with
  | error reason => trivial
  | ok plan =>
    simp only
    split
    · trivial
    · exact fun t mem => (operatorTakes (fulfillTrades plans) t mem).2

theorem builtBecome {s : Server ι} (built : ∀ j, Built env (s.request j)) {i : ι} {request : Request}
    {book : Book} (now : Built env request) : ∀ j, Built env ((s.become i request book).request j) := by
  intro j
  rw [becomeRequest, Function.update_apply]
  split
  · exact now
  · exact built j

theorem stepBuilt {s s' : Server ι} {action : Action ι} (built : ∀ i, Built env (s.request i))
    (ok : step env s action = some s') : ∀ i, Built env (s'.request i) := by
  cases stepped ok with
  | read => exact builtBecome built (matchBuilt _ _ _)
  | submit | revert | save | add | unhashable | delete => exact builtBecome built trivial
  | find canceling next => exact builtBecome built (by rcases next with rfl | rfl <;> trivial)

structure Tied (env : Environment) (l : ChainServer ι ρ) : Prop where
  domain : l.block.world.ext.contract.eip712DomainHash = env.domainHash
  built : ∀ i, Built env (l.request i)

theorem chainStepOpens {chain : Deployment env ρ} {l l' : ChainServer ι ρ} (tied : Tied env l)
    (next : ChainStep chain l l') : OpenStep env l.server l'.server ∧ Tied env l' := by
  cases next with
  | @request s' action own ok =>
    exact ⟨(onBlockServer own ok).symm ▸ .request action ok,tied.domain,stepBuilt tied.built ok⟩
  | @submit i signedOrder plan block matched takes =>
    have built := tied.built i
    rw [matched] at built
    have orders := (chain.environment ⟨env.operator,block.time⟩).orders
    have records := commitRecords orders built takes.2
    have commits : commit env plan l.server.book.filled = .ok (filledOf block.world.ext) := by
      have filled := records.filled
      rwa [tied.domain] at filled
    have ok : step env l.server (.submit i) = some (l.server.become i (.saving signedOrder
        (signedOrder.amount - plan.remainingAmount) plan.updatedOrders)
          ⟨l.table,filledOf block.world.ext⟩) := by
      have matched' : l.server.request i = .matched signedOrder plan := matched
      simp only [step, matched', commits]
      rfl
    exact ⟨.request _ ok,records.domain.trans tied.domain,stepBuilt tied.built ok⟩
  | chain next =>
    exact ⟨.filledElsewhere _ (callsGrow next.calls),(callsDomain next.calls).trans tied.domain,tied.built⟩

/-- What the server does on its chain is a run of the server behind any chain whose filled amounts grow. -/
theorem chainOpens {chain : Deployment env ρ} {start l : ChainServer ι ρ} (tied : Tied env start)
    (run : ChainRun chain start l) :
    Relation.ReflTransGen (OpenStep env) start.server l.server ∧ Tied env l := by
  induction run with
  | refl => exact ⟨.refl,tied⟩
  | tail _ last ih =>
    obtain ⟨next,tied'⟩ := chainStepOpens ih.2 last
    exact ⟨ih.1.tail next,tied'⟩

theorem neverAheadOnChain {chain : Deployment env ρ} {start l : ChainServer ι ρ} (tied : Tied env start)
    (opening : Opening env start.server) (run : ChainRun chain start l) :
    ∀ row ∈ l.table.rows, row.filledAmount ≤ filledOf l.block.world.ext row.hash :=
  fun row mem => ((openBacked opening.backed (chainOpens tied run).1).rows row mem).2

end OrderBook
end Perpetual
