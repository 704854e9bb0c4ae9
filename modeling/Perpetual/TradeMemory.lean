import Perpetual.Lockstep
import Perpetual.Reentrancy
import Perpetual.StructMemory

/-! `P1Trade` with the balances where the contract has them: structs in memory, which are
passed by reference and updated in place. -/
namespace Perpetual
namespace InMemory
open Settlement StructMemory
variable {σ : Type}

abbrev Memory := StructMemory Balance

def load (m : Memory) (balance : Ref) : Checked Balance := Checked.at? m.cells balance

def update (m : Memory) (balance : Ref) (f : Balance → Checked Balance) : Checked Memory := do
  return m.write balance (← f (← load m balance))

def addToMargin (m : Memory) (balance : Ref) (amount : Uint256) : Checked Memory :=
  update m balance fun b => b.addToMargin amount

def subFromMargin (m : Memory) (balance : Ref) (amount : Uint256) : Checked Memory :=
  update m balance fun b => b.subFromMargin amount

def addToPosition (m : Memory) (balance : Ref) (amount : Uint256) : Checked Memory :=
  update m balance fun b => b.addToPosition amount

def subFromPosition (m : Memory) (balance : Ref) (amount : Uint256) : Checked Memory :=
  update m balance fun b => b.subFromPosition amount

def copy (m : Memory) (balance : Ref) : Checked (Ref × Memory) := do
  return m.alloc (← load m balance)

def applyFunding (indexDiff : SignedInt) (balance : Ref) (m : Memory) : Checked (Bool × Uint256 × Memory) := do
  let b ← load m balance
  let settlementIsPositive := indexDiff.isPositive != b.positionIsPositive
  if settlementIsPositive then
    let settlementAmount ← BaseMath.baseMul indexDiff.value (widen b.position)
    return (true,settlementAmount,← addToMargin m balance settlementAmount)
  else
    let settlementAmount ← BaseMath.baseMulRoundUp indexDiff.value (widen b.position)
    return (false,settlementAmount,← subFromMargin m balance settlementAmount)

/-- The balance is read from the storage into a new struct. -/
def settleAccount (context : Context) (account : Address) (w : World σ) (m : Memory) :
    Checked (Ref × World σ × Memory) := do
  let newIndex := context.index
  let oldIndex := w.perpetual.localIndexes account
  let (balance,m) := m.alloc (w.perpetual.balances account)
  if oldIndex.timestamp = newIndex.timestamp then
    return (balance,w,m)
  else
    let w := w.write fun s => s.setLocalIndex account newIndex
    if (← load m balance).position = 0 then
      return (balance,w,m)
    else
      let signedIndexDiff ← indexDiff newIndex oldIndex
      let (isPositive,amount,m) ← applyFunding signedIndexDiff balance m
      let settled ← load m balance
      let w := w.write fun s => s.setBalance account settled
      return (balance,w.emit (.accountSettled account isPositive amount settled.toBytes32),m)

def settleAccounts (context : Context) : List Address → World σ → Memory → Checked (List Ref × World σ × Memory)
  | [],w,m => .ok ([],w,m)
  | account::rest,w,m => do
      let (balance,w,m) ← settleAccount context account w m
      let (result,w,m) ← settleAccounts context rest w m
      return (balance::result,w,m)

def copyAll : List Ref → Memory → Checked (List Ref × Memory)
  | [],m => .ok ([],m)
  | balance::rest,m => do
      let (current,m) ← copy m balance
      let (currents,m) ← copyAll rest m
      return (current::currents,m)

structure Frame (σ : Type) where
  world : World σ
  memory : Memory
  initialBalances : List Ref
  currentBalances : List Ref
  traderFlags : Bytes32

def applyResult (result : TradeResult) (makerBalance takerBalance : Ref) (m : Memory) : Checked Memory := do
  if result.isBuy then
    let m ← addToMargin m makerBalance result.marginAmount
    let m ← subFromPosition m makerBalance result.positionAmount
    let m ← subFromMargin m takerBalance result.marginAmount
    addToPosition m takerBalance result.positionAmount
  else
    let m ← subFromMargin m makerBalance result.marginAmount
    let m ← addToPosition m makerBalance result.positionAmount
    let m ← addToMargin m takerBalance result.marginAmount
    subFromPosition m takerBalance result.positionAmount

def tradeOne (x : Externals σ) (msg : Msg) (context : Context) (accounts : List Address)
    (s : Frame σ) (tradeArg : TradeArg) : Checked (Frame σ) := do
  Checked.require (s.world.perpetual.globalOperators tradeArg.trader = true)
    "trader is not global operator"
  let maker ← Checked.at? accounts tradeArg.makerIndex.toNat
  let taker ← Checked.at? accounts tradeArg.takerIndex.toNat
  let (tradeResult,w) ← x.trade tradeArg.trader
    ⟨msg.sender,maker,taker,context.price,tradeArg.data,s.traderFlags⟩ s.world
  let traderFlags := s.traderFlags ||| tradeResult.traderFlags
  if maker = taker then
    return { s with world := w, traderFlags := traderFlags }
  else
    -- these are references: the structs of `currentBalances` are modified in place
    let makerBalance ← Checked.at? s.currentBalances tradeArg.makerIndex.toNat
    let takerBalance ← Checked.at? s.currentBalances tradeArg.takerIndex.toNat
    let m ← applyResult tradeResult makerBalance takerBalance s.memory
    let newMaker ← load m makerBalance
    let newTaker ← load m takerBalance
    let w := w.write fun p => (p.setBalance maker newMaker).setBalance taker newTaker
    let w := w.emit (.trade maker taker tradeArg.trader tradeResult.marginAmount
      tradeResult.positionAmount tradeResult.isBuy newMaker.toBytes32 newTaker.toBytes32)
    return { s with world := w, memory := m, traderFlags := traderFlags }

def verifyAccountsFinalBalances (context : Context) (m : Memory) :
    List Address → (initialBalances currentBalances : List Ref) → Checked Unit
  | [],_,_ => .ok ()
  | account::accounts,initialBalance::initials,currentBalance::currents => do
      Trade.verifyFinalBalance context account (← load m initialBalance) (← load m currentBalance)
      verifyAccountsFinalBalances context m accounts initials currents
  | _::_,_,_ => .error "invalid opcode"

def enter (x : Externals σ) (msg : Msg) (accounts : List Address) (w : World σ) :
    Checked (Context × Frame σ) := do
  Trade.verifyAccounts accounts
  let (context,w) ← loadContext x msg w
  let (initialBalances,w,m) ← settleAccounts context accounts w empty
  let (currentBalances,m) ← copyAll initialBalances m
  return (context,⟨w,m,initialBalances,currentBalances,0⟩)

def runTrades (x : Externals σ) (msg : Msg) (context : Context) (accounts : List Address)
    (trades : List TradeArg) (start : Frame σ) : Checked (Frame σ) :=
  trades.foldlM (tradeOne x msg context accounts) start

def trade (x : Externals σ) (msg : Msg) (accounts : List Address) (trades : List TradeArg) :
    World σ → Checked (World σ) :=
  noFinalSettlement <| nonReentrant fun w => do
    let (context,start) ← enter x msg accounts w
    let last ← runTrades x msg context accounts trades start
    verifyAccountsFinalBalances context last.memory accounts last.initialBalances last.currentBalances
    return last.world

end InMemory
end Perpetual
