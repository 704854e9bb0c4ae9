import Perpetual.BalanceMath
import Mathlib.Logic.Function.Basic

/-! `P1Storage`, the world one call of PerpetualV1 runs in, and the contracts it
calls out to. What those contracts answer is a parameter everywhere. -/
namespace Perpetual

structure Storage where
  status : Uint256
  admin : Address
  initialized : Bool
  balances : Address → Balance
  localIndexes : Address → Index
  globalOperators : Address → Bool
  localOperators : Address → Address → Bool
  token : Address
  oracle : Address
  funder : Address
  globalIndex : Index
  minCollateral : Uint256
  finalSettlementEnabled : Bool
  finalSettlementPrice : Uint256

/-- The storage behind a new proxy: every slot but the admin's is empty. The guard's
constructor ran on the implementation, not here. -/
def Storage.deployed (admin : Address) : Storage where
  status := 0
  admin := admin
  initialized := false
  balances := fun _ => Balance.zero
  localIndexes := fun _ => Index.zero
  globalOperators := fun _ => false
  localOperators := fun _ _ => false
  token := 0
  oracle := 0
  funder := 0
  globalIndex := Index.zero
  minCollateral := 0
  finalSettlementEnabled := false
  finalSettlementPrice := 0

def Storage.setBalance (s : Storage) (account : Address) (balance : Balance) : Storage :=
  { s with balances := Function.update s.balances account balance }

def Storage.setLocalIndex (s : Storage) (account : Address) (index : Index) : Storage :=
  { s with localIndexes := Function.update s.localIndexes account index }

inductive Log where
  | index (index : Bytes32)
  | accountSettled (account : Address) (isPositive : Bool) (amount : Uint256) (balance : Bytes32)
  | deposit (account : Address) (amount : Uint256) (balance : Bytes32)
  | withdraw (account destination : Address) (amount : Uint256) (balance : Bytes32)
  | trade (maker taker trader : Address) (marginAmount positionAmount : Uint256) (isBuy : Bool)
      (makerBalance takerBalance : Bytes32)
  | withdrawFinalSettlement (account : Address) (amount : Uint256) (balance : Bytes32)
  | setGlobalOperator (operator : Address) (approved : Bool)
  | setOracle (oracle : Address)
  | setFunder (funder : Address)
  | setMinCollateral (minCollateral : Uint256)
  | finalSettlementEnabled (settlementPrice : Uint256)
  | setLocalOperator (sender operator : Address) (approved : Bool)
  deriving DecidableEq, Repr

structure World (σ : Type) where
  perpetual : Storage
  logs : List Log
  ext : σ

structure Msg where
  sender : Address
  timestamp : Uint256
  deriving DecidableEq, Repr

structure TraderCall where
  sender : Address
  maker : Address
  taker : Address
  price : Uint256
  data : List UInt8
  traderFlags : Bytes32
  deriving DecidableEq, Repr

/-- The external contracts, by the address they are called at. Oracle, funder and
`balanceOf` are static calls, so they answer and change nothing. A transfer and a
trader may do anything, calls back into PerpetualV1 included. -/
structure Externals (σ : Type) where
  getPrice : Address → World σ → Checked Uint256
  getFunding : Address → Uint256 → World σ → Checked (Bool × Uint256)
  balanceOf : Address → World σ → Checked Uint256
  transferFrom : Address → (sender : Address) → Uint256 → World σ → Checked (World σ)
  transfer : Address → (recipient : Address) → Uint256 → World σ → Checked (World σ)
  trade : Address → TraderCall → World σ → Checked (TradeResult × World σ)

section
variable {σ : Type}

def World.write (w : World σ) (f : Storage → Storage) : World σ :=
  { w with perpetual := f w.perpetual }

def World.emit (w : World σ) (log : Log) : World σ := { w with logs := w.logs ++ [log] }

@[simp] theorem World.writePerpetual (w : World σ) (f : Storage → Storage) :
    (w.write f).perpetual = f w.perpetual := rfl

@[simp] theorem World.writeLogs (w : World σ) (f : Storage → Storage) : (w.write f).logs = w.logs := rfl

@[simp] theorem World.writeExt (w : World σ) (f : Storage → Storage) : (w.write f).ext = w.ext := rfl

@[simp] theorem World.emitPerpetual (w : World σ) (l : Log) : (w.emit l).perpetual = w.perpetual := rfl

@[simp] theorem World.emitLogs (w : World σ) (l : Log) : (w.emit l).logs = w.logs ++ [l] := rfl

@[simp] theorem World.emitExt (w : World σ) (l : Log) : (w.emit l).ext = w.ext := rfl

def NOT_ENTERED : Uint256 := 1

def ENTERED : Uint256 := -1

def World.setStatus (w : World σ) (status : Uint256) : World σ :=
  w.write fun s => { s with status := status }

@[simp] theorem World.setStatusPerpetual (w : World σ) (status : Uint256) :
    (w.setStatus status).perpetual = { w.perpetual with status := status } := rfl

@[simp] theorem World.setStatusLogs (w : World σ) (status : Uint256) :
    (w.setStatus status).logs = w.logs := rfl

@[simp] theorem World.setStatusExt (w : World σ) (status : Uint256) :
    (w.setStatus status).ext = w.ext := rfl

def nonReentrant (body : World σ → Checked (World σ)) (w : World σ) : Checked (World σ) := do
  Checked.require (w.perpetual.status ≠ ENTERED) "ReentrancyGuard: reentrant call"
  let w ← body (w.setStatus ENTERED)
  return w.setStatus NOT_ENTERED

def onlyAdmin (msg : Msg) (body : World σ → Checked (World σ)) (w : World σ) : Checked (World σ) := do
  Checked.require (msg.sender = w.perpetual.admin) "Adminable: caller is not admin"
  body w

def noFinalSettlement (body : World σ → Checked (World σ)) (w : World σ) : Checked (World σ) := do
  Checked.require (w.perpetual.finalSettlementEnabled = false) "Not permitted during final settlement"
  body w

def onlyFinalSettlement (body : World σ → Checked (World σ)) (w : World σ) : Checked (World σ) := do
  Checked.require (w.perpetual.finalSettlementEnabled = true) "Only permitted during final settlement"
  body w

theorem nonReentrantOk {body : World σ → Checked (World σ)} {w w' : World σ} :
    nonReentrant body w = .ok w' ↔ w.perpetual.status ≠ ENTERED ∧
      ∃ mid, body (w.setStatus ENTERED) = .ok mid ∧ mid.setStatus NOT_ENTERED = w' := by
  simp only [nonReentrant, Checked.bindOk, Checked.requireOk, Checked.pureOk, exists_const]

theorem nonReentrantCongr {f g : World σ → Checked (World σ)} {w : World σ}
    (same : f (w.setStatus ENTERED) = g (w.setStatus ENTERED)) :
    nonReentrant f w = nonReentrant g w := by
  unfold nonReentrant
  rw [same]

theorem onlyAdminOk {msg : Msg} {body : World σ → Checked (World σ)} {w w' : World σ} :
    onlyAdmin msg body w = .ok w' ↔ msg.sender = w.perpetual.admin ∧ body w = .ok w' := by
  simp only [onlyAdmin, Checked.bindOk, Checked.requireOk, exists_const]

theorem noFinalSettlementOk {body : World σ → Checked (World σ)} {w w' : World σ} :
    noFinalSettlement body w = .ok w' ↔
      w.perpetual.finalSettlementEnabled = false ∧ body w = .ok w' := by
  simp only [noFinalSettlement, Checked.bindOk, Checked.requireOk, exists_const]

theorem onlyFinalSettlementOk {body : World σ → Checked (World σ)} {w w' : World σ} :
    onlyFinalSettlement body w = .ok w' ↔
      w.perpetual.finalSettlementEnabled = true ∧ body w = .ok w' := by
  simp only [onlyFinalSettlement, Checked.bindOk, Checked.requireOk, exists_const]

end
end Perpetual
