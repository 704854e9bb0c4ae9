import Mathlib.Data.List.Perm.Basic
import Perpetual.Matching

/-! The server: any number of requests to post and to cancel orders. A request runs
from one `await` to the next, and between two of its steps any others may come. -/
namespace Perpetual
namespace OrderBook

inductive Request where
  | posted (signedOrder : SignedOrder)
  | matched (signedOrder : SignedOrder) (plan : Plan)
  | saving (signedOrder : SignedOrder) (filledAmount : ℚ) (rows : List SignedOrderEntity)
  | answered (signedOrder : SignedOrder)
  | failed (signedOrder : SignedOrder)
  | canceling (unread ordersHash : List Bytes32)
  | canceled (ordersHash : List Bytes32)
  | cancelFailed (ordersHash : List Bytes32)
  deriving DecidableEq

namespace Request

def finished : Request → Bool
  | answered _ | failed _ | canceled _ | cancelFailed _ => true
  | _ => false

def inFlight : Request → Option SignedOrder
  | posted signedOrder | matched signedOrder _ | saving signedOrder _ _ => some signedOrder
  | _ => none

end Request

structure Server (ι : Type) where
  book : Book
  request : ι → Request

/-- The steps of request `i`: what `findBy` returned to it, the outcome of its transaction,
its saves in any order, and the look-ups and the delete of a cancel. -/
inductive Action (ι : Type) where
  | read (i : ι) (now : ℚ) (rows : List SignedOrderEntity)
  | submit (i : ι)
  | revert (i : ι)
  | save (i : ι) (row : SignedOrderEntity)
  | finish (i : ι) (createdAt : ℤ)
  | find (i : ι) (orderHash : Bytes32)
  | delete (i : ι)

variable {ι : Type} [DecidableEq ι]

def Server.become (s : Server ι) (i : ι) (request : Request) (book : Book) : Server ι :=
  ⟨book,Function.update s.request i request⟩

def matchOrder (env : Environment) (now : ℚ) (rows : List SignedOrderEntity)
    (signedOrder : SignedOrder) : Request :=
  match fulfillOrder env now rows signedOrder with
  | .error _ => .failed signedOrder
  | .ok plan =>
      if plan.fills = [] then .saving signedOrder (signedOrder.amount - plan.remainingAmount) []
      else .matched signedOrder plan

/-- The answer is `none` where the request is not at this step. A transaction can revert for
reasons of its own, and it does where P1Orders rejects a fill. -/
def step (env : Environment) (s : Server ι) : Action ι → Option (Server ι)
  | .read i now rows => match s.request i with
      | .posted signedOrder =>
          if rows.Perm (findBy signedOrder s.book.table) then
            some (s.become i (matchOrder env now rows signedOrder) s.book)
          else none
      | _ => none
  | .submit i => match s.request i with
      | .matched signedOrder plan => match commit env plan s.book.filled with
          | .ok filled => some (s.become i (.saving signedOrder
              (signedOrder.amount - plan.remainingAmount) plan.updatedOrders) ⟨s.book.table,filled⟩)
          | .error _ => none
      | _ => none
  | .revert i => match s.request i with
      | .matched signedOrder _ => some (s.become i (.failed signedOrder) s.book)
      | _ => none
  | .save i row => match s.request i with
      | .saving signedOrder filledAmount rows =>
          if row ∈ rows then
            some (s.become i (.saving signedOrder filledAmount (rows.erase row))
              ⟨s.book.table.save row,s.book.filled⟩)
          else none
      | _ => none
  | .finish i createdAt => match s.request i with
      | .saving signedOrder filledAmount [] =>
          match addOrder env createdAt signedOrder filledAmount s.book.table with
          | .ok table => some (s.become i (.answered signedOrder) ⟨table,s.book.filled⟩)
          | .error _ => some (s.become i (.failed signedOrder) s.book)
      | _ => none
  | .find i orderHash => match s.request i with
      | .canceling unread ordersHash =>
          if orderHash ∈ unread then
            match s.book.table.find orderHash with
            | some _ => some (s.become i (.canceling (unread.erase orderHash) ordersHash) s.book)
            | none => some (s.become i (.cancelFailed ordersHash) s.book)
          else none
      | _ => none
  | .delete i => match s.request i with
      | .canceling [] ordersHash => some (s.become i (.canceled ordersHash)
          ⟨s.book.table.delete ordersHash,s.book.filled⟩)
      | _ => none

inductive Stepped (env : Environment) (s : Server ι) : Action ι → Server ι → Prop where
  | read {i : ι} {now : ℚ} {rows : List SignedOrderEntity} {signedOrder : SignedOrder}
      (request : s.request i = .posted signedOrder) (read : rows.Perm (findBy signedOrder s.book.table)) :
      Stepped env s (.read i now rows) (s.become i (matchOrder env now rows signedOrder) s.book)
  | submit {i : ι} {signedOrder : SignedOrder} {plan : Plan} {filled : Filled}
      (request : s.request i = .matched signedOrder plan)
      (commits : commit env plan s.book.filled = .ok filled) :
      Stepped env s (.submit i) (s.become i (.saving signedOrder
        (signedOrder.amount - plan.remainingAmount) plan.updatedOrders) ⟨s.book.table,filled⟩)
  | revert {i : ι} {signedOrder : SignedOrder} {plan : Plan}
      (request : s.request i = .matched signedOrder plan) :
      Stepped env s (.revert i) (s.become i (.failed signedOrder) s.book)
  | save {i : ι} {signedOrder : SignedOrder} {filledAmount : ℚ} {rows : List SignedOrderEntity}
      {row : SignedOrderEntity} (request : s.request i = .saving signedOrder filledAmount rows)
      (mem : row ∈ rows) :
      Stepped env s (.save i row) (s.become i (.saving signedOrder filledAmount (rows.erase row))
        ⟨s.book.table.save row,s.book.filled⟩)
  | add {i : ι} {createdAt : ℤ} {signedOrder : SignedOrder} {filledAmount : ℚ} {orderHash : Bytes32}
      (request : s.request i = .saving signedOrder filledAmount [])
      (hash : env.getOrderHash signedOrder = .ok orderHash) :
      Stepped env s (.finish i createdAt) (s.become i (.answered signedOrder)
        ⟨s.book.table.save (serializeOrder ⟨signedOrder,⟨orderHash,filledAmount,.Null,createdAt⟩⟩),
          s.book.filled⟩)
  | unhashable {i : ι} {createdAt : ℤ} {signedOrder : SignedOrder} {filledAmount : ℚ} {reason : String}
      (request : s.request i = .saving signedOrder filledAmount [])
      (hash : env.getOrderHash signedOrder = .error reason) :
      Stepped env s (.finish i createdAt) (s.become i (.failed signedOrder) s.book)
  | find {i : ι} {orderHash : Bytes32} {unread ordersHash : List Bytes32} {request : Request}
      (canceling : s.request i = .canceling unread ordersHash)
      (next : request = .canceling (unread.erase orderHash) ordersHash ∨
        request = .cancelFailed ordersHash) :
      Stepped env s (.find i orderHash) (s.become i request s.book)
  | delete {i : ι} {ordersHash : List Bytes32} (request : s.request i = .canceling [] ordersHash) :
      Stepped env s (.delete i) (s.become i (.canceled ordersHash)
        ⟨s.book.table.delete ordersHash,s.book.filled⟩)

theorem stepped {env : Environment} {s s' : Server ι} {action : Action ι}
    (ok : step env s action = some s') : Stepped env s action s' := by
  cases action with
  | read i now rows =>
    simp only [step] at ok
    split at ok <;> try contradiction
    rename_i request
    split at ok <;> try contradiction
    rename_i read
    exact Option.some.inj ok ▸ .read request read
  | submit i =>
    simp only [step] at ok
    split at ok <;> try contradiction
    rename_i request
    split at ok <;> try contradiction
    rename_i commits
    exact Option.some.inj ok ▸ .submit request commits
  | revert i =>
    simp only [step] at ok
    split at ok <;> try contradiction
    rename_i request
    exact Option.some.inj ok ▸ .revert request
  | save i row =>
    simp only [step] at ok
    split at ok <;> try contradiction
    rename_i request
    split at ok <;> try contradiction
    rename_i mem
    exact Option.some.inj ok ▸ .save request mem
  | finish i createdAt =>
    simp only [step] at ok
    split at ok <;> try contradiction
    rename_i request
    split at ok
    · rename_i added
      simp only [addOrder, Checked.bindOk, Checked.pureOk] at added
      obtain ⟨orderHash,hash,rfl⟩ := added
      exact Option.some.inj ok ▸ .add request hash
    · rename_i signedOrder _ _ _ refused
      cases hash : env.getOrderHash signedOrder with
      | error reason => exact Option.some.inj ok ▸ .unhashable request hash
      | ok orderHash => rw [addOrder, hash] at refused; cases refused
  | find i orderHash =>
    simp only [step] at ok
    split at ok <;> try contradiction
    rename_i request
    split at ok <;> try contradiction
    split at ok
    · exact Option.some.inj ok ▸ .find request (.inl rfl)
    · exact Option.some.inj ok ▸ .find request (.inr rfl)
  | delete i =>
    simp only [step] at ok
    split at ok <;> try contradiction
    rename_i request
    exact Option.some.inj ok ▸ .delete request

inductive Run (env : Environment) (allowed : Server ι → Action ι → Prop) (start : Server ι) :
    Server ι → Prop where
  | none : Run env allowed start start
  | more {s s' : Server ι} (before : Run env allowed start s) (action : Action ι)
      (may : allowed s action) (next : step env s action = some s') : Run env allowed start s'

def anyStep : Server ι → Action ι → Prop := fun _ _ => True

instance (s : Server ι) (action : Action ι) : Decidable (anyStep s action) :=
  inferInstanceAs (Decidable True)

def runActions (env : Environment) (allowed : Server ι → Action ι → Prop)
    [∀ s action, Decidable (allowed s action)] (s : Server ι) : List (Action ι) → Option (Server ι)
  | [] => some s
  | action::rest =>
      if allowed s action then (step env s action).bind fun s => runActions env allowed s rest
      else none

namespace Run
variable {env : Environment} {allowed : Server ι → Action ι → Prop}

theorem trans {s t u : Server ι} (first : Run env allowed s t) (last : Run env allowed t u) :
    Run env allowed s u := by
  induction last with
  | none => exact first
  | more _ action may next ih => exact .more ih action may next

theorem one {s s' : Server ι} (action : Action ι) (next : step env s action = some s') :
    Run env anyStep s s' := .more .none action trivial next

theorem ofActions [∀ s action, Decidable (allowed s action)] {s s' : Server ι}
    {actions : List (Action ι)} (ok : runActions env allowed s actions = some s') :
    Run env allowed s s' := by
  induction actions generalizing s with
  | nil => exact Option.some.inj ok ▸ .none
  | cons action rest ih =>
    simp only [runActions] at ok
    split at ok <;> try contradiction
    rename_i may
    obtain ⟨t,next,later⟩ := Option.bind_eq_some_iff.mp ok
    exact (Run.more .none action may next).trans (ih later)

end Run

section
variable (env : Environment)

@[simp] theorem becomeRequest (s : Server ι) (i : ι) (request : Request) (book : Book) :
    (s.become i request book).request = Function.update s.request i request := rfl

@[simp] theorem becomeBook (s : Server ι) (i : ι) (request : Request) (book : Book) :
    (s.become i request book).book = book := rfl

theorem becomeTwice (s : Server ι) (i : ι) (first last : Request) (book book' : Book) :
    (s.become i first book).become i last book' = s.become i last book' := by
  simp only [Server.become, Function.update_idem]

theorem savesRun {s : Server ι} {i : ι} {signedOrder : SignedOrder} {filledAmount : ℚ}
    {rows : List SignedOrderEntity} (saving : s.request i = .saving signedOrder filledAmount rows) :
    Run env anyStep s (s.become i (.saving signedOrder filledAmount [])
      ⟨rows.foldl KeyedTable.save s.book.table,s.book.filled⟩) := by
  induction rows generalizing s with
  | nil =>
    have same : s.become i (.saving signedOrder filledAmount []) ⟨s.book.table,s.book.filled⟩ = s := by
      rw [Server.become, ← saving, Function.update_eq_self]
    rw [List.foldl_nil, same]
    exact .none
  | cons row rest ih =>
    let saved := s.become i (.saving signedOrder filledAmount rest)
      ⟨s.book.table.save row,s.book.filled⟩
    have first : step env s (.save i row) = some saved := by
      simp only [step, saving, List.mem_cons_self, if_true, List.erase_cons_head, saved]
    have later := ih (s := saved) (Function.update_self _ _ _)
    rw [becomeTwice] at later
    exact (Run.one _ first).trans later

theorem finishRuns {s : Server ι} {i : ι} {signedOrder : SignedOrder} {filledAmount : ℚ}
    (saving : s.request i = .saving signedOrder filledAmount []) (createdAt : ℤ) :
    ∃ request : Request, request.finished = true ∧ Run env anyStep s (s.become i request
      (match addOrder env createdAt signedOrder filledAmount s.book.table with
        | .error _ => ⟨s.book.table,s.book.filled⟩
        | .ok table => ⟨table,s.book.filled⟩)) := by
  cases added : addOrder env createdAt signedOrder filledAmount s.book.table with
  | error reason =>
    exact ⟨.failed signedOrder,rfl,.one (.finish i createdAt) (by simp only [step, saving, added])⟩
  | ok table =>
    exact ⟨.answered signedOrder,rfl,.one (.finish i createdAt) (by simp only [step, saving, added])⟩

theorem postOrderRuns {s : Server ι} {i : ι} {signedOrder : SignedOrder}
    (posted : s.request i = .posted signedOrder) {rows : List SignedOrderEntity}
    (read : rows.Perm (findBy signedOrder s.book.table)) (now : ℚ) (createdAt : ℤ) :
    ∃ request : Request, request.finished = true ∧ Run env anyStep s
      (s.become i request (postOrder env now createdAt rows signedOrder s.book)) := by
  have first : Run env anyStep s (s.become i (matchOrder env now rows signedOrder) s.book) :=
    .one (.read i now rows) (by simp only [step, posted, read, if_true])
  unfold matchOrder at first
  unfold postOrder
  cases plans : fulfillOrder env now rows signedOrder with
  | error reason =>
    simp only [plans] at first
    exact ⟨_,rfl,first⟩
  | ok plan =>
    simp only [plans] at first
    by_cases nothing : plan.fills = []
    · have trades := (planned plans).trades
      rw [nothing] at trades
      have quiet : commit env plan s.book.filled = .ok s.book.filled := by
        unfold commit
        generalize plan.trades.map TradeArg.data = datas at trades
        cases trades
        rfl
      rw [if_pos nothing] at first
      obtain ⟨request,done,last⟩ := finishRuns env
        (s := s.become i (.saving signedOrder (signedOrder.amount - plan.remainingAmount) []) s.book)
        (Function.update_self _ _ _) createdAt
      rw [becomeTwice] at last
      simp only [quiet, Plan.updatedOrders, nothing, List.map_nil, List.foldl_nil]
      exact ⟨request,done,first.trans last⟩
    · rw [if_neg nothing] at first
      cases commits : commit env plan s.book.filled with
      | error reason =>
        have second : Run env anyStep (s.become i (.matched signedOrder plan) s.book)
            (s.become i (.failed signedOrder) s.book) := by
          refine .one (.revert i) ?_
          simp only [step, becomeRequest, becomeBook, Function.update_self, becomeTwice]
        simp only [commits]
        exact ⟨_,rfl,first.trans second⟩
      | ok filled =>
        have second : Run env anyStep (s.become i (.matched signedOrder plan) s.book)
            (s.become i (.saving signedOrder (signedOrder.amount - plan.remainingAmount)
              plan.updatedOrders) ⟨s.book.table,filled⟩) := by
          refine .one (.submit i) ?_
          simp only [step, becomeRequest, becomeBook, Function.update_self, commits, becomeTwice]
        have third := savesRun env (s := s.become i (.saving signedOrder
          (signedOrder.amount - plan.remainingAmount) plan.updatedOrders) ⟨s.book.table,filled⟩)
          (Function.update_self _ _ _)
        simp only [becomeTwice, becomeBook] at third
        obtain ⟨request,done,last⟩ := finishRuns env
          (s := s.become i (.saving signedOrder (signedOrder.amount - plan.remainingAmount) [])
            ⟨plan.updatedOrders.foldl KeyedTable.save s.book.table,filled⟩)
          (Function.update_self _ _ _) createdAt
        simp only [becomeTwice, becomeBook] at last
        simp only [commits]
        exact ⟨request,done,((first.trans second).trans third).trans last⟩

end
end OrderBook
end Perpetual
