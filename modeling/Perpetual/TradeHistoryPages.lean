import Perpetual.EncodedAmounts
import Perpetual.OrderQueries

/-! `GET /tradesHistory`: the pages of the recorded trades, which are ordered by the transactions that they were
made in. All trades of one transaction have its hash. -/
namespace Perpetual
namespace OrderBook
open Client (PaginatedCollection paginated)

structure StoredTrade where
  id : Nat
  entity : TradeHistoryEntity
  deriving DecidableEq

/-- `read` is what the database makes of rows that it is to order by their hashes. -/
def getTradesHistoryAsync (read : List StoredTrade → List StoredTrade) (page perPage : Nat)
    (rows : List StoredTrade) : Checked (PaginatedCollection StoredTrade) := do
  let tradeHistoryEntities ← paginated page perPage (read rows)
  return ⟨rows.length,page,perPage,tradeHistoryEntities⟩

section
variable {κ : Type} [LinearOrder κ] (collate : Bytes32 → κ)

def hashKey (trade : StoredTrade) : κ := collate trade.entity.hash

structure HistoryPages (rows : List StoredTrade) (perPage pages : Nat)
    (read : Nat → List StoredTrade → List StoredTrade) (responses : List (PaginatedCollection StoredTrade)) : Prop where
  ordered : ∀ page, Paging.Ordered (hashKey collate) rows (read page rows)
  length : responses.length = pages
  each : ∀ page r, responses[page]? = some r → getTradesHistoryAsync (read page) (page + 1) perPage rows = .ok r

def Certain (rows : List StoredTrade) (perPage pages : Nat) : Prop :=
  ∀ read responses, HistoryPages collate rows perPage pages read responses →
    (responses.flatMap PaginatedCollection.records).Perm rows

def NoneStraddles (perPage : Nat) (sorted : List StoredTrade) : Prop :=
  ∀ page (a b : StoredTrade), sorted[(page + 1) * perPage - 1]? = some a → sorted[(page + 1) * perPage]? = some b →
    a.entity.hash ≠ b.entity.hash

variable {collate} {rows sorted : List StoredTrade} {perPage pages : Nat}
  {read : Nat → List StoredTrade → List StoredTrade} {responses : List (PaginatedCollection StoredTrade)}

theorem HistoryPages.joined (answers : HistoryPages collate rows perPage pages read responses)
    (positive : 0 < perPage) :
    responses.flatMap PaginatedCollection.records = Paging.joined perPage pages fun page => read page rows := by
  have records : responses.map PaginatedCollection.records =
      (List.range pages).map fun page => Paging.slice perPage page (read page rows) := by
    refine List.ext_getElem? fun page => ?_
    rw [List.getElem?_map, List.getElem?_map]
    cases here : responses[page]? with
    | none =>
      have beyond := List.getElem?_eq_none_iff.mp here
      rw [List.getElem?_eq_none (by rw [List.length_range, ← answers.length]; exact beyond)]
      rfl
    | some r =>
      obtain ⟨inside,_⟩ := List.getElem?_eq_some_iff.mp here
      rw [List.getElem?_range (answers.length ▸ inside)]
      have answer := answers.each page r here
      rw [getTradesHistoryAsync, Client.paginatedPage positive] at answer
      cases Checked.pureOk.mp answer
      rfl
  rw [List.flatMap_def, records, Paging.joined, List.flatMap_def]

theorem answered (ordered : ∀ page, Paging.Ordered (hashKey collate) rows (read page rows)) (positive : 0 < perPage) :
    ∃ responses, HistoryPages collate rows perPage pages read responses := by
  refine ⟨(List.range pages).map fun page =>
    ⟨rows.length,page + 1,perPage,Paging.slice perPage page (read page rows)⟩,ordered,?_,fun page r here => ?_⟩
  · rw [List.length_map, List.length_range]
  · rw [List.getElem?_map, Option.map_eq_some_iff] at here
    obtain ⟨page',inside,rfl⟩ := here
    obtain ⟨_,rfl⟩ := List.getElem?_eq_some_iff.mp inside
    rw [List.getElem_range, getTradesHistoryAsync, Client.paginatedPage positive]
    rfl

omit [LinearOrder κ] in
theorem straddles (distinct : Function.Injective collate) :
    Paging.Apart perPage (sorted.map (hashKey collate)) ↔ NoneStraddles perPage sorted := by
  constructor
  · intro apart page a b last first same
    refine apart page (hashKey collate a) (Paging.keyAt last) ?_
    rw [Paging.keyAt first, hashKey, hashKey, same]
  · intro none page k last first
    rw [List.getElem?_map, Option.map_eq_some_iff] at last first
    obtain ⟨a,last,rfl⟩ := last
    obtain ⟨b,first,same⟩ := first
    exact none page a b last first (distinct same).symm

theorem certain (distinct : Function.Injective collate) (ids : (rows.map StoredTrade.id).Nodup) (positive : 0 < perPage)
    (enough : rows.length ≤ pages * perPage) (one : Paging.Ordered (hashKey collate) rows sorted) :
    Certain collate rows perPage pages ↔ NoneStraddles perPage sorted := by
  rw [← straddles distinct]
  constructor
  · intro certain page k last first
    have inside : (page + 1) * perPage < pages * perPage := by
      obtain ⟨here,_⟩ := List.getElem?_eq_some_iff.mp first
      rw [List.length_map, one.perm.length_eq] at here
      omega
    have more : page + 1 < pages := Nat.lt_of_mul_lt_mul_right inside
    obtain ⟨read,ordered,twice⟩ := Paging.twiceWhenTied one more last first positive
    let readings : Nat → List StoredTrade → List StoredTrade := fun page _ => read page
    obtain ⟨responses,answers⟩ : ∃ responses, HistoryPages collate rows perPage pages readings responses :=
      answered ordered positive
    have whole := certain _ responses answers
    rw [answers.joined positive] at whole
    exact twice (whole.nodup_iff.mpr ids.of_map)
  · intro apart read responses answers
    rw [answers.joined positive]
    exact Paging.wholeWhenApart ids.of_map one enough apart answers.ordered

theorem recordedHash {signedOrder : SignedOrder} {txRecipient : TransactionReceipt} {timestamp : ℤ} {plan : Plan}
    {trade : TradeHistoryEntity} (mem : trade ∈ plan.tradesHistory signedOrder txRecipient timestamp) :
    trade.hash = txRecipient.transactionHash := by
  rw [Plan.tradesHistory] at mem
  split at mem
  · cases mem
  · rcases List.mem_append.mp mem with maker | taker
    · obtain ⟨fill,_,rfl⟩ := List.mem_map.mp maker
      rfl
    · rw [List.mem_singleton.mp taker]
      rfl

theorem recordedCount {signedOrder : SignedOrder} {txRecipient : TransactionReceipt} {timestamp : ℤ} {plan : Plan}
    (some' : plan.fills ≠ []) :
    ((plan.tradesHistory signedOrder txRecipient timestamp).map TradeHistoryEntity.hash).count
      txRecipient.transactionHash = plan.fills.length + 1 := by
  rw [List.count_eq_length.mpr fun h mem => ?_]
  · rw [List.length_map, Plan.tradesHistory, if_neg some', List.length_append, List.length_map, List.length_singleton]
  · obtain ⟨trade,recorded,rfl⟩ := List.mem_map.mp mem
    exact (recordedHash recorded).symm

omit [LinearOrder κ] in
theorem recordedWithin {signedOrder : SignedOrder} {txRecipient : TransactionReceipt} {timestamp : ℤ} {plan : Plan}
    (some' : plan.fills ≠ [])
    (recorded : (plan.tradesHistory signedOrder txRecipient timestamp).Subperm (rows.map StoredTrade.entity)) :
    plan.fills.length + 1 ≤ (rows.map fun trade => trade.entity.hash).count txRecipient.transactionHash := by
  obtain ⟨part,same,within⟩ := recorded
  have counted := (within.map TradeHistoryEntity.hash).count_le txRecipient.transactionHash
  rw [(same.map TradeHistoryEntity.hash).count_eq, recordedCount some', List.map_map] at counted
  exact counted

/-- The pages of the history are certain to hold every trade once exactly where none of them ends within a
transaction. A match that fills as many orders as a page holds trades leaves no such certainty. The hashes are
the right ones in any case. -/
theorem historyPages (distinct : Function.Injective collate) (ids : (rows.map StoredTrade.id).Nodup)
    (positive : 0 < perPage) (enough : rows.length ≤ pages * perPage)
    (one : Paging.Ordered (hashKey collate) rows sorted) :
    (Certain collate rows perPage pages ↔ NoneStraddles perPage sorted) ∧
    (∀ signedOrder txRecipient timestamp (plan : Plan), plan.fills ≠ [] → perPage ≤ plan.fills.length →
      (plan.tradesHistory signedOrder txRecipient timestamp).Subperm (rows.map StoredTrade.entity) →
      ¬Certain collate rows perPage pages) ∧
    ∀ read responses, HistoryPages collate rows perPage pages read responses →
      (responses.flatMap PaginatedCollection.records).map (fun trade => trade.entity.hash) =
        sorted.map fun trade => trade.entity.hash := by
  refine ⟨certain distinct ids positive enough one,?_,?_⟩
  · intro signedOrder txRecipient timestamp plan some' many recorded
    rw [certain distinct ids positive enough one, ← straddles distinct]
    have counted := recordedWithin some' recorded
    rw [← List.count_map_of_injective _ collate distinct, List.map_map] at counted
    have sorted' := (one.perm.map (hashKey collate)).count_eq (collate txRecipient.transactionHash)
    refine Paging.crowded one.order positive (k := collate txRecipient.transactionHash) ?_
    rw [sorted']
    exact (Nat.lt_succ_of_le many).trans_le counted
  · intro read responses answers
    rw [answers.joined positive]
    have keys : (Paging.joined perPage pages fun page => read page rows).map (hashKey collate) =
        (sorted.map (hashKey collate)).take (pages * perPage) := Paging.joinedKeys answers.ordered one
    rw [List.take_of_length_le (by rw [List.length_map, one.perm.length_eq]; exact enough)] at keys
    refine List.map_injective_iff.mpr distinct ?_
    rw [List.map_map, List.map_map]
    exact keys

end

def sampleTrade (id : Nat) (hash : Bytes32) : StoredTrade := ⟨id,⟨0,1,false,5,4,hash,1,100⟩⟩

def sampleTrades : List StoredTrade := [sampleTrade 0 7,sampleTrade 1 7,sampleTrade 2 8,sampleTrade 3 8]

theorem samplePages : Certain BitVec.toNat sampleTrades 2 2 ∧ ¬Certain BitVec.toNat sampleTrades 1 4 := by
  have distinct : Function.Injective (BitVec.toNat : Bytes32 → Nat) := fun _ _ => BitVec.eq_of_toNat_eq
  have one : Paging.Ordered (hashKey BitVec.toNat) sampleTrades sampleTrades := ⟨.refl _,by decide⟩
  refine ⟨(historyPages distinct (by decide) (by decide) (by decide) one).1.mpr fun page a b last first => ?_,?_⟩
  · have inside : (page + 1) * 2 < 4 := (List.getElem?_eq_some_iff.mp first).1
    obtain rfl : page = 0 := by omega
    cases Option.some.inj last
    cases Option.some.inj first
    decide
  · rw [(historyPages distinct (by decide) (by decide) (by decide) one).1]
    exact fun none => none 0 _ _ rfl rfl rfl

end OrderBook
end Perpetual
