import Perpetual.KeyedTable
import Perpetual.Paging
import Perpetual.PostedOrders

/-! `GET /order`: what is asked of the rows of `signed_orders`, and the pages in which the answer comes. -/
namespace Perpetual
namespace Client

abbrev SignedOrders := KeyedTable SignedOrderEntity.hash

structure PaginatedCollection (α : Type) where
  total : Nat
  page : Nat
  perPage : Nat
  records : List α

def DEFAULT_PAGE : Nat := 1

def DEFAULT_PER_PAGE : Nat := 20

def MAX_PER_PAGE : Nat := 1000

def parsePaginationConfig (page perPage : Option Nat) : Checked (Nat × Nat) := do
  let page := page.getD DEFAULT_PAGE
  let perPage := perPage.getD DEFAULT_PER_PAGE
  Checked.require (perPage ≤ MAX_PER_PAGE) "perPage should be less or equal to 1000"
  return (page,perPage)

inductive Column where
  | hash
  | limitFee
  | limitPrice
  | triggerPrice
  | expiration
  | amount
  | isBuy
  | isDecreaseOnly
  | salt
  | typedSignature
  | maker
  | createdAt
  | filledAmount
  | orderState
  | taker
  deriving DecidableEq, Repr

namespace Column

def all : List Column :=
  [hash,limitFee,limitPrice,triggerPrice,expiration,amount,isBuy,isDecreaseOnly,salt,typedSignature,maker,createdAt,
    filledAmount,orderState,taker]

def propertyName : Column → String
  | hash => "hash"
  | limitFee => "limitFee"
  | limitPrice => "limitPrice"
  | triggerPrice => "triggerPrice"
  | expiration => "expiration"
  | amount => "amount"
  | isBuy => "isBuy"
  | isDecreaseOnly => "isDecreaseOnly"
  | salt => "salt"
  | typedSignature => "typedSignature"
  | maker => "maker"
  | createdAt => "createdAt"
  | filledAmount => "filledAmount"
  | orderState => "orderState"
  | taker => "taker"

end Column

/-- How the database compares: where a text stands in its collation, and whether a column has the value that a
text spells. Of the columns that the service compares itself it is known that they are texts. -/
structure Database (κ : Type) where
  collate : Text → κ
  distinct : Function.Injective collate
  equal : Column → Text → SignedOrderEntity → Bool
  maker : ∀ value row, equal .maker value row = decide (row.maker = value)
  taker : ∀ value row, equal .taker value row = decide (row.taker = value)

abbrev Filter := Column → Option Text

structure FindOptionsWhere where
  columns : Filter
  expiration : Nat

abbrev Query := String → Option Text

def normalizedQuery (crypto : Crypto) (query : Query) : Query := fun key => (query key).map (normalized crypto)

section
variable {κ : Type} (db : Database κ) [LinearOrder κ]

def FindOptionsWhere.holds (filter : FindOptionsWhere) (row : SignedOrderEntity) : Bool :=
  (Column.all.all fun column => match filter.columns column with
    | none => true
    | some value => db.equal column value row) &&
  decide (db.collate (Nat.toDigits 10 filter.expiration) ≤ db.collate row.expiration)

def paginated {α : Type} (page perPage : Nat) (rows : List α) : Checked (List α) := do
  Checked.require (1 ≤ page ∨ perPage = 0) "OFFSET must not be negative"
  return if perPage = 0 then rows else Paging.slice perPage (page - 1) rows

def orderFilters (buffer now : Nat) (orderFieldFilters : Filter) (trader : Option Text) : List FindOptionsWhere :=
  let filters := match trader with
    | some trader => [Function.update orderFieldFilters .maker (some trader),
        Function.update orderFieldFilters .taker (some trader)]
    | none => [orderFieldFilters]
  let minExpiryTime := now / 1000 + buffer
  filters.map fun filter => ⟨Function.update filter .expiration none,minExpiryTime⟩

def getOrdersAsync (read : List SignedOrderEntity → List SignedOrderEntity) (buffer now page perPage : Nat)
    (orderFieldFilters : Filter) (trader : Option Text) (table : SignedOrders) :
    Checked (PaginatedCollection (Option SRAOrder)) := do
  let filters := orderFilters buffer now orderFieldFilters trader
  let rows := table.rows.filter fun row => filters.any fun filter => filter.holds db row
  let signedOrderEntities ← paginated page perPage (read rows)
  return ⟨rows.length,page,perPage,signedOrderEntities.map deserializeOrderToSRAOrder⟩

def traderOf (query : Query) : Option Text :=
  match query "trader" with
  | some (c::rest) => some (c::rest)
  | _ => none

def ordersAsync (crypto : Crypto) (read : List SignedOrderEntity → List SignedOrderEntity) (buffer now : Nat)
    (page perPage : Option Nat) (query : Query) (table : SignedOrders) :
    Checked (PaginatedCollection (Option SRAOrder)) := do
  let query := normalizedQuery crypto query
  let (page,perPage) ← parsePaginationConfig page perPage
  getOrdersAsync db read buffer now page perPage (fun column => query column.propertyName) (traderOf query) table

/-- What a query asks of a row. A trader takes the place of the maker in one alternative and of the taker in the
other. -/
structure Asked (crypto : Crypto) (minExpiryTime : Nat) (query : Query) (row : SignedOrderEntity) : Prop where
  unexpired : db.collate (Nat.toDigits 10 minExpiryTime) ≤ db.collate row.expiration
  columns : ∀ column value, column ≠ .expiration → column ≠ .maker → column ≠ .taker →
    query column.propertyName = some value → db.equal column (normalized crypto value) row = true
  traders : let named := fun side address => ∀ value, query side = some value → address = normalized crypto value
    (∃ trader, trader ≠ [] ∧ query "trader" = some trader ∧
      (row.maker = normalized crypto trader ∧ named "taker" row.taker ∨
        row.taker = normalized crypto trader ∧ named "maker" row.maker)) ∨
    (∀ trader, query "trader" = some trader → trader = []) ∧ named "maker" row.maker ∧ named "taker" row.taker

variable {db} {crypto : Crypto} {query : Query} {row : SignedOrderEntity} {table : SignedOrders}

theorem Column.listed (column : Column) : column ∈ Column.all := by
  cases column <;> decide

theorem holdsWhere {filter : FindOptionsWhere} : filter.holds db row = true ↔
    (∀ column value, filter.columns column = some value → db.equal column value row = true) ∧
      db.collate (Nat.toDigits 10 filter.expiration) ≤ db.collate row.expiration := by
  rw [FindOptionsWhere.holds, Bool.and_eq_true, List.all_eq_true, decide_eq_true_iff]
  refine and_congr_left' ⟨fun all column value given => ?_,fun all column _ => ?_⟩
  · have here := all column column.listed
    rwa [given] at here
  · cases given : filter.columns column with
    | none => rfl
    | some value => exact all column value given

omit [LinearOrder κ] in
theorem columnsApart (filter : Filter) : (∀ column value, Function.update filter .expiration none column = some value →
      db.equal column value row = true) ↔
    (∀ column value, column ≠ .expiration → column ≠ .maker → column ≠ .taker → filter column = some value →
      db.equal column value row = true) ∧
    (∀ value, filter .maker = some value → row.maker = value) ∧
      ∀ value, filter .taker = some value → row.taker = value := by
  constructor
  · intro all
    refine ⟨fun column value notExpiration _ _ given => all column value ?_,fun value given => ?_,fun value given => ?_⟩
    · rwa [Function.update_of_ne notExpiration]
    · exact of_decide_eq_true ((db.maker value row).symm.trans (all .maker value given))
    · exact of_decide_eq_true ((db.taker value row).symm.trans (all .taker value given))
  · rintro ⟨others,maker,taker⟩ column value given
    by_cases expiration : column = .expiration
    · rw [expiration, Function.update_self] at given
      cases given
    · rw [Function.update_of_ne expiration] at given
      by_cases onMaker : column = .maker
      · subst onMaker
        exact (db.maker value row).trans (decide_eq_true (maker value given))
      · by_cases onTaker : column = .taker
        · subst onTaker
          exact (db.taker value row).trans (decide_eq_true (taker value given))
        · exact others column value expiration onMaker onTaker given

theorem normalizedNil {text : Text} : normalized crypto text = [] ↔ text = [] := by
  rw [normalized]
  split
  · exact List.map_eq_nil_iff
  · exact Iff.rfl

theorem traderNormalized : traderOf (normalizedQuery crypto query) = (traderOf query).map (normalized crypto) := by
  unfold traderOf normalizedQuery
  cases query "trader" with
  | none => rfl
  | some trader =>
    cases trader with
    | nil => rw [Option.map_some, normalizedNil.mpr rfl]; rfl
    | cons c rest =>
      cases spelled : normalized crypto (c::rest) with
      | nil => cases normalizedNil.mp spelled
      | cons d more => simp only [Option.map_some, spelled]

theorem traderGiven {trader : Text} : traderOf query = some trader ↔ trader ≠ [] ∧ query "trader" = some trader := by
  unfold traderOf
  split
  · rename_i c rest given
    rw [given, Option.some_inj]
    exact ⟨fun same => ⟨same ▸ List.cons_ne_nil c rest,same⟩,And.right⟩
  · rename_i other
    refine iff_of_false (by simp) fun claimed => ?_
    obtain ⟨c,rest,rfl⟩ := List.exists_cons_of_ne_nil claimed.1
    exact other c rest claimed.2

theorem traderNone : traderOf query = none ↔ ∀ trader, query "trader" = some trader → trader = [] := by
  unfold traderOf
  split
  · rename_i c rest given
    exact iff_of_false (by simp) fun empty => by cases empty _ given
  · rename_i other
    refine iff_of_true rfl fun trader given => ?_
    by_contra some'
    obtain ⟨c,rest,rfl⟩ := List.exists_cons_of_ne_nil some'
    exact other c rest given

theorem normalizedGiven {key : String} {asks : Text → Prop} :
    (∀ value, normalizedQuery crypto query key = some value → asks value) ↔
      ∀ value, query key = some value → asks (normalized crypto value) := by
  simp only [normalizedQuery, Option.map_eq_some_iff, forall_exists_index, and_imp, forall_apply_eq_imp_iff₂]

def Others (db : Database κ) (filter : Filter) (row : SignedOrderEntity) : Prop :=
  ∀ column value, column ≠ .expiration → column ≠ .maker → column ≠ .taker → filter column = some value →
    db.equal column value row = true

omit [LinearOrder κ] in
theorem othersUpdated {filter : Filter} {column : Column} {value : Option Text}
    (side : column = .maker ∨ column = .taker) :
    Others db (Function.update filter column value) row ↔ Others db filter row := by
  refine forall₂_congr fun other given => imp_congr_right fun _ => imp_congr_right fun notMaker =>
    imp_congr_right fun notTaker => ?_
  rw [Function.update_of_ne (by rcases side with rfl | rfl <;> assumption)]

theorem alternativeHolds {filter : Filter} {minExpiryTime : Nat} :
    FindOptionsWhere.holds db ⟨Function.update filter .expiration none,minExpiryTime⟩ row = true ↔
      (Others db filter row ∧ (∀ value, filter .maker = some value → row.maker = value) ∧
        ∀ value, filter .taker = some value → row.taker = value) ∧
      db.collate (Nat.toDigits 10 minExpiryTime) ≤ db.collate row.expiration := by
  rw [holdsWhere, columnsApart, Others]

theorem askedRow (buffer now : Nat) :
    ((orderFilters buffer now (fun column => normalizedQuery crypto query column.propertyName)
      (traderOf (normalizedQuery crypto query))).any fun filter => filter.holds db row) = true ↔
    Asked db crypto (now / 1000 + buffer) query row := by
  obtain ⟨filter,same⟩ : ∃ filter : Filter, filter = fun column => normalizedQuery crypto query column.propertyName :=
    ⟨_,rfl⟩
  have others : Others db filter row ↔
      ∀ column value, column ≠ .expiration → column ≠ .maker → column ≠ .taker →
        query column.propertyName = some value → db.equal column (normalized crypto value) row = true := by
    rw [same]
    refine forall_congr' fun column => ?_
    simp only [forall_comm (α := Text), normalizedGiven]
  have maker : (∀ value, filter .maker = some value → row.maker = value) ↔
      ∀ value, query "maker" = some value → row.maker = normalized crypto value := by
    rw [same]
    exact normalizedGiven
  have taker : (∀ value, filter .taker = some value → row.taker = value) ↔
      ∀ value, query "taker" = some value → row.taker = normalized crypto value := by
    rw [same]
    exact normalizedGiven
  rw [← same, traderNormalized]
  cases given : traderOf query with
  | none =>
    have absent := traderNone.mp given
    simp only [orderFilters, Option.map_none, List.map_cons, List.map_nil, List.any_cons, List.any_nil, Bool.or_false,
      alternativeHolds, others, maker, taker]
    constructor
    · rintro ⟨⟨columns,maker,taker⟩,unexpired⟩
      exact ⟨unexpired,columns,.inr ⟨absent,maker,taker⟩⟩
    · rintro ⟨unexpired,columns,⟨trader,some',here,_⟩ | ⟨_,maker,taker⟩⟩
      · exact absurd (absent trader here) some'
      · exact ⟨⟨columns,maker,taker⟩,unexpired⟩
  | some trader =>
    obtain ⟨some',here⟩ := traderGiven.mp given
    simp only [orderFilters, Option.map_some, List.map_cons, List.map_nil, List.any_cons, List.any_nil, Bool.or_false,
      Bool.or_eq_true, alternativeHolds, othersUpdated (.inl rfl), othersUpdated (.inr rfl), others,
      Function.update_self, ne_eq, reduceCtorEq, not_false_eq_true, Function.update_of_ne, maker, taker,
      Option.some_inj, forall_eq']
    constructor
    · rintro (⟨⟨columns,maker,taker⟩,unexpired⟩ | ⟨⟨columns,maker,taker⟩,unexpired⟩)
      · exact ⟨unexpired,columns,.inl ⟨trader,some',here,.inl ⟨maker,taker⟩⟩⟩
      · exact ⟨unexpired,columns,.inl ⟨trader,some',here,.inr ⟨taker,maker⟩⟩⟩
    · rintro ⟨unexpired,columns,⟨other,_,there,sides⟩ | ⟨absent,_⟩⟩
      · obtain rfl := Option.some_inj.mp (here.symm.trans there)
        rcases sides with ⟨maker,taker⟩ | ⟨taker,maker⟩
        · exact .inl ⟨⟨columns,maker,taker⟩,unexpired⟩
        · exact .inr ⟨⟨columns,maker,taker⟩,unexpired⟩
      · exact absurd (absent trader here) some'

omit [LinearOrder κ] in
theorem keysDistinct (db : Database κ) {rows : List SignedOrderEntity}
    (keys : (rows.map SignedOrderEntity.hash).Nodup) :
    (rows.map fun row => db.collate row.hash).Nodup := by
  have collated := keys.map db.distinct
  rwa [List.map_map] at collated

def Marked (text : Text) : Prop := text.take 2 = ['0','x']

structure SameAddress (crypto : Crypto) (text other : Text) (address : Address) : Prop where
  read : Ethers.getAddress crypto text = .ok address
  readOther : Ethers.getAddress crypto other = .ok address
  plain : Ethers.isIcap text = false
  plainOther : Ethers.isIcap other = false

theorem normalizedRead {text : Text} {address : Address} (read : Ethers.getAddress crypto text = .ok address) :
    normalized crypto text = text.map Char.toLower := by
  rw [normalized]
  split
  · rfl
  · rename_i other
    cases text with
    | nil => rfl
    | cons c rest =>
      refine absurd ⟨List.cons_ne_nil c rest,?_⟩ other
      rw [Ethers.isAddress, read]
      rfl

theorem plainHex {text : Text} {address : Address} (read : Ethers.getAddress crypto text = .ok address)
    (plain : Ethers.isIcap text = false) :
    (stripHexPrefix text).length = 40 ∧ HexText.IsHex (stripHexPrefix text) ∧
      BitVec.ofNat 160 (HexText.value (stripHexPrefix text)) = address := by
  rcases Ethers.hexOrIcap read with ⟨long,hex⟩ | icap
  · exact ⟨long,hex,((Ethers.hexAddress long hex).mp read).2⟩
  · exact absurd (plain.symm.trans icap) Bool.false_ne_true

theorem lowerSplit (text : Text) :
    (Marked text ∧ text.map Char.toLower = '0' :: 'x' :: (stripHexPrefix text).map Char.toLower) ∨
      (¬Marked text ∧ text.map Char.toLower = (stripHexPrefix text).map Char.toLower) := by
  unfold stripHexPrefix
  split
  · exact .inl ⟨rfl,rfl⟩
  · rename_i other
    refine .inr ⟨fun marked => ?_,rfl⟩
    exact other (text.drop 2) ((List.take_append_drop 2 text).symm.trans (by rw [marked]; rfl))

namespace SameAddress
variable {text other : Text} {address : Address}

theorem lower (same : SameAddress crypto text other address) :
    (stripHexPrefix text).map Char.toLower = (stripHexPrefix other).map Char.toLower ∧
      (stripHexPrefix text).length = 40 ∧ (stripHexPrefix other).length = 40 := by
  obtain ⟨long,hex,rfl⟩ := plainHex same.read same.plain
  obtain ⟨long',hex',value⟩ := plainHex same.readOther same.plainOther
  have small := HexText.valueLt (stripHexPrefix text)
  have small' := HexText.valueLt (stripHexPrefix other)
  rw [long] at small
  rw [long'] at small'
  have number := congrArg BitVec.toNat value
  rw [BitVec.toNat_ofNat, BitVec.toNat_ofNat, Nat.mod_eq_of_lt (small'.trans_le (by norm_num)),
    Nat.mod_eq_of_lt (small.trans_le (by norm_num))] at number
  exact ⟨(lowerEq hex hex' (long.trans long'.symm)).mpr number.symm,long,long'⟩

theorem normalized (same : SameAddress crypto text other address) :
    normalized crypto text = normalized crypto other ↔ (Marked text ↔ Marked other) := by
  rw [normalizedRead same.read, normalizedRead same.readOther]
  obtain ⟨lower,_,_⟩ := same.lower
  rcases lowerSplit text with ⟨marked,texts⟩ | ⟨marked,texts⟩ <;>
    rcases lowerSplit other with ⟨markedOther,texts'⟩ | ⟨markedOther,texts'⟩ <;>
    rw [texts, texts', lower]
  · exact iff_of_true rfl (iff_of_true marked markedOther)
  · refine iff_of_false (fun equal => ?_) fun alike => markedOther (alike.mp marked)
    have lengths := congrArg List.length equal
    simp only [List.length_cons] at lengths
    omega
  · refine iff_of_false (fun equal => ?_) fun alike => marked (alike.mpr markedOther)
    have lengths := congrArg List.length equal
    simp only [List.length_cons] at lengths
    omega
  · exact iff_of_true rfl (iff_of_false marked markedOther)

end SameAddress

theorem paginatedPage {α : Type} {perPage : Nat} (positive : 0 < perPage) (page : Nat) (rows : List α) :
    paginated (page + 1) perPage rows = .ok (Paging.slice perPage page rows) := by
  rw [paginated, Checked.requireThen (.inl (Nat.le_add_left 1 page)), if_neg positive.ne', Nat.add_sub_cancel]
  rfl

end

def sampleDatabase : Database Text where
  collate := id
  distinct := Function.injective_id
  equal column value row := match column with
    | .maker => decide (row.maker = value)
    | .taker => decide (row.taker = value)
    | _ => false
  maker _ _ := rfl
  taker _ _ := rfl

def byHash (rows : List SignedOrderEntity) : List SignedOrderEntity := rows.insertionSort fun a b => a.hash ≤ b.hash

theorem byHashOrdered (rows : List SignedOrderEntity) :
    Paging.Ordered (fun row : SignedOrderEntity => sampleDatabase.collate row.hash) rows (byHash rows) where
  perm := List.perm_insertionSort _ rows
  order := by
    have total : Std.Total fun a b : SignedOrderEntity => a.hash ≤ b.hash := ⟨fun a b => le_total a.hash b.hash⟩
    have trans : IsTrans SignedOrderEntity fun a b => a.hash ≤ b.hash := ⟨fun a b c => le_trans⟩
    exact List.pairwise_map.mpr (List.pairwise_insertionSort _ rows)

def sampleRow (hash : Text) : SignedOrderEntity :=
  serializeOrder ⟨sampleOrder 'a' 'b',⟨hash,.zero false,none,.Null⟩⟩

def sampleRows : SignedOrders := ⟨[sampleRow ['b'],sampleRow ['a']],by decide⟩

end Client
end Perpetual
