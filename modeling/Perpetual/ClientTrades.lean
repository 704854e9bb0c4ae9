import Perpetual.EncodedFills
import Perpetual.TradeOperation

/-! `TradeOperation` over the texts of the client: the arguments of `trade` that a commit builds, and
what P1Trade makes of them. -/
namespace Perpetual

namespace Ethers

def uint256OfNumber (v : ℤ) : Checked Uint256 := do
  Checked.require (|v| < 2 ^ 53 - 1) "overflow"
  SignedOrder.uint256 v

end Ethers

namespace Client

structure TempTradeArg where
  maker : Text
  taker : Text
  trader : Text
  data : Text
  deriving DecidableEq

structure TradeArg where
  makerIndex : ℤ
  takerIndex : ℤ
  trader : Text
  data : Text
  deriving DecidableEq

def toLowerCase (text : Text) : Text := text.map Char.toLower

def indexOf (accounts : List Text) (account : Text) : ℤ :=
  if account ∈ accounts then accounts.idxOf account else -1

structure TradeOperation where
  trades : List TempTradeArg
  committed : Bool
  deriving DecidableEq

namespace TradeOperation

def initiate : TradeOperation := ⟨[],false⟩

def addTradeArg (op : TradeOperation) (arg : TempTradeArg) : Checked TradeOperation := do
  Checked.require (op.committed = false) "Operation already committed"
  return { op with trades := op.trades ++
    [{ arg with maker := toLowerCase arg.maker, taker := toLowerCase arg.taker }] }

/-- A `Set` keeps the first of equal texts, and `sort` goes by code units, here the characters. -/
def accounts (op : TradeOperation) : List Text :=
  (op.trades.flatMap fun t => [t.maker,t.taker]).eraseDups.insertionSort (· ≤ ·)

def tradeArgs (op : TradeOperation) : List TradeArg :=
  op.trades.map fun t => ⟨indexOf op.accounts t.maker,indexOf op.accounts t.taker,t.trader,t.data⟩

end TradeOperation

def encodeTradeArg (crypto : Crypto) (arg : TradeArg) : Checked Perpetual.TradeArg := do
  let takerIndex ← Ethers.uint256OfNumber arg.takerIndex
  let makerIndex ← Ethers.uint256OfNumber arg.makerIndex
  let trader ← Ethers.getAddress crypto arg.trader
  let data ← Ethers.arrayify arg.data
  return ⟨takerIndex,makerIndex,trader,data⟩

structure TradeCall where
  accounts : List Address
  trades : List Perpetual.TradeArg

def encodeTrade (crypto : Crypto) (accounts : List Text) (tradeArgs : List TradeArg) : Checked TradeCall := do
  let accounts ← accounts.mapM (Ethers.getAddress crypto)
  let trades ← tradeArgs.mapM (encodeTradeArg crypto)
  return ⟨accounts,trades⟩

namespace TradeOperation

/-- An operation that could not be sent can be committed again. -/
def commit {τ : Type} (crypto : Crypto) (sendTransaction : TradeCall → Checked τ) (op : TradeOperation) :
    TradeOperation × Checked τ :=
  if op.committed then (op,.error "Operation already committed")
  else if op.trades = [] then (op,.error "No tradeArgs have been added to trade")
  else match encodeTrade crypto op.accounts op.tradeArgs >>= sendTransaction with
    | .error reason => ({ op with committed := false },.error reason)
    | .ok txRes => ({ op with committed := true },.ok txRes)

end TradeOperation

structure Prefixed (text : Text) : Prop where
  marked : text = '0' :: 'x' :: stripHexPrefix text
  long : (stripHexPrefix text).length = 40
  hex : HexText.IsHex (stripHexPrefix text)

instance (text : Text) : Decidable (Prefixed text) :=
  decidable_of_iff (text = '0' :: 'x' :: stripHexPrefix text ∧ (stripHexPrefix text).length = 40 ∧
    HexText.IsHex (stripHexPrefix text)) ⟨fun h => ⟨h.1,h.2.1,h.2.2⟩,fun h => ⟨h.marked,h.long,h.hex⟩⟩

def addressOf (text : Text) : Address := BitVec.ofNat 160 (HexText.value (stripHexPrefix text))

section
variable {text other : Text}

theorem lowerDigits (h : Prefixed text) :
    toLowerCase text = '0' :: 'x' :: (stripHexPrefix text).map Char.toLower := by
  have zero : '0'.toLower = '0' ∧ 'x'.toLower = 'x' := by decide
  have marked := congrArg toLowerCase h.marked
  rw [marked, toLowerCase, List.map_cons, List.map_cons, zero.1, zero.2]

theorem lowerStripped (h : Prefixed text) :
    stripHexPrefix (toLowerCase text) = (stripHexPrefix text).map Char.toLower := by
  rw [lowerDigits h]
  rfl

theorem lowerPrefixed (h : Prefixed text) : Prefixed (toLowerCase text) where
  marked := by rw [lowerStripped h, lowerDigits h]
  long := by rw [lowerStripped h, List.length_map, h.long]
  hex := by
    rw [lowerStripped h]
    exact HexText.hexToLower h.hex

theorem addressLower (h : Prefixed text) : addressOf (toLowerCase text) = addressOf text := by
  rw [addressOf, lowerStripped h, HexText.valueToLower h.hex, addressOf]

theorem addressNumber (h : Prefixed text) : (addressOf text).toNat = HexText.value (stripHexPrefix text) := by
  have small := HexText.valueLt (stripHexPrefix text)
  rw [h.long] at small
  rw [addressOf, BitVec.toNat_ofNat, Nat.mod_eq_of_lt (small.trans_eq (by norm_num))]

theorem lowerOrder (h : Prefixed text) (h' : Prefixed other) :
    toLowerCase text < toLowerCase other ↔ (addressOf text).toNat < (addressOf other).toNat := by
  rw [addressNumber h, addressNumber h', ← HexText.lowerLt h.hex h'.hex (h.long.trans h'.long.symm),
    lowerDigits h, lowerDigits h']
  simp only [List.cons_lt_cons_iff, lt_irrefl, true_and, false_or]

theorem addressRead (crypto : Crypto) (h : Prefixed text) :
    Ethers.getAddress crypto (toLowerCase text) = .ok (addressOf text) := by
  have lower := lowerPrefixed h
  have plain : Ethers.mixedCase (stripHexPrefix (toLowerCase text)) = false := by
    rw [Ethers.mixedCase, Bool.and_eq_false_iff, lowerStripped h]
    refine .inl (List.any_eq_false.mpr fun c mem => ?_)
    obtain ⟨d,inside,rfl⟩ := List.mem_map.mp mem
    exact HexText.digitCases (fun d => ¬Ethers.isUpper d.toLower = true) (by decide) (h.hex d inside)
  exact (Ethers.hexAddress lower.long lower.hex).mpr ⟨.inl plain,addressLower h⟩

end

theorem nodupEraseDups {α : Type} [BEq α] [LawfulBEq α] (values : List α) : values.eraseDups.Nodup := by
  induction long : values.length using Nat.strong_induction_on generalizing values with
  | _ n ih =>
    cases values with
    | nil => simp
    | cons v rest =>
      have shorter := List.length_filter_le (fun b => !b == v) rest
      have less : (rest.filter fun b => !b == v).length < n := by
        rw [← long, List.length_cons]
        exact Nat.lt_succ_of_le shorter
      rw [List.eraseDups_cons, List.nodup_cons]
      exact ⟨by simp,ih _ less _ rfl⟩

namespace TradeOperation

def lowered (arg : TempTradeArg) : TempTradeArg :=
  { arg with maker := toLowerCase arg.maker, taker := toLowerCase arg.taker }

theorem added (args : List TempTradeArg) {op : TradeOperation} (pending : op.committed = false) :
    args.foldlM addTradeArg op = .ok { op with trades := op.trades ++ args.map lowered } := by
  induction args generalizing op with
  | nil => simp
  | cons arg rest ih =>
    have first : addTradeArg op arg = .ok { op with trades := op.trades ++ [lowered arg] } := by
      simp only [addTradeArg, Checked.bindOk, Checked.requireOk, exists_const, Checked.pureOk]
      exact ⟨pending,rfl⟩
    simp only [List.foldlM_cons, Checked.bindOk]
    have later : rest.foldlM addTradeArg { op with trades := op.trades ++ [lowered arg] } = .ok _ := ih pending
    refine ⟨_,first,later.trans ?_⟩
    rw [List.map_cons, List.append_assoc, List.singleton_append]

section
variable {args : List TempTradeArg} {op : TradeOperation}

def Spelled (arg : TempTradeArg) : Prop := Prefixed arg.maker ∧ Prefixed arg.taker

instance (arg : TempTradeArg) : Decidable (Spelled arg) :=
  inferInstanceAs (Decidable (Prefixed arg.maker ∧ Prefixed arg.taker))

theorem memAccounts (trades : op.trades = args.map lowered) {text : Text} :
    text ∈ op.accounts ↔ ∃ arg ∈ args, text = toLowerCase arg.maker ∨ text = toLowerCase arg.taker := by
  simp [accounts, trades, lowered]

theorem accountsPrefixed (trades : op.trades = args.map lowered) (spelled : ∀ arg ∈ args, Spelled arg)
    {text : Text} (mem : text ∈ op.accounts) : ∃ t, Prefixed t ∧ text = toLowerCase t := by
  obtain ⟨arg,inside,rfl | rfl⟩ := (memAccounts trades).mp mem
  · exact ⟨_,(spelled arg inside).1,rfl⟩
  · exact ⟨_,(spelled arg inside).2,rfl⟩

theorem accountsSorted (op : TradeOperation) : op.accounts.Pairwise (· < ·) := by
  have sorted : op.accounts.Pairwise (· ≤ ·) := List.pairwise_insertionSort _ _
  have distinct : op.accounts.Nodup := (List.perm_insertionSort _ _).nodup_iff.mpr (nodupEraseDups _)
  exact (sorted.and distinct).imp fun h => lt_of_le_of_ne h.1 h.2

theorem addressesSorted (trades : op.trades = args.map lowered) (spelled : ∀ arg ∈ args, Spelled arg) :
    (op.accounts.map addressOf).Pairwise fun a b => a.toNat < b.toNat := by
  rw [List.pairwise_map]
  refine (accountsSorted op).imp_of_mem fun memA memB less => ?_
  obtain ⟨a,prefixedA,rfl⟩ := accountsPrefixed trades spelled memA
  obtain ⟨b,prefixedB,rfl⟩ := accountsPrefixed trades spelled memB
  rw [addressLower prefixedA, addressLower prefixedB]
  exact (lowerOrder prefixedA prefixedB).mp less

theorem addressesRead (crypto : Crypto) (trades : op.trades = args.map lowered)
    (spelled : ∀ arg ∈ args, Spelled arg) :
    op.accounts.mapM (Ethers.getAddress crypto) = .ok (op.accounts.map addressOf) := by
  rw [Checked.mapMOk, List.forall₂_map_right_iff, List.forall₂_same]
  intro text mem
  obtain ⟨t,isPrefixed,rfl⟩ := accountsPrefixed trades spelled mem
  rw [addressRead crypto isPrefixed, addressLower isPrefixed]

theorem addressesExact (trades : op.trades = args.map lowered) (spelled : ∀ arg ∈ args, Spelled arg)
    (a : Address) : a ∈ op.accounts.map addressOf ↔
      ∃ arg ∈ args, a = addressOf arg.maker ∨ a = addressOf arg.taker := by
  rw [List.mem_map]
  constructor
  · rintro ⟨text,mem,rfl⟩
    obtain ⟨arg,inside,rfl | rfl⟩ := (memAccounts trades).mp mem
    · exact ⟨arg,inside,.inl (addressLower (spelled arg inside).1)⟩
    · exact ⟨arg,inside,.inr (addressLower (spelled arg inside).2)⟩
  · rintro ⟨arg,inside,rfl | rfl⟩
    · exact ⟨_,(memAccounts trades).mpr ⟨arg,inside,.inl rfl⟩,addressLower (spelled arg inside).1⟩
    · exact ⟨_,(memAccounts trades).mpr ⟨arg,inside,.inr rfl⟩,addressLower (spelled arg inside).2⟩

def PointsTo (addresses : List Address) (index : ℤ) (account : Address) : Prop :=
  ∃ n : Nat, index = n ∧ addresses[n]? = some account

theorem pointsTo {accounts : List Text} {text : Text} (mem : text ∈ accounts) :
    PointsTo (accounts.map addressOf) (indexOf accounts text) (addressOf text) := by
  have inside := List.idxOf_lt_length_iff.mpr mem
  refine ⟨accounts.idxOf text,if_pos mem,?_⟩
  rw [List.getElem?_map, List.getElem?_eq_getElem inside, List.getElem_idxOf, Option.map_some]

theorem PointsTo.encoded {addresses : List Address} {index : ℤ} {account : Address}
    (points : PointsTo addresses index account) {x : Uint256} (ok : Ethers.uint256OfNumber index = .ok x) :
    addresses[x.toNat]? = some account := by
  obtain ⟨n,rfl,found⟩ := points
  simp only [Ethers.uint256OfNumber, Checked.bindOk, Checked.requireOk, exists_const] at ok
  rw [Int.ofNat_inj.mp (SignedOrder.uint256Ok.mp ok.2), found]

structure Kept (addresses : List Address) (arg : TempTradeArg) (t : TradeArg) : Prop where
  maker : PointsTo addresses t.makerIndex (addressOf arg.maker)
  taker : PointsTo addresses t.takerIndex (addressOf arg.taker)
  trader : t.trader = arg.trader
  data : t.data = arg.data

structure Received (crypto : Crypto) (addresses : List Address) (arg : TempTradeArg) (t : Perpetual.TradeArg) :
    Prop where
  maker : addresses[t.makerIndex.toNat]? = some (addressOf arg.maker)
  taker : addresses[t.takerIndex.toNat]? = some (addressOf arg.taker)
  trader : Ethers.getAddress crypto arg.trader = .ok t.trader
  data : Ethers.arrayify arg.data = .ok t.data

theorem argsKept (trades : op.trades = args.map lowered) (spelled : ∀ arg ∈ args, Spelled arg) :
    List.Forall₂ (Kept (op.accounts.map addressOf)) args op.tradeArgs := by
  rw [tradeArgs, trades, List.map_map, List.forall₂_map_right_iff, List.forall₂_same]
  intro arg mem
  have maker := pointsTo ((memAccounts trades).mpr ⟨arg,mem,.inl rfl⟩)
  have taker := pointsTo ((memAccounts trades).mpr ⟨arg,mem,.inr rfl⟩)
  rw [addressLower (spelled arg mem).1] at maker
  rw [addressLower (spelled arg mem).2] at taker
  exact ⟨maker,taker,rfl,rfl⟩

theorem Kept.received {crypto : Crypto} {addresses : List Address} {arg : TempTradeArg} {t : TradeArg}
    (kept : Kept addresses arg t) {sent : Perpetual.TradeArg} (ok : encodeTradeArg crypto t = .ok sent) :
    Received crypto addresses arg sent := by
  simp only [encodeTradeArg, Checked.bindOk, Checked.pureOk] at ok
  obtain ⟨takerIndex,taker,makerIndex,maker,trader,isTrader,data,isData,rfl⟩ := ok
  rw [kept.trader] at isTrader
  rw [kept.data] at isData
  exact ⟨kept.maker.encoded maker,kept.taker.encoded taker,isTrader,isData⟩

theorem commitSends {τ : Type} {crypto : Crypto} {sendTransaction : TradeCall → Checked τ} {txRes : τ}
    (ok : (op.commit crypto sendTransaction).2 = .ok txRes) :
    ∃ call, encodeTrade crypto op.accounts op.tradeArgs = .ok call ∧ sendTransaction call = .ok txRes := by
  unfold commit at ok
  split at ok
  · cases ok
  · split at ok
    · cases ok
    · split at ok
      · cases ok
      · rename_i sent same
        obtain rfl := Except.ok.inj ok
        exact Checked.bindOk.mp same

theorem argsReceived {crypto : Crypto} {addresses : List Address} {tradeArgs : List TradeArg}
    {sent : List Perpetual.TradeArg} (kept : List.Forall₂ (Kept addresses) args tradeArgs)
    (ok : List.Forall₂ (fun t s => encodeTradeArg crypto t = .ok s) tradeArgs sent) :
    List.Forall₂ (Received crypto addresses) args sent := by
  induction kept generalizing sent with
  | nil =>
    cases ok
    exact .nil
  | cons first rest ih =>
    cases ok with
    | cons firstOk restOk => exact .cons (first.received firstOk) (ih restOk)

structure Accepted (crypto : Crypto) (args : List TempTradeArg) (op : TradeOperation)
    (addresses : List Address) : Prop where
  read : op.accounts.mapM (Ethers.getAddress crypto) = .ok addresses
  some' : addresses ≠ []
  sorted : addresses.Pairwise fun a b => a.toNat < b.toNat
  verified : Trade.verifyAccounts addresses = .ok ()
  mentioned : ∀ a, a ∈ addresses ↔ ∃ arg ∈ args, a = addressOf arg.maker ∨ a = addressOf arg.taker
  each : List.Forall₂ (Kept addresses) args op.tradeArgs
  sent : ∀ {τ : Type} (sendTransaction : TradeCall → Checked τ) (txRes : τ),
    (op.commit crypto sendTransaction).2 = .ok txRes → ∃ call, sendTransaction call = .ok txRes ∧
      call.accounts = addresses ∧ List.Forall₂ (Received crypto addresses) args call.trades

theorem batchAccepted (crypto : Crypto) (args : List TempTradeArg) (some' : args ≠ [])
    (spelled : ∀ arg ∈ args, Spelled arg) :
    ∃ op addresses, args.foldlM addTradeArg initiate = .ok op ∧ op.committed = false ∧
      Accepted crypto args op addresses := by
  let op : TradeOperation := ⟨args.map lowered,false⟩
  have trades : op.trades = args.map lowered := rfl
  have sorted := addressesSorted trades spelled
  have mentioned := addressesExact trades spelled
  have kept := argsKept trades spelled
  refine ⟨op,op.accounts.map addressOf,added args rfl,rfl,addressesRead crypto trades spelled,?_,sorted,?_,
    mentioned,kept,?_⟩
  · obtain ⟨arg,mem⟩ := List.exists_mem_of_ne_nil args some'
    exact List.ne_nil_of_mem ((mentioned (addressOf arg.maker)).mpr ⟨arg,mem,.inl rfl⟩)
  · cases listed : op.accounts.map addressOf with
    | nil =>
      obtain ⟨arg,mem⟩ := List.exists_mem_of_ne_nil args some'
      have inside := (mentioned (addressOf arg.maker)).mpr ⟨arg,mem,.inl rfl⟩
      rw [listed] at inside
      cases inside
    | cons first rest =>
      rw [listed] at sorted
      exact Trade.sortedAccepted sorted
  · intro τ sendTransaction txRes ok
    obtain ⟨call,encoded,sent⟩ := commitSends ok
    simp only [encodeTrade, Checked.bindOk, Checked.pureOk] at encoded
    obtain ⟨addresses,read,received,encoded,rfl⟩ := encoded
    obtain rfl := Except.ok.inj ((addressesRead crypto trades spelled).symm.trans read)
    exact ⟨_,sent,rfl,argsReceived kept (Checked.mapMOk.mp encoded)⟩

theorem accountsRefined (trades : op.trades = args.map lowered) (spelled : ∀ arg ∈ args, Spelled arg)
    {fills : List OrderBook.TradeArg}
    (same : List.Forall₂ (fun arg t => addressOf arg.maker = t.maker ∧ addressOf arg.taker = t.taker) args fills) :
    op.accounts.map addressOf = Perpetual.TradeOperation.accounts fills := by
  have sorted := addressesSorted trades spelled
  have total : Std.Total fun a b : Address => a.toNat ≤ b.toNat := ⟨fun a b => le_total a.toNat b.toNat⟩
  have trans : IsTrans Address fun a b => a.toNat ≤ b.toNat := ⟨fun _ _ _ => le_trans⟩
  have sorted' : (Perpetual.TradeOperation.accounts fills).Pairwise fun a b => a.toNat ≤ b.toNat :=
    List.pairwise_insertionSort _ _
  have distinct : (op.accounts.map addressOf).Nodup :=
    sorted.imp fun less same => less.ne (congrArg BitVec.toNat same)
  have distinct' : (Perpetual.TradeOperation.accounts fills).Nodup :=
    (List.perm_insertionSort _ _).nodup_iff.mpr (nodupEraseDups _)
  have members (a : Address) :
      a ∈ op.accounts.map addressOf ↔ a ∈ Perpetual.TradeOperation.accounts fills := by
    rw [addressesExact trades spelled]
    simp only [Perpetual.TradeOperation.accounts, List.mem_insertionSort, List.mem_eraseDups,
      List.mem_flatMap, List.mem_cons, List.not_mem_nil, or_false]
    clear sorted sorted' distinct distinct' trades spelled
    induction same with
    | nil => simp
    | cons first rest ih => simp [first.1, first.2, ih]
  refine List.Perm.eq_of_pairwise (fun a b _ _ le le' => BitVec.eq_of_toNat_eq (le_antisymm le le'))
    (sorted.imp le_of_lt) sorted' ?_
  exact (List.perm_ext_iff_of_nodup distinct distinct').mpr members

end

def sampleArg (maker taker : Char) : TempTradeArg :=
  ⟨'0' :: 'x' :: List.replicate 40 maker,'0' :: 'x' :: List.replicate 40 taker,[],[]⟩

theorem sampleAccepted : let args := [sampleArg 'b' 'A',sampleArg 'a' 'B',sampleArg '7' 'B']
    ∃ op addresses, args.foldlM addTradeArg initiate = .ok op ∧ op.committed = false ∧
      Accepted .sample args op addresses :=
  batchAccepted .sample _ (List.cons_ne_nil _ _) (by decide +kernel)

end TradeOperation

end Client
end Perpetual
