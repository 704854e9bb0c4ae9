import Perpetual.Median
import Perpetual.TypedSignature
import Perpetual.Storage
import Mathlib.Data.List.Nodup

/-! `P1MirrorOracle`: a price with as many signatures as the underlying oracle asks for. -/
namespace Perpetual

inductive MirrorOracleLog where
  | medianPrice (val age : Uint256)
  | setSigner (signer : Address) (authorized : Bool)
  | setBar (bar : Uint256)
  | setReader (reader : Address) (authorized : Bool)
  deriving DecidableEq, Repr

structure MirrorOracleContract where
  owner : Address
  val : Uint128
  age : Uint32
  bar : Uint256
  orcl : Address → Uint256
  readers : Address → Uint256
  slot : BitVec 8 → Address
  oracle : Address
  logs : List MirrorOracleLog

structure MakerOracle where
  bar : Checked Uint256
  orcl : Address → Checked Uint256
  slot : BitVec 8 → Checked Address

namespace P1MirrorOracle

def constructor (msg : Msg) (oracle : Address) : MirrorOracleContract where
  owner := msg.sender
  val := 0
  age := 0
  bar := 0
  orcl := fun _ => 0
  readers := fun _ => 0
  slot := fun _ => 0
  oracle := oracle
  logs := []

def peek (msg : Msg) (s : MirrorOracleContract) : Checked (Bytes32 × Bool) := do
  Checked.require (s.readers msg.sender = 1) "P1MirrorOracle#peek: Sender not authorized to get price"
  let val : Uint256 := widen s.val
  return (val,decide (0 < val.toNat))

def read (msg : Msg) (s : MirrorOracleContract) : Checked Bytes32 := do
  Checked.require (s.readers msg.sender = 1) "P1MirrorOracle#read: Sender not authorized to get price"
  let val : Uint256 := widen s.val
  Checked.require (0 < val.toNat) "P1MirrorOracle#read: Price is zero"
  return val

def getSignerId (signer : Address) : BitVec 8 := (signer >>> 152).setWidth 8

def recover (crypto : Crypto) (wat : Bytes32) (val age : Uint256) (v : BitVec 8) (r s : Bytes32) : Address :=
  let message := crypto.keccak256 (Abi.word val ++ Abi.word age ++ Abi.word wat)
  crypto.ecrecover (crypto.keccak256 (Abi.ascii "\x19Ethereum Signed Message:\n32" ++ Abi.word message)) v r s

structure PokeArgs where
  val : List Uint256
  age : List Uint256
  v : List (BitVec 8)
  r : List Bytes32
  s : List Bytes32

structure Poking where
  bloom : Uint256
  last : Uint256

def pokeOne (crypto : Crypto) (wat : Bytes32) (c : MirrorOracleContract) (args : PokeArgs) (p : Poking)
    (i : Nat) : Checked Poking := do
  let val ← Checked.at? args.val i
  let age ← Checked.at? args.age i
  let v ← Checked.at? args.v i
  let r ← Checked.at? args.r i
  let s ← Checked.at? args.s i
  let signer := recover crypto wat val age v r s
  Checked.require (c.orcl signer = 1) "P1MirrorOracle#poke: Invalid signer"
  Checked.require (c.age.toNat < age.toNat) "P1MirrorOracle#poke: Stale message"
  Checked.require (p.last.toNat ≤ val.toNat) "P1MirrorOracle#poke: Message out of order"
  let signerBit := 1#256 <<< (getSignerId signer).toNat
  Checked.require (p.bloom &&& signerBit = 0) "P1MirrorOracle#poke: Duplicate signer"
  return ⟨p.bloom ||| signerBit,val⟩

def poke (crypto : Crypto) (wat : Bytes32) (timestamp : Uint256) (args : PokeArgs)
    (c : MirrorOracleContract) : Checked MirrorOracleContract := do
  Checked.require (args.val.length = c.bar.toNat) "P1MirrorOracle#poke: Wrong number of messages"
  let _ ← (List.range args.val.length).foldlM (pokeOne crypto wat c args) ⟨0,0⟩
  let median ← Checked.at? args.val (args.val.length / 2)
  let val : Uint128 := median.setWidth 128
  let age : Uint32 := timestamp.setWidth 32
  return { c with val := val, age := age, logs := c.logs ++ [.medianPrice (widen val) (widen age)] }

def liftOne (maker : MakerOracle) (c : MirrorOracleContract) (signer : Address) :
    Checked MirrorOracleContract := do
  Checked.require ((← maker.orcl signer) = 1)
    "P1MirrorOracle#lift: Signer not authorized on underlying oracle"
  let signerId := getSignerId signer
  Checked.require (c.slot signerId = 0) "P1MirrorOracle#lift: Signer already authorized"
  return { c with
    orcl := Function.update c.orcl signer 1
    slot := Function.update c.slot signerId signer
    logs := c.logs ++ [.setSigner signer true] }

def lift (maker : MakerOracle) (signers : List Address) (c : MirrorOracleContract) :
    Checked MirrorOracleContract := signers.foldlM (liftOne maker) c

def dropOne (maker : MakerOracle) (c : MirrorOracleContract) (signer : Address) :
    Checked MirrorOracleContract := do
  Checked.require ((← maker.orcl signer) = 0)
    "P1MirrorOracle#drop: Signer is authorized on underlying oracle"
  Checked.require (c.orcl signer ≠ 0) "P1MirrorOracle#drop: Signer is already not authorized"
  return { c with
    orcl := Function.update c.orcl signer 0
    slot := Function.update c.slot (getSignerId signer) 0
    logs := c.logs ++ [.setSigner signer false] }

def drop (maker : MakerOracle) (signers : List Address) (c : MirrorOracleContract) :
    Checked MirrorOracleContract := signers.foldlM (dropOne maker) c

def setBar (maker : MakerOracle) (c : MirrorOracleContract) : Checked MirrorOracleContract := do
  let newBar ← maker.bar
  return { c with bar := newBar, logs := c.logs ++ [.setBar newBar] }

def setReader (authorized : Bool) (c : MirrorOracleContract) (reader : Address) : MirrorOracleContract :=
  { c with
    readers := Function.update c.readers reader (if authorized then 1 else 0)
    logs := c.logs ++ [.setReader reader authorized] }

def setReaders (msg : Msg) (authorized : Bool) (readers : List Address) (c : MirrorOracleContract) :
    Checked MirrorOracleContract := do
  Checked.require (msg.sender = c.owner) "Ownable: caller is not the owner"
  return readers.foldl (setReader authorized) c

def kiss (msg : Msg) : List Address → MirrorOracleContract → Checked MirrorOracleContract :=
  setReaders msg true

def diss (msg : Msg) : List Address → MirrorOracleContract → Checked MirrorOracleContract :=
  setReaders msg false

/-! What a poke accepts. -/

structure Message where
  val : Uint256
  age : Uint256
  v : BitVec 8
  r : Bytes32
  s : Bytes32
  deriving DecidableEq, Repr

def Message.signer (crypto : Crypto) (wat : Bytes32) (m : Message) : Address :=
  recover crypto wat m.val m.age m.v m.r m.s

def PokeArgs.messageAt (args : PokeArgs) (i : Nat) : Option Message := do
  let val ← args.val[i]?
  let age ← args.age[i]?
  let v ← args.v[i]?
  let r ← args.r[i]?
  let s ← args.s[i]?
  return ⟨val,age,v,r,s⟩

theorem messageAtVal {args : PokeArgs} {i : Nat} {m : Message} (here : args.messageAt i = some m) :
    args.val[i]? = some m.val := by
  simp only [PokeArgs.messageAt, bind, Option.bind_eq_some_iff] at here
  obtain ⟨val,hval,age,_,v,_,r,_,s,_,last⟩ := here
  cases Option.some.inj last
  exact hval

structure Read (args : PokeArgs) (count : Nat) (messages : List Message) : Prop where
  length : messages.length = count
  each : ∀ i < count, args.messageAt i = messages[i]?

section
variable {crypto : Crypto} {wat : Bytes32} {c c' : MirrorOracleContract} {args : PokeArgs}

structure Checks (crypto : Crypto) (wat : Bytes32) (c : MirrorOracleContract) (messages : List Message) :
    Prop where
  authorised : ∀ m ∈ messages, c.orcl (m.signer crypto wat) = 1
  fresh : ∀ m ∈ messages, c.age.toNat < m.age.toNat
  sorted : messages.Pairwise fun a b => a.val.toNat ≤ b.val.toNat
  ids : (messages.map fun m => getSignerId (m.signer crypto wat)).Nodup

structure Passed (crypto : Crypto) (wat : Bytes32) (c : MirrorOracleContract) (args : PokeArgs) (count : Nat)
    (p : Poking) (messages : List Message) : Prop where
  read : Read args count messages
  checks : Checks crypto wat c messages
  last : ∀ m ∈ messages, m.val.toNat ≤ p.last.toNat
  bloom : ∀ m ∈ messages, p.bloom.getLsbD (getSignerId (m.signer crypto wat)).toNat = true

theorem Read.next {count : Nat} {messages : List Message} {m : Message} (h : Read args count messages)
    (here : args.messageAt count = some m) : Read args (count + 1) (messages ++ [m]) := by
  have length := h.length
  refine ⟨by rw [List.length_append, length]; rfl,fun i inside => ?_⟩
  rcases Nat.lt_succ_iff_lt_or_eq.mp inside with before | same
  · rw [List.getElem?_append_left (by omega)]
    exact h.each i before
  · rw [same, here, List.getElem?_append_right (by omega), length, Nat.sub_self]
    rfl

theorem passedOne {count : Nat} {p p' : Poking} {messages : List Message}
    (h : Passed crypto wat c args count p messages) (ok : pokeOne crypto wat c args p count = .ok p') :
    ∃ m, Passed crypto wat c args (count + 1) p' (messages ++ [m]) := by
  simp only [pokeOne, Checked.bindOk, Checked.atOk, Checked.requireOk, exists_const, Checked.pureOk] at ok
  obtain ⟨val,hval,age,hage,v,hv,r,hr,s,hs,authorised,fresh,ordered,different,rfl⟩ := ok
  let m : Message := ⟨val,age,v,r,s⟩
  have id : (getSignerId (m.signer crypto wat)).toNat < 256 := BitVec.isLt _
  have unused := (Bitmap.member p.bloom id).mp different
  have here : args.messageAt count = some m := by simp [PokeArgs.messageAt, hval, hage, hv, hr, hs, m]
  refine ⟨m,h.read.next here,⟨?_,?_,?_,?_⟩,?_,?_⟩
  · exact List.forall_mem_append.mpr ⟨h.checks.authorised,List.forall_mem_singleton.mpr authorised⟩
  · exact List.forall_mem_append.mpr ⟨h.checks.fresh,List.forall_mem_singleton.mpr fresh⟩
  · refine List.pairwise_append.mpr ⟨h.checks.sorted,List.pairwise_singleton _ _,fun a mem b last => ?_⟩
    rw [List.mem_singleton.mp last]
    exact (h.last a mem).trans ordered
  · rw [List.map_append, List.nodup_append]
    refine ⟨h.checks.ids,List.nodup_singleton _,fun a mem b last same => ?_⟩
    obtain ⟨earlier,inside,rfl⟩ := List.mem_map.mp mem
    rw [List.map_singleton, List.mem_singleton] at last
    have used := h.bloom earlier inside
    rw [same, last] at used
    exact Bool.false_ne_true (unused.symm.trans used)
  · exact List.forall_mem_append.mpr ⟨fun a mem => (h.last a mem).trans ordered,
      List.forall_mem_singleton.mpr (Nat.le_refl _)⟩
  · exact List.forall_mem_append.mpr ⟨fun a mem => (Bitmap.insert _ id _).mpr (.inl (h.bloom a mem)),
      List.forall_mem_singleton.mpr ((Bitmap.insert p.bloom id _).mpr (.inr rfl))⟩

theorem passed {count : Nat} {p : Poking}
    (ok : (List.range count).foldlM (pokeOne crypto wat c args) ⟨0,0⟩ = .ok p) :
    ∃ messages, Passed crypto wat c args count p messages := by
  induction count generalizing p with
  | zero =>
    refine ⟨[],⟨rfl,fun i none => by cases none⟩,⟨?_,?_,.nil,.nil⟩,?_,?_⟩
    all_goals exact fun m none => by cases none
  | succ count ih =>
    rw [List.range_succ, List.foldlM_append] at ok
    obtain ⟨mid,before,last⟩ := Checked.bindOk.mp ok
    obtain ⟨messages,h⟩ := ih before
    rw [List.foldlM_cons] at last
    obtain ⟨p',one,rest⟩ := Checked.bindOk.mp last
    obtain rfl : p' = p := by simpa using rest
    obtain ⟨m,more⟩ := passedOne h one
    exact ⟨_,more⟩

structure Poked (crypto : Crypto) (wat : Bytes32) (timestamp : Uint256) (args : PokeArgs)
    (c c' : MirrorOracleContract) (messages : List Message) : Prop where
  read : Read args c.bar.toNat messages
  checks : Checks crypto wat c messages
  val : ∃ m, messages[messages.length / 2]? = some m ∧ c'.val = m.val.setWidth 128
  age : c'.age = timestamp.setWidth 32
  orcl : c'.orcl = c.orcl

theorem poked {timestamp : Uint256} (ok : poke crypto wat timestamp args c = .ok c') :
    ∃ messages, Poked crypto wat timestamp args c c' messages := by
  simp only [poke, Checked.bindOk, Checked.requireOk, Checked.atOk, exists_const, Checked.pureOk] at ok
  obtain ⟨count,p,loop,median,middle,rfl⟩ := ok
  obtain ⟨messages,h⟩ := passed loop
  rw [count] at h middle
  refine ⟨messages,h.read,h.checks,?_,rfl,rfl⟩
  obtain ⟨inside,_⟩ := List.getElem?_eq_some_iff.mp middle
  rw [count] at inside
  have here := h.read.each _ inside
  rw [← h.read.length] at inside here
  obtain ⟨m,middleMessage⟩ : ∃ m, messages[messages.length / 2]? = some m :=
    ⟨_,List.getElem?_eq_getElem (by omega)⟩
  rw [middleMessage] at here
  rw [← h.read.length] at middle
  have same : some median = some m.val := middle.symm.trans (messageAtVal here)
  exact ⟨m,middleMessage,by rw [Option.some.inj same]⟩

theorem Checks.signers {messages : List Message} (h : Checks crypto wat c messages) :
    (messages.map (Message.signer crypto wat)).Nodup := by
  have ids := h.ids
  rw [← Function.comp_def getSignerId, ← List.map_map] at ids
  exact List.Nodup.of_map _ ids

theorem Poked.enclosed {timestamp : Uint256} {messages : List Message}
    (h : Poked crypto wat timestamp args c c' messages) (honest : Address → Bool)
    (minority : 2 * (messages.map (Message.signer crypto wat)).countP (fun a => !honest a) <
      messages.length)
    (narrow : ∀ m ∈ messages, honest (m.signer crypto wat) = true → m.val.toNat < 2 ^ 128) :
    (∃ m ∈ messages, honest (m.signer crypto wat) = true ∧ m.val.toNat ≤ c'.val.toNat) ∧
    ∃ m ∈ messages, honest (m.signer crypto wat) = true ∧ c'.val.toNat ≤ m.val.toNat := by
  obtain ⟨m,middle,val⟩ := h.val
  rw [List.countP_map] at minority
  obtain ⟨⟨low,inLow,goodLow,below⟩,high,inHigh,goodHigh,above⟩ :=
    Median.between (f := fun m : Message => m.val.toNat) h.checks.sorted minority middle
  have honestLow : honest (low.signer crypto wat) = true := by simpa using goodLow
  have honestHigh : honest (high.signer crypto wat) = true := by simpa using goodHigh
  have whole : c'.val.toNat = m.val.toNat := by
    rw [val, BitVec.toNat_setWidth, Nat.mod_eq_of_lt (above.trans_lt (narrow high inHigh honestHigh))]
  rw [whole]
  exact ⟨⟨low,inLow,honestLow,below⟩,high,inHigh,honestHigh,above⟩

end

/-! Runs. The underlying oracle may answer anything, and otherwise at each call. -/

inductive MirrorStep (crypto : Crypto) (wat : Bytes32) (now : Uint256) (c : MirrorOracleContract) :
    MirrorOracleContract → Prop where
  | poke {c' : MirrorOracleContract} (args : PokeArgs)
      (ok : P1MirrorOracle.poke crypto wat now args c = .ok c') : MirrorStep crypto wat now c c'
  | lift {c' : MirrorOracleContract} (maker : MakerOracle) (signers : List Address)
      (ok : P1MirrorOracle.lift maker signers c = .ok c') : MirrorStep crypto wat now c c'
  | drop {c' : MirrorOracleContract} (maker : MakerOracle) (signers : List Address)
      (ok : P1MirrorOracle.drop maker signers c = .ok c') : MirrorStep crypto wat now c c'
  | setBar {c' : MirrorOracleContract} (maker : MakerOracle)
      (ok : P1MirrorOracle.setBar maker c = .ok c') : MirrorStep crypto wat now c c'
  | setReaders {c' : MirrorOracleContract} (msg : Msg) (authorized : Bool) (readers : List Address)
      (ok : P1MirrorOracle.setReaders msg authorized readers c = .ok c') : MirrorStep crypto wat now c c'
  | owner (newOwner : Address) : MirrorStep crypto wat now c { c with owner := newOwner }

/-- Calls at non-decreasing times below `2^32`. -/
inductive MirrorRun (crypto : Crypto) (wat : Bytes32) (start : Uint256) (c : MirrorOracleContract) :
    Uint256 → MirrorOracleContract → Prop where
  | none : MirrorRun crypto wat start c start c
  | step {now later : Uint256} {c' c'' : MirrorOracleContract}
      (before : MirrorRun crypto wat start c now c') (order : now.toNat ≤ later.toNat)
      (small : later.toNat < 2 ^ 32) (next : MirrorStep crypto wat later c' c'') :
      MirrorRun crypto wat start c later c''

section
variable {crypto : Crypto} {wat : Bytes32} {c c' : MirrorOracleContract}

theorem stampNat {timestamp : Uint256} (small : timestamp.toNat < 2 ^ 32) :
    (timestamp.setWidth 32 : Uint32).toNat = timestamp.toNat := by
  rw [BitVec.toNat_setWidth, Nat.mod_eq_of_lt small]

theorem stepAge {now : Uint256} (step : MirrorStep crypto wat now c c') :
    c'.age = c.age ∨ c'.age = now.setWidth 32 := by
  cases step with
  | poke args ok =>
    obtain ⟨_,h⟩ := poked ok
    exact .inr h.age
  | lift maker signers ok =>
    refine .inl (Checked.loopKeeps (P := fun s : MirrorOracleContract => s.age = c.age) ?_ ok rfl)
    intro s signer s' _ kept one
    simp only [liftOne, Checked.bindOk, Checked.requireOk, exists_const, Checked.pureOk] at one
    obtain ⟨_,_,_,_,rfl⟩ := one
    exact kept
  | drop maker signers ok =>
    refine .inl (Checked.loopKeeps (P := fun s : MirrorOracleContract => s.age = c.age) ?_ ok rfl)
    intro s signer s' _ kept one
    simp only [dropOne, Checked.bindOk, Checked.requireOk, exists_const, Checked.pureOk] at one
    obtain ⟨_,_,_,_,rfl⟩ := one
    exact kept
  | setBar maker ok =>
    obtain ⟨_,_,last⟩ := Checked.bindOk.mp ok
    cases Checked.pureOk.mp last
    exact .inl rfl
  | setReaders msg authorized readers ok =>
    simp only [setReaders, Checked.bindOk, Checked.requireOk, exists_const, Checked.pureOk] at ok
    obtain ⟨_,rfl⟩ := ok
    left
    induction readers generalizing c with
    | nil => rfl
    | cons reader rest ih => exact ih (c := setReader authorized c reader) ‹_›
  | owner newOwner => exact .inl rfl

theorem runAge {start now : Uint256} (aged : c.age.toNat = start.toNat)
    (run : MirrorRun crypto wat start c now c') :
    start.toNat ≤ c'.age.toNat ∧ start.toNat ≤ now.toNat := by
  induction run with
  | none => exact ⟨aged.ge,Nat.le_refl _⟩
  | step before order small next ih =>
    refine ⟨?_,ih.2.trans order⟩
    rcases stepAge next with same | stamped
    · rw [same]
      exact ih.1
    · rw [stamped, stampNat small]
      exact ih.2.trans order

end

/-- A minority of the signers cannot move the price out of the range of the honest values, and
no message as old as an accepted poke is ever accepted again. -/
theorem honestRangeHolds (crypto : Crypto) (wat : Bytes32) :
    (∀ timestamp args c c', poke crypto wat timestamp args c = .ok c' →
      ∃ messages, Read args c.bar.toNat messages ∧
        (messages.map (Message.signer crypto wat)).Nodup ∧
        (∀ m ∈ messages, c.orcl (m.signer crypto wat) = 1) ∧
        ∀ honest : Address → Bool,
          2 * (messages.map (Message.signer crypto wat)).countP (fun a => !honest a) < messages.length →
          (∀ m ∈ messages, honest (m.signer crypto wat) = true → m.val.toNat < 2 ^ 128) →
          (∃ m ∈ messages, honest (m.signer crypto wat) = true ∧ m.val.toNat ≤ c'.val.toNat) ∧
          ∃ m ∈ messages, honest (m.signer crypto wat) = true ∧ c'.val.toNat ≤ m.val.toNat) ∧
    (∀ start args c c₁ now c₂ later args' c₃, start.toNat < 2 ^ 32 →
      poke crypto wat start args c = .ok c₁ → MirrorRun crypto wat start c₁ now c₂ →
      now.toNat ≤ later.toNat → poke crypto wat later args' c₂ = .ok c₃ →
      ∀ i < args'.val.length, ∃ m, args'.messageAt i = some m ∧ start.toNat < m.age.toNat) := by
  constructor
  · intro timestamp args c c' ok
    obtain ⟨messages,h⟩ := poked ok
    exact ⟨messages,h.read,h.checks.signers,h.checks.authorised,fun honest => h.enclosed honest⟩
  · intro start args c c₁ now c₂ later args' c₃ small first run order last i inside
    obtain ⟨_,h⟩ := poked first
    obtain ⟨messages,h'⟩ := poked last
    have aged : c₁.age.toNat = start.toNat := by rw [h.age, stampNat small]
    have count : args'.val.length = c₂.bar.toNat := by
      simp only [poke, Checked.bindOk, Checked.requireOk, exists_const] at last
      exact last.1
    have within : i < messages.length := by rw [h'.read.length, ← count]; exact inside
    have here := h'.read.each i (count ▸ inside)
    rw [List.getElem?_eq_getElem within] at here
    refine ⟨_,here,?_⟩
    exact (runAge aged run).1.trans_lt (h'.checks.fresh _ (List.getElem_mem within))

def sampleMirror : MirrorOracleContract := { constructor ⟨4,0⟩ 9 with bar := 3, orcl := fun _ => 1 }

def samplePoke : PokeArgs where
  val := [10,20,10 ^ 30]
  age := [5,6,7]
  v := [27,27,27]
  r := [1#256 <<< 152,2#256 <<< 152,3#256 <<< 152]
  s := [0,0,0]

theorem sampleEnclosed : ∃ c', poke Crypto.sample 0 100 samplePoke sampleMirror = .ok c' ∧
    ∃ messages, Read samplePoke 3 messages ∧
      (messages.map (Message.signer Crypto.sample 0)).Nodup := by
  obtain ⟨c',ok⟩ := Checked.okExists (x := poke Crypto.sample 0 100 samplePoke sampleMirror)
    (by decide +kernel)
  obtain ⟨messages,read,distinct,_⟩ := (honestRangeHolds Crypto.sample 0).1 _ _ _ _ ok
  exact ⟨c',ok,messages,read,distinct⟩

end P1MirrorOracle
end Perpetual
