import Perpetual.MirrorOracle

/-! The signers of `P1MirrorOracle` over any sequence of transactions. -/
namespace Perpetual
namespace P1MirrorOracle

inductive MirrorCall where
  | poke (args : PokeArgs)
  | lift (signers : List Address)
  | drop (signers : List Address)
  | setBar
  | setReaders (msg : Msg) (authorized : Bool) (readers : List Address)
  | owner (newOwner : Address)

/-- A call, and what the underlying oracle answers while it runs. -/
structure Transaction where
  timestamp : Uint256
  maker : MakerOracle
  call : MirrorCall

section
variable (crypto : Crypto) (wat : Bytes32)

def execute (tx : Transaction) (c : MirrorOracleContract) : Checked MirrorOracleContract :=
  match tx.call with
  | .poke args => poke crypto wat tx.timestamp args c
  | .lift signers => lift tx.maker signers c
  | .drop signers => drop tx.maker signers c
  | .setBar => setBar tx.maker c
  | .setReaders msg authorized readers => setReaders msg authorized readers c
  | .owner newOwner => .ok { c with owner := newOwner }

def perform (c : MirrorOracleContract) (tx : Transaction) : MirrorOracleContract :=
  match execute crypto wat tx c with
  | .ok c' => c'
  | .error _ => c

def run (txs : List Transaction) (c : MirrorOracleContract) : MirrorOracleContract :=
  txs.foldl (perform crypto wat) c

end

structure Consistent (c : MirrorOracleContract) : Prop where
  authorised : ∀ s, c.orcl s = 1 ↔ s ≠ 0 ∧ c.slot (getSignerId s) = s
  binary : ∀ s, c.orcl s = 0 ∨ c.orcl s = 1
  placed : ∀ i, c.slot i ≠ 0 → getSignerId (c.slot i) = i

section
variable {maker : MakerOracle} {c c' : MirrorOracleContract} {signer : Address}

theorem Consistent.unique (h : Consistent c) {s t : Address} (left : c.orcl s = 1) (right : c.orcl t = 1)
    (same : getSignerId s = getSignerId t) : s = t := by
  rw [← ((h.authorised s).mp left).2, ← ((h.authorised t).mp right).2, same]

theorem Consistent.kept (h : Consistent c) (orcl : c'.orcl = c.orcl) (slot : c'.slot = c.slot) : Consistent c' where
  authorised := by
    rw [orcl, slot]
    exact h.authorised
  binary := by
    rw [orcl]
    exact h.binary
  placed := by
    rw [slot]
    exact h.placed

structure Lifted (maker : MakerOracle) (c : MirrorOracleContract) (signer : Address)
    (c' : MirrorOracleContract) : Prop where
  known : maker.orcl signer = .ok 1
  free : c.slot (getSignerId signer) = 0
  orcl : c'.orcl = Function.update c.orcl signer 1
  slot : c'.slot = Function.update c.slot (getSignerId signer) signer
  bar : c'.bar = c.bar

theorem lifted (ok : liftOne maker c signer = .ok c') : Lifted maker c signer c' := by
  simp only [liftOne, Checked.bindOk, Checked.requireOk, exists_const, Checked.pureOk] at ok
  obtain ⟨_,known,rfl,free,rfl⟩ := ok
  exact ⟨known,free,rfl,rfl,rfl⟩

structure Dropped (maker : MakerOracle) (c : MirrorOracleContract) (signer : Address)
    (c' : MirrorOracleContract) : Prop where
  unknown : maker.orcl signer = .ok 0
  taken : c.orcl signer ≠ 0
  orcl : c'.orcl = Function.update c.orcl signer 0
  slot : c'.slot = Function.update c.slot (getSignerId signer) 0
  bar : c'.bar = c.bar

theorem dropped (ok : dropOne maker c signer = .ok c') : Dropped maker c signer c' := by
  simp only [dropOne, Checked.bindOk, Checked.requireOk, exists_const, Checked.pureOk] at ok
  obtain ⟨_,unknown,rfl,taken,rfl⟩ := ok
  exact ⟨unknown,taken,rfl,rfl,rfl⟩

theorem Consistent.written (h : Consistent c) {state : Uint256} {placed : Address}
    (orcl : c'.orcl = Function.update c.orcl signer state)
    (slot : c'.slot = Function.update c.slot (getSignerId signer) placed)
    (before : c.slot (getSignerId signer) = 0 ∨ c.slot (getSignerId signer) = signer)
    (after : placed = 0 ∧ state = 0 ∨ placed = signer ∧ signer ≠ 0 ∧ state = 1) : Consistent c' := by
  refine ⟨fun s => ?_,fun s => ?_,fun i taken => ?_⟩
  · rw [orcl, slot]
    by_cases here : s = signer
    · rw [here, Function.update_self, Function.update_self]
      rcases after with ⟨rfl,rfl⟩ | ⟨rfl,some',rfl⟩
      · exact iff_of_false (by decide) fun claimed => claimed.1 claimed.2.symm
      · exact iff_of_true rfl ⟨some',rfl⟩
    · rw [Function.update_of_ne here, h.authorised]
      by_cases sameId : getSignerId s = getSignerId signer
      · have other (held : Address) (mine : held = 0 ∨ held = signer) : ¬(s ≠ 0 ∧ held = s) := by
          rintro ⟨some',rfl⟩
          exact mine.elim some' here
        rw [sameId, Function.update_self]
        exact iff_of_false (other _ before) (other _ (after.imp And.left And.left))
      · rw [Function.update_of_ne sameId]
  · rw [orcl, Function.update_apply]
    split
    · exact after.imp And.right fun lifted => lifted.2.2
    · exact h.binary s
  · rw [slot] at taken ⊢
    by_cases here : i = getSignerId signer
    · rw [here, Function.update_self] at taken ⊢
      exact congrArg getSignerId ((after.imp And.left And.left).resolve_left taken)
    · rw [Function.update_of_ne here] at taken ⊢
      exact h.placed i taken

theorem Lifted.consistent (step : Lifted maker c signer c') (never : maker.orcl 0 ≠ .ok 1)
    (h : Consistent c) : Consistent c' := by
  have some' : signer ≠ 0 := by
    rintro rfl
    exact never step.known
  exact h.written step.orcl step.slot (.inl step.free) (.inr ⟨rfl,some',rfl⟩)

theorem Dropped.consistent (step : Dropped maker c signer c') (h : Consistent c) : Consistent c' := by
  have mine := (h.authorised signer).mp ((h.binary signer).resolve_left step.taken)
  exact h.written step.orcl step.slot (.inr mine.2) (.inl ⟨rfl,rfl⟩)

theorem readersKept (authorized : Bool) (readers : List Address) (c : MirrorOracleContract) :
    (readers.foldl (setReader authorized) c).orcl = c.orcl ∧
      (readers.foldl (setReader authorized) c).slot = c.slot := by
  induction readers generalizing c with
  | nil => exact ⟨rfl,rfl⟩
  | cons reader rest ih => exact ih (setReader authorized c reader)

end

section
variable {crypto : Crypto} {wat : Bytes32} {c c' : MirrorOracleContract} {tx : Transaction}

theorem executeConsistent (never : tx.maker.orcl 0 ≠ .ok 1) (h : Consistent c)
    (ok : execute crypto wat tx c = .ok c') : Consistent c' := by
  unfold execute at ok
  cases called : tx.call with
  | poke args =>
    rw [called] at ok
    simp only [poke, Checked.bindOk, Checked.requireOk, exists_const, Checked.pureOk] at ok
    obtain ⟨_,_,_,_,_,rfl⟩ := ok
    exact h.kept rfl rfl
  | lift signers =>
    rw [called] at ok
    exact Checked.loopKeeps (fun s _ s' _ kept one => (lifted one).consistent never kept) ok h
  | drop signers =>
    rw [called] at ok
    exact Checked.loopKeeps (fun s _ s' _ kept one => (dropped one).consistent kept) ok h
  | setBar =>
    rw [called] at ok
    obtain ⟨_,_,last⟩ := Checked.bindOk.mp ok
    cases Checked.pureOk.mp last
    exact h.kept rfl rfl
  | setReaders msg authorized readers =>
    rw [called] at ok
    simp only [setReaders, Checked.bindOk, Checked.requireOk, exists_const, Checked.pureOk] at ok
    obtain ⟨_,rfl⟩ := ok
    have kept := readersKept authorized readers c
    exact h.kept kept.1 kept.2
  | owner newOwner =>
    rw [called] at ok
    cases ok
    exact h.kept rfl rfl

theorem performConsistent (never : tx.maker.orcl 0 ≠ .ok 1) (h : Consistent c) :
    Consistent (perform crypto wat c tx) := by
  unfold perform
  split
  · exact executeConsistent never h (by assumption)
  · exact h

theorem performStep (c : MirrorOracleContract) (tx : Transaction) :
    perform crypto wat c tx = c ∨ MirrorStep crypto wat tx.timestamp c (perform crypto wat c tx) := by
  unfold perform
  split
  · rename_i c' ok
    right
    unfold execute at ok
    split at ok
    · exact .poke _ ok
    · exact .lift _ _ ok
    · exact .drop _ _ ok
    · exact .setBar _ ok
    · exact .setReaders _ _ _ ok
    · cases ok
      exact .owner _
  · exact .inl rfl

theorem deployedConsistent (msg : Msg) (oracle : Address) : Consistent (constructor msg oracle) where
  authorised s := by
    refine iff_of_false (by decide : ¬(0 : Uint256) = 1) ?_
    exact fun claimed => claimed.1 claimed.2.symm
  binary s := .inl rfl
  placed i taken := absurd rfl taken

theorem runConsistent (txs : List Transaction) (never : ∀ tx ∈ txs, tx.maker.orcl 0 ≠ .ok 1)
    (h : Consistent c) : Consistent (run crypto wat txs c) := by
  induction txs generalizing c with
  | nil => exact h
  | cons tx rest ih =>
    rw [List.forall_mem_cons] at never
    exact ih never.2 (performConsistent never.1 h)

theorem performFails {reason : String} (failed : execute crypto wat tx c = .error reason) :
    perform crypto wat c tx = c := by
  unfold perform
  rw [failed]

end

theorem loopFails {α β : Type} {f : β → α → Checked β} {first rest : List α} {a : α} {b mid : β}
    {reason : String} (before : first.foldlM f b = .ok mid) (failed : f mid a = .error reason) :
    (first ++ a::rest).foldlM f b = .error reason := by
  rw [List.foldlM_append, before]
  change (a::rest).foldlM f mid = .error reason
  rw [List.foldlM_cons, failed]
  rfl

theorem signersConsistent (crypto : Crypto) (wat : Bytes32) (msg : Msg) (oracle : Address)
    (txs : List Transaction) (never : ∀ tx ∈ txs, tx.maker.orcl 0 ≠ .ok 1) :
    let c := run crypto wat txs (constructor msg oracle)
    (∀ s, c.orcl s = 1 ↔ s ≠ 0 ∧ c.slot (getSignerId s) = s) ∧
    (∀ s, c.orcl s = 0 ∨ c.orcl s = 1) ∧
    (∀ s t, c.orcl s = 1 → c.orcl t = 1 → getSignerId s = getSignerId t → s = t) ∧
    ∀ timestamp maker first signer rest mid reason,
      (lift maker first c = .ok mid → liftOne maker mid signer = .error reason →
        perform crypto wat c ⟨timestamp,maker,.lift (first ++ signer::rest)⟩ = c) ∧
      (drop maker first c = .ok mid → dropOne maker mid signer = .error reason →
        perform crypto wat c ⟨timestamp,maker,.drop (first ++ signer::rest)⟩ = c) := by
  intro c
  have h : Consistent c := runConsistent txs never (deployedConsistent msg oracle)
  refine ⟨h.authorised,h.binary,fun s t left right => h.unique left right,?_⟩
  intro timestamp maker first signer rest mid reason
  exact ⟨fun before failed => performFails (loopFails before failed),
    fun before failed => performFails (loopFails before failed)⟩

def sampleMaker (signer : Address) : MakerOracle where
  bar := .ok 1
  orcl s := .ok (if s = signer then 1 else 0)
  slot i := .ok (if i = getSignerId signer then signer else 0)

def sampleSigner (n : Nat) : Address := BitVec.ofNat 160 (2 ^ 152 + n)

def sampleTransactions : List Transaction :=
  [⟨0,sampleMaker (sampleSigner 0),.lift [sampleSigner 0]⟩,
    ⟨1,sampleMaker (sampleSigner 1),.lift [sampleSigner 1]⟩,
    ⟨2,sampleMaker (sampleSigner 1),.drop [sampleSigner 0]⟩,
    ⟨3,sampleMaker (sampleSigner 1),.lift [sampleSigner 1]⟩]

theorem sampleSignersConsistent :
    let c := run .sample 0 sampleTransactions (constructor ⟨4,0⟩ 9)
    c.orcl (sampleSigner 0) = 0 ∧ c.orcl (sampleSigner 1) = 1 ∧
      ∀ s, c.orcl s = 1 ↔ s ≠ 0 ∧ c.slot (getSignerId s) = s :=
  ⟨by decide +kernel,by decide +kernel,
    (signersConsistent .sample 0 ⟨4,0⟩ 9 sampleTransactions (by decide +kernel)).1⟩

end P1MirrorOracle
end Perpetual
