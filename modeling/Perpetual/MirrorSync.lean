import Perpetual.MirrorSigners

/-! `checkSynced`, and the repair of the mirror that it asks for. -/
namespace Perpetual
namespace P1MirrorOracle

structure SyncReport where
  signersToAdd : Uint256
  signersToRemove : Uint256
  barNeedsUpdate : Bool
  deriving DecidableEq, Repr

def checkSlot (maker : MakerOracle) (c : MirrorOracleContract) (report : SyncReport) (i : Nat) :
    Checked SyncReport := do
  let signerId : BitVec 8 := BitVec.ofNat 8 i
  let signerBit := 1#256 <<< signerId.toNat
  let ours := c.slot signerId
  let theirs ← maker.slot signerId
  if ours = 0 then
    if theirs ≠ 0 then return { report with signersToAdd := report.signersToAdd ||| signerBit }
    else return report
  else if theirs = 0 then return { report with signersToRemove := report.signersToRemove ||| signerBit }
  else if ours ≠ theirs then return { report with
    signersToAdd := report.signersToAdd ||| signerBit
    signersToRemove := report.signersToRemove ||| signerBit }
  else return report

def checkSynced (maker : MakerOracle) (c : MirrorOracleContract) : Checked SyncReport := do
  let bar ← maker.bar
  (List.range 256).foldlM (checkSlot maker c) ⟨0,0,decide (c.bar ≠ bar)⟩

structure Underlying where
  bar : Uint256
  orcl : Address → Uint256
  slot : BitVec 8 → Address

def Underlying.maker (u : Underlying) : MakerOracle where
  bar := .ok u.bar
  orcl s := .ok (u.orcl s)
  slot i := .ok (u.slot i)

/-- `orcl` and `slot` agree, and they are what their interface says: 1 or 0, and an authorised signer
at the first byte of its address. -/
structure Underlying.Consistent (u : Underlying) : Prop where
  authorised : ∀ s, u.orcl s = 1 ↔ s ≠ 0 ∧ u.slot (getSignerId s) = s
  binary : ∀ s, u.orcl s = 0 ∨ u.orcl s = 1
  placed : ∀ i, u.slot i ≠ 0 → getSignerId (u.slot i) = i

section
variable {u : Underlying} {c c' : MirrorOracleContract}

def Missing (u : Underlying) (c : MirrorOracleContract) (i : BitVec 8) : Prop :=
  u.slot i ≠ 0 ∧ c.slot i ≠ u.slot i

def Stale (u : Underlying) (c : MirrorOracleContract) (i : BitVec 8) : Prop :=
  c.slot i ≠ 0 ∧ c.slot i ≠ u.slot i

instance (u : Underlying) (c : MirrorOracleContract) (i : BitVec 8) : Decidable (Missing u c i) :=
  inferInstanceAs (Decidable (u.slot i ≠ 0 ∧ c.slot i ≠ u.slot i))

instance (u : Underlying) (c : MirrorOracleContract) (i : BitVec 8) : Decidable (Stale u c i) :=
  inferInstanceAs (Decidable (c.slot i ≠ 0 ∧ c.slot i ≠ u.slot i))

def SyncReport.marked (report : SyncReport) (u : Underlying) (c : MirrorOracleContract)
    (signerId : BitVec 8) : SyncReport :=
  let signerBit := 1#256 <<< signerId.toNat
  { report with
    signersToAdd := if Missing u c signerId then report.signersToAdd ||| signerBit else report.signersToAdd
    signersToRemove := if Stale u c signerId then report.signersToRemove ||| signerBit
      else report.signersToRemove }

theorem slotChecked (report : SyncReport) (i : Nat) :
    checkSlot u.maker c report i = .ok (report.marked u c (BitVec.ofNat 8 i)) := by
  let signerId := BitVec.ofNat 8 i
  let signerBit := 1#256 <<< signerId.toNat
  change checkSlot u.maker c report i = .ok { report with
    signersToAdd := if Missing u c signerId then report.signersToAdd ||| signerBit else report.signersToAdd
    signersToRemove := if Stale u c signerId then report.signersToRemove ||| signerBit
      else report.signersToRemove }
  have read : checkSlot u.maker c report i = (if c.slot signerId = 0 then
      if u.slot signerId ≠ 0 then .ok { report with signersToAdd := report.signersToAdd ||| signerBit }
      else .ok report
    else if u.slot signerId = 0 then
      .ok { report with signersToRemove := report.signersToRemove ||| signerBit }
    else if c.slot signerId ≠ u.slot signerId then .ok { report with
      signersToAdd := report.signersToAdd ||| signerBit
      signersToRemove := report.signersToRemove ||| signerBit }
    else .ok report) := rfl
  rw [read]
  split
  · rename_i empty
    have fresh : ¬Stale u c signerId := fun stale => stale.1 empty
    rw [if_neg fresh]
    split <;> rename_i theirs
    · rw [if_pos ⟨theirs,fun same => theirs (same.symm.trans empty)⟩]
    · rw [if_neg fun missing => theirs missing.1]
  · rename_i taken
    split
    · rename_i none'
      rw [if_neg fun missing => missing.1 none', if_pos ⟨taken,fun same => taken (same.trans none')⟩]
    · rename_i some'
      split <;> rename_i other
      · rw [if_pos ⟨some',other⟩, if_pos ⟨taken,other⟩]
      · rw [if_neg fun missing => other missing.2, if_neg fun stale => other stale.2]

structure Scanned (u : Underlying) (c : MirrorOracleContract) (count : Nat) (report : SyncReport) : Prop where
  add : ∀ i : BitVec 8, report.signersToAdd.getLsbD i.toNat = true ↔ i.toNat < count ∧ Missing u c i
  remove : ∀ i : BitVec 8, report.signersToRemove.getLsbD i.toNat = true ↔ i.toNat < count ∧ Stale u c i
  bar : report.barNeedsUpdate = decide (c.bar ≠ u.bar)

theorem nextBit {count : Nat} (small : count < 256) {holds : BitVec 8 → Prop} (i : BitVec 8) :
    i.toNat < count + 1 ∧ holds i ↔
      (i.toNat < count ∧ holds i) ∨ (i.toNat = (BitVec.ofNat 8 count).toNat ∧ holds (BitVec.ofNat 8 count)) := by
  have here : (BitVec.ofNat 8 count).toNat = count := Nat.mod_eq_of_lt small
  constructor
  · rintro ⟨below,holdsI⟩
    rcases Nat.lt_succ_iff_lt_or_eq.mp below with less | same
    · exact .inl ⟨less,holdsI⟩
    · obtain rfl : i = BitVec.ofNat 8 count := BitVec.eq_of_toNat_eq (same.trans here.symm)
      exact .inr ⟨rfl,holdsI⟩
  · rintro (⟨less,holdsI⟩ | ⟨same,holdsHere⟩)
    · exact ⟨less.trans (Nat.lt_succ_self _),holdsI⟩
    · obtain rfl := BitVec.eq_of_toNat_eq same
      exact ⟨here.trans_lt (Nat.lt_succ_self _),holdsHere⟩

theorem scanned {count : Nat} (small : count ≤ 256) : ∃ report,
    (List.range count).foldlM (checkSlot u.maker c) ⟨0,0,decide (c.bar ≠ u.bar)⟩ = .ok report ∧
      Scanned u c count report := by
  induction count with
  | zero => exact ⟨_,rfl,by simp,by simp,rfl⟩
  | succ count ih =>
    obtain ⟨report,before,h⟩ := ih (by omega)
    have bit (set : Uint256) (holds : Prop) [Decidable holds] (i : BitVec 8) := Bitmap.insertIf set
      (show (BitVec.ofNat 8 count).toNat < 256 from BitVec.isLt _) holds i.toNat
    refine ⟨report.marked u c (BitVec.ofNat 8 count),?_,⟨fun i => ?_,fun i => ?_,h.bar⟩⟩
    · rw [List.range_succ, List.foldlM_append, before, Checked.okBind, List.foldlM_cons, slotChecked,
        Checked.okBind]
      rfl
    · rw [SyncReport.marked, bit, h.add, nextBit (by omega)]
    · rw [SyncReport.marked, bit, h.remove, nextBit (by omega)]

structure Reported (u : Underlying) (c : MirrorOracleContract) (report : SyncReport) : Prop where
  add : ∀ i : BitVec 8, report.signersToAdd.getLsbD i.toNat = true ↔ Missing u c i
  remove : ∀ i : BitVec 8, report.signersToRemove.getLsbD i.toNat = true ↔ Stale u c i
  bar : report.barNeedsUpdate = decide (c.bar ≠ u.bar)

theorem reported (u : Underlying) (c : MirrorOracleContract) :
    ∃ report, checkSynced u.maker c = .ok report ∧ Reported u c report := by
  obtain ⟨report,ok,h⟩ := scanned (u := u) (c := c) (le_refl 256)
  refine ⟨report,ok,fun i => ?_,fun i => ?_,h.bar⟩
  · rw [h.add, and_iff_right i.isLt]
  · rw [h.remove, and_iff_right i.isLt]

theorem Reported.empty {report : SyncReport} (h : Reported u c report) :
    report = ⟨0,0,false⟩ ↔ (∀ i, c.slot i = u.slot i) ∧ c.bar = u.bar := by
  constructor
  · rintro rfl
    refine ⟨fun i => ?_,of_not_not (of_decide_eq_false h.bar.symm)⟩
    have noneMissing : ¬Missing u c i := fun missing => by simpa using (h.add i).mpr missing
    have noneStale : ¬Stale u c i := fun stale => by simpa using (h.remove i).mpr stale
    by_contra other
    have theirs : u.slot i = 0 := of_not_not fun some' => noneMissing ⟨some',other⟩
    have ours : c.slot i = 0 := of_not_not fun some' => noneStale ⟨some',other⟩
    exact other (ours.trans theirs.symm)
  · rintro ⟨slots,bar⟩
    have none' (set : Uint256) (clear : ∀ i : BitVec 8, ¬set.getLsbD i.toNat = true) : set = 0 := by
      refine BitVec.eq_of_getLsbD_eq fun i inside => ?_
      have bit := clear (BitVec.ofNat 8 i)
      rw [BitVec.toNat_ofNat, Nat.mod_eq_of_lt inside] at bit
      rw [Bool.eq_false_iff.mpr bit, BitVec.ofNat_eq_ofNat, BitVec.getLsbD_zero]
    have add := none' report.signersToAdd fun i bit => ((h.add i).mp bit).2 (slots i)
    have remove := none' report.signersToRemove fun i bit => ((h.remove i).mp bit).2 (slots i)
    have same := h.bar
    rw [bar, decide_eq_false (not_not.mpr rfl)] at same
    cases report
    exact congr (congr (congrArg _ add) remove) same

theorem orclFromSlots (h : Consistent c) (hu : u.Consistent) (slots : ∀ i, c.slot i = u.slot i) (s : Address) :
    c.orcl s = u.orcl s := by
  have same : c.orcl s = 1 ↔ u.orcl s = 1 := by rw [h.authorised, hu.authorised, slots]
  rcases h.binary s with off | on
  · rw [off]
    rcases hu.binary s with off' | on'
    · exact off'.symm
    · exact absurd (off.symm.trans (same.mpr on')) (by decide)
  · rw [on, same.mp on]

theorem neverZero (hu : u.Consistent) : u.maker.orcl 0 ≠ .ok 1 := fun known =>
  ((hu.authorised 0).mp (Except.ok.inj known)).1 rfl

theorem dropsOne (hu : u.Consistent) (h : Consistent c) {i : BitVec 8} (stale : Stale u c i) :
    ∃ c', dropOne u.maker c (c.slot i) = .ok c' ∧ Consistent c' ∧ c'.slot = Function.update c.slot i 0 := by
  have placed := h.placed i stale.1
  have unknown : u.orcl (c.slot i) = 0 := by
    refine (hu.binary _).resolve_right fun known => stale.2 ?_
    have theirs := ((hu.authorised _).mp known).2
    rw [placed] at theirs
    exact theirs.symm
  have taken : c.orcl (c.slot i) = 1 := (h.authorised _).mpr ⟨stale.1,by rw [placed]⟩
  have read : u.maker.orcl (c.slot i) = .ok 0 := congrArg Except.ok unknown
  have some' : c.orcl (c.slot i) ≠ 0 := by
    rw [taken]
    decide
  obtain ⟨c',ok⟩ : ∃ c', dropOne u.maker c (c.slot i) = .ok c' := by
    simp only [dropOne, read, Checked.okBind, Checked.requireThen some']
    exact ⟨_,rfl⟩
  have step := dropped ok
  exact ⟨c',ok,step.consistent h,by rw [step.slot, placed]⟩

theorem liftsOne (hu : u.Consistent) (h : Consistent c) {i : BitVec 8} (theirs : u.slot i ≠ 0)
    (free : c.slot i = 0) :
    ∃ c', liftOne u.maker c (u.slot i) = .ok c' ∧ Consistent c' ∧
      c'.slot = Function.update c.slot i (u.slot i) := by
  have placed := hu.placed i theirs
  have known : u.orcl (u.slot i) = 1 := (hu.authorised _).mpr ⟨theirs,by rw [placed]⟩
  have read : u.maker.orcl (u.slot i) = .ok 1 := congrArg Except.ok known
  have empty : c.slot (getSignerId (u.slot i)) = 0 := by rw [placed, free]
  obtain ⟨c',ok⟩ : ∃ c', liftOne u.maker c (u.slot i) = .ok c' := by
    simp only [liftOne, read, Checked.okBind, Checked.requireThen empty]
    exact ⟨_,rfl⟩
  have step := lifted ok
  exact ⟨c',ok,step.consistent (neverZero hu) h,by rw [step.slot, placed]⟩

theorem writesAll {pass : MirrorOracleContract → Address → Checked MirrorOracleContract}
    {signerAt written : BitVec 8 → Address} (h : Consistent c) {ids : List (BitVec 8)} (distinct : ids.Nodup)
    (one : ∀ i ∈ ids, ∀ b, Consistent b → b.slot i = c.slot i → ∃ b', pass b (signerAt i) = .ok b' ∧
      Consistent b' ∧ b'.slot = Function.update b.slot i (written i)) :
    ∃ c', (ids.map signerAt).foldlM pass c = .ok c' ∧ Consistent c' ∧
      ∀ i, c'.slot i = if i ∈ ids then written i else c.slot i := by
  induction ids generalizing c with
  | nil => exact ⟨c,rfl,h,fun i => by simp⟩
  | cons i rest ih =>
    rw [List.nodup_cons] at distinct
    rw [List.forall_mem_cons] at one
    obtain ⟨mid,first,kept,slots⟩ := one.1 c h rfl
    have elsewhere : ∀ j ∈ rest, mid.slot j = c.slot j := fun j mem => by
      rw [slots, Function.update_of_ne (ne_of_mem_of_not_mem mem distinct.1)]
    obtain ⟨c',others,kept',final⟩ := ih kept distinct.2 fun j mem b hb same =>
      one.2 j mem b hb (same.trans (elsewhere j mem))
    refine ⟨c',?_,kept',fun j => ?_⟩
    · rw [List.map_cons, List.foldlM_cons, first, Checked.okBind]
      exact others
    · rw [final, slots, Function.update_apply]
      by_cases here : j = i
      · simp [here]
      · simp [here]

theorem dropsAll (hu : u.Consistent) (h : Consistent c) {ids : List (BitVec 8)} (distinct : ids.Nodup)
    (stale : ∀ i ∈ ids, Stale u c i) :
    ∃ c', drop u.maker (ids.map c.slot) c = .ok c' ∧ Consistent c' ∧
      ∀ i, c'.slot i = if i ∈ ids then 0 else c.slot i := by
  refine writesAll h distinct fun i mem b hb same => ?_
  have staleNow : Stale u b i := by
    rw [Stale, same]
    exact stale i mem
  rw [← same]
  exact dropsOne hu hb staleNow

theorem liftsAll (hu : u.Consistent) (h : Consistent c) {ids : List (BitVec 8)} (distinct : ids.Nodup)
    (free : ∀ i ∈ ids, u.slot i ≠ 0 ∧ c.slot i = 0) :
    ∃ c', lift u.maker (ids.map u.slot) c = .ok c' ∧ Consistent c' ∧
      ∀ i, c'.slot i = if i ∈ ids then u.slot i else c.slot i :=
  writesAll h distinct fun i mem _ hb same => liftsOne hu hb (free i mem).1 (same.trans (free i mem).2)

theorem setBarKept (u : Underlying) (c : MirrorOracleContract) :
    ∃ c', setBar u.maker c = .ok c' ∧ c'.bar = u.bar ∧ c'.orcl = c.orcl ∧ c'.slot = c.slot :=
  ⟨_,rfl,rfl,rfl,rfl⟩

theorem repaired (hu : u.Consistent) (h : Consistent c) {removed added : List (BitVec 8)}
    (distinctRemoved : removed.Nodup) (distinctAdded : added.Nodup) (isRemoved : ∀ i, i ∈ removed ↔ Stale u c i)
    (isAdded : ∀ i, i ∈ added ↔ Missing u c i) :
    ∃ c₁ c₂ c₃, drop u.maker (removed.map c.slot) c = .ok c₁ ∧
      lift u.maker (added.map u.slot) c₁ = .ok c₂ ∧ setBar u.maker c₂ = .ok c₃ ∧ Consistent c₃ ∧
      c₃.bar = u.bar ∧ ∀ i, c₃.slot i = u.slot i := by
  obtain ⟨c₁,drops,kept₁,slots₁⟩ := dropsAll hu h distinctRemoved fun i mem => (isRemoved i).mp mem
  have free : ∀ i ∈ added, u.slot i ≠ 0 ∧ c₁.slot i = 0 := by
    intro i mem
    have missing := (isAdded i).mp mem
    refine ⟨missing.1,?_⟩
    rw [slots₁]
    split
    · rfl
    · rename_i other
      by_contra taken
      exact other ((isRemoved i).mpr ⟨taken,missing.2⟩)
  obtain ⟨c₂,lifts,kept₂,slots₂⟩ := liftsAll hu kept₁ distinctAdded free
  obtain ⟨c₃,sets,bar,orcl,slot⟩ := setBarKept u c₂
  refine ⟨c₁,c₂,c₃,drops,lifts,sets,kept₂.kept orcl slot,bar,fun i => ?_⟩
  rw [slot, slots₂, slots₁]
  split
  · rfl
  · rename_i known
    split
    · rename_i stale
      have stale := (isRemoved i).mp stale
      by_contra other
      exact known ((isAdded i).mpr ⟨fun none' => other none'.symm,stale.2⟩)
    · rename_i fresh
      by_contra other
      have theirs : u.slot i = 0 := of_not_not fun some' => known ((isAdded i).mpr ⟨some',other⟩)
      have ours : c.slot i = 0 := of_not_not fun some' => fresh ((isRemoved i).mpr ⟨some',other⟩)
      exact other (ours.trans theirs.symm)

end

theorem reportRepairs (crypto : Crypto) (wat : Bytes32) (msg : Msg) (oracle : Address)
    (txs : List Transaction) (never : ∀ tx ∈ txs, tx.maker.orcl 0 ≠ .ok 1) (u : Underlying)
    (hu : u.Consistent) :
    let c := run crypto wat txs (constructor msg oracle)
    ∃ report, checkSynced u.maker c = .ok report ∧
      (∀ removed added : List (BitVec 8), removed.Nodup → added.Nodup →
        (∀ i, i ∈ removed ↔ report.signersToRemove.getLsbD i.toNat = true) →
        (∀ i, i ∈ added ↔ report.signersToAdd.getLsbD i.toNat = true) →
        ∃ c₁ c₂ c₃, drop u.maker (removed.map c.slot) c = .ok c₁ ∧
          lift u.maker (added.map u.slot) c₁ = .ok c₂ ∧ setBar u.maker c₂ = .ok c₃ ∧
          checkSynced u.maker c₃ = .ok ⟨0,0,false⟩ ∧ ∀ s, c₃.orcl s = u.orcl s) ∧
      (report = ⟨0,0,false⟩ → c.bar = u.bar ∧ ∀ s, c.orcl s = u.orcl s) := by
  intro c
  have h : Consistent c := runConsistent txs never (deployedConsistent msg oracle)
  obtain ⟨report,ok,reports⟩ := reported u c
  refine ⟨report,ok,?_,fun empty => ?_⟩
  · intro removed added distinctRemoved distinctAdded isRemoved isAdded
    obtain ⟨c₁,c₂,c₃,drops,lifts,sets,kept,bar,slots⟩ := repaired hu h distinctRemoved distinctAdded
      (fun i => (isRemoved i).trans (reports.remove i)) fun i => (isAdded i).trans (reports.add i)
    obtain ⟨report',ok',reports'⟩ := reported u c₃
    rw [reports'.empty.mpr ⟨slots,bar⟩] at ok'
    exact ⟨c₁,c₂,c₃,drops,lifts,sets,ok',orclFromSlots kept hu slots⟩
  · obtain ⟨slots,bar⟩ := reports.empty.mp empty
    exact ⟨bar,orclFromSlots h hu slots⟩

def idsOf (set : Uint256) : List (BitVec 8) :=
  ((List.finRange (2 ^ 8)).map BitVec.ofFin).filter fun i => set.getLsbD i.toNat

theorem idsOfBits (set : Uint256) :
    (idsOf set).Nodup ∧ ∀ i, i ∈ idsOf set ↔ set.getLsbD i.toNat = true := by
  constructor
  · exact ((List.nodup_finRange _).map fun _ _ => BitVec.ofFin.inj).filter _
  · intro i
    have listed : i ∈ (List.finRange (2 ^ 8)).map BitVec.ofFin :=
      List.mem_map.mpr ⟨i.toFin,List.mem_finRange _,rfl⟩
    rw [idsOf, List.mem_filter, and_iff_right listed]

def sampleUnderlying : Underlying where
  bar := 1
  orcl s := if s = sampleSigner 1 then 1 else 0
  slot i := if i = 1 then sampleSigner 1 else 0

theorem sampleUnderlyingConsistent : sampleUnderlying.Consistent where
  authorised s := by
    have id : getSignerId (sampleSigner 1) = 1 := by decide
    have some' : sampleSigner 1 ≠ 0 := by decide
    simp only [sampleUnderlying]
    by_cases here : s = sampleSigner 1
    · rw [if_pos here, here, id, if_pos rfl]
      exact iff_of_true rfl ⟨some',rfl⟩
    · rw [if_neg here]
      refine iff_of_false (by decide) fun claimed => ?_
      split at claimed
      · exact here claimed.2.symm
      · exact claimed.1 claimed.2.symm
  binary s := by
    simp only [sampleUnderlying]
    split
    · exact .inr rfl
    · exact .inl rfl
  placed i taken := by
    simp only [sampleUnderlying] at taken ⊢
    split at taken
    · rename_i here
      rw [if_pos here, here]
      decide
    · exact absurd rfl taken

theorem sampleRepairs : let c := run .sample 0 (sampleTransactions.take 1) (constructor ⟨4,0⟩ 9)
    ∃ report, checkSynced sampleUnderlying.maker c = .ok report ∧
      ∃ c₁ c₂ c₃, drop sampleUnderlying.maker ((idsOf report.signersToRemove).map c.slot) c = .ok c₁ ∧
        lift sampleUnderlying.maker ((idsOf report.signersToAdd).map sampleUnderlying.slot) c₁ = .ok c₂ ∧
        setBar sampleUnderlying.maker c₂ = .ok c₃ ∧
        checkSynced sampleUnderlying.maker c₃ = .ok ⟨0,0,false⟩ ∧ ∀ s, c₃.orcl s = sampleUnderlying.orcl s := by
  obtain ⟨report,ok,repairs,_⟩ := reportRepairs .sample 0 ⟨4,0⟩ 9 (sampleTransactions.take 1)
    (by decide +kernel) sampleUnderlying sampleUnderlyingConsistent
  have removed := idsOfBits report.signersToRemove
  have added := idsOfBits report.signersToAdd
  exact ⟨report,ok,repairs _ _ removed.1 added.1 removed.2 added.2⟩

end P1MirrorOracle
end Perpetual
