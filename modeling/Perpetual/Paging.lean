import Mathlib.Data.List.Nodup
import Mathlib.Data.List.Sort

/-! Rows that are read page by page, in the order of their keys. Each page is cut out of a reading of its
own, and readings may differ in the order of rows with equal keys. -/

namespace Paging
variable {α κ : Type}

def slice (perPage page : Nat) (rows : List α) : List α := (rows.drop (page * perPage)).take perPage

def joined (perPage pages : Nat) (read : Nat → List α) : List α :=
  (List.range pages).flatMap fun page => slice perPage page (read page)

section
variable [LinearOrder κ]

structure Ordered (key : α → κ) (rows sorted : List α) : Prop where
  perm : sorted.Perm rows
  order : (sorted.map key).Pairwise (· ≤ ·)

/-- No page ends with a key with which the next one begins. -/
def Apart (perPage : Nat) (keys : List κ) : Prop :=
  ∀ page k, keys[(page + 1) * perPage - 1]? = some k → keys[(page + 1) * perPage]? ≠ some k

end

theorem sliceJoined (perPage pages : Nat) (rows : List α) :
    joined perPage pages (fun _ => rows) = rows.take (pages * perPage) := by
  induction pages with
  | zero => rw [Nat.zero_mul, List.take_zero]; rfl
  | succ pages ih =>
    rw [joined, List.range_succ, List.flatMap_append, List.flatMap_singleton]
    rw [joined] at ih
    rw [ih, slice, Nat.succ_mul, List.take_add]

theorem sliceMap (perPage page : Nat) (f : α → κ) (rows : List α) :
    (slice perPage page rows).map f = slice perPage page (rows.map f) := by
  rw [slice, slice, List.map_take, List.map_drop]

theorem sliceAt {perPage page : Nat} {rows : List α} {a : α} :
    a ∈ slice perPage page rows ↔ ∃ i, i / perPage = page ∧ i % perPage < perPage ∧ rows[i]? = some a := by
  rw [slice, List.mem_iff_getElem?]
  constructor
  · rintro ⟨j,here⟩
    rw [List.getElem?_take] at here
    split at here
    · rename_i inside
      rw [List.getElem?_drop] at here
      refine ⟨page * perPage + j,?_,Nat.mod_lt _ (by omega),here⟩
      rw [Nat.mul_comm, Nat.mul_add_div (by omega), Nat.div_eq_of_lt inside, Nat.add_zero]
    · cases here
  · rintro ⟨i,rfl,inside,here⟩
    refine ⟨i % perPage,?_⟩
    rw [List.getElem?_take, if_pos inside, List.getElem?_drop, Nat.mul_comm, Nat.div_add_mod]
    exact here

theorem joinedMem {perPage pages : Nat} {read : Nat → List α} {a : α} :
    a ∈ joined perPage pages read ↔ ∃ page < pages, a ∈ slice perPage page (read page) := by
  simp [joined]

section
variable [LinearOrder κ] {key : α → κ} {rows sorted other : List α} {perPage pages : Nat}

theorem keysSame (one : Ordered key rows sorted) (two : Ordered key rows other) : sorted.map key = other.map key :=
  List.Perm.eq_of_pairwise' one.order two.order ((one.perm.trans two.perm.symm).map key)

theorem joinedKeys {read : Nat → List α} (reads : ∀ page, Ordered key rows (read page))
    (one : Ordered key rows sorted) :
    (joined perPage pages read).map key = (sorted.map key).take (pages * perPage) := by
  have same (page : Nat) : (slice perPage page (read page)).map key = slice perPage page (sorted.map key) := by
    rw [sliceMap, keysSame (reads page) one]
  rw [joined, List.map_flatMap, List.flatMap_congr fun page _ => same page]
  exact sliceJoined perPage pages (sorted.map key)

/-- With a key for each row the pages are those of any one reading. -/
theorem joinedUnique (unique : (rows.map key).Nodup) {read : Nat → List α}
    (reads : ∀ page, Ordered key rows (read page)) (one : Ordered key rows sorted) :
    joined perPage pages read = sorted.take (pages * perPage) := by
  have same (page : Nat) : read page = sorted := by
    have distinct : ∀ a ∈ read page, ∀ b ∈ sorted, key a = key b → a = b := fun a memA b memB =>
      List.inj_on_of_nodup_map unique ((reads page).perm.mem_iff.mp memA) (one.perm.mem_iff.mp memB)
    have keys := keysSame (reads page) one
    refine List.ext_getElem? fun i => ?_
    have here := congrArg (·[i]?) keys
    simp only [List.getElem?_map] at here
    cases left : (read page)[i]? with
    | none => rw [left] at here; exact (Option.map_eq_none_iff.mp here.symm).symm
    | some a =>
      rw [left] at here
      obtain ⟨b,right,same⟩ := Option.map_eq_some_iff.mp here.symm
      rw [right, distinct a (List.mem_of_getElem? left) b (List.mem_of_getElem? right) same.symm]
  rw [← sliceJoined perPage pages sorted, joined, joined, List.flatMap_congr fun page _ => by rw [same page]]

theorem equalBetween {keys : List κ} (order : keys.Pairwise (· ≤ ·)) {i j b : Nat} {k : κ} (first : keys[i]? = some k)
    (last : keys[j]? = some k) (low : i ≤ b) (high : b ≤ j) : keys[b]? = some k := by
  obtain ⟨insideFirst,rfl⟩ := List.getElem?_eq_some_iff.mp first
  obtain ⟨insideLast,same⟩ := List.getElem?_eq_some_iff.mp last
  have sorted : keys.SortedLE := List.sortedLE_iff_pairwise.mpr order
  have below : keys[i] ≤ keys[b] := sorted.getElem_le_getElem_of_le low
  have above : keys[b] ≤ keys[j] := sorted.getElem_le_getElem_of_le high
  rw [List.getElem?_eq_getElem (by omega), le_antisymm (same ▸ above) below]

theorem pageSame {keys : List κ} (order : keys.Pairwise (· ≤ ·)) (apart : Apart perPage keys) {i j : Nat} {k : κ}
    (first : keys[i]? = some k) (last : keys[j]? = some k) : j / perPage ≤ i / perPage := by
  by_contra later
  obtain ⟨d,boundary⟩ := Nat.exists_eq_add_of_lt (not_le.mp later)
  have positive : 0 < perPage := by
    refine Nat.pos_of_ne_zero fun none => ?_
    rw [none, Nat.div_zero] at boundary
    omega
  have least : (i / perPage + d + 1) * perPage ≤ j := boundary ▸ Nat.div_mul_le_self j perPage
  have most : i < (i / perPage + d + 1) * perPage := (Nat.div_lt_iff_lt_mul positive).mp (by omega)
  refine apart _ k (equalBetween order first last ?_ ?_) (equalBetween order first last most.le least) <;> omega

omit [LinearOrder κ] in
theorem farApart [DecidableEq κ] {keys : List κ} {k : κ} {many : Nat} (counted : many < keys.count k) :
    ∃ i j, keys[i]? = some k ∧ keys[j]? = some k ∧ i + many ≤ j := by
  induction keys generalizing many with
  | nil => cases counted
  | cons first rest ih =>
    by_cases here : first = k
    · subst here
      rw [List.count_cons_self] at counted
      cases many with
      | zero => exact ⟨0,0,rfl,rfl,le_rfl⟩
      | succ many =>
        obtain ⟨i,j,_,there,far⟩ := ih (Nat.succ_lt_succ_iff.mp counted)
        exact ⟨0,j + 1,rfl,there,by omega⟩
    · rw [List.count_cons_of_ne here] at counted
      obtain ⟨i,j,first',last',far⟩ := ih counted
      exact ⟨i + 1,j + 1,first',last',by omega⟩

theorem crowded {keys : List κ} (order : keys.Pairwise (· ≤ ·)) (positive : 0 < perPage) {k : κ}
    (many : perPage < keys.count k) : ¬Apart perPage keys := by
  intro apart
  obtain ⟨i,j,first,last,far⟩ := farApart many
  have same := pageSame order apart first last
  have later : (i + perPage) / perPage ≤ j / perPage := Nat.div_le_div_right far
  rw [Nat.add_div_right i positive] at later
  omega

omit [LinearOrder κ] in
theorem keyAt {a : α} {i : Nat} (here : sorted[i]? = some a) : (sorted.map key)[i]? = some (key a) := by
  rw [List.getElem?_map, here, Option.map_some]

theorem wholeWhenApart (distinct : rows.Nodup) (one : Ordered key rows sorted) (enough : rows.length ≤ pages * perPage)
    (apart : Apart perPage (sorted.map key)) {read : Nat → List α} (reads : ∀ page, Ordered key rows (read page)) :
    (joined perPage pages read).Perm rows := by
  have place {page i : Nat} {a : α} (here : (read page)[i]? = some a) : (sorted.map key)[i]? = some (key a) := by
    rw [← keysSame (reads page) one]
    exact keyAt here
  rw [List.perm_ext_iff_of_nodup ?_ distinct]
  · intro a
    rw [joinedMem]
    constructor
    · rintro ⟨page,_,mem⟩
      obtain ⟨i,_,_,here⟩ := sliceAt.mp mem
      exact (reads page).perm.mem_iff.mp (List.mem_of_getElem? here)
    · intro mem
      obtain ⟨j,there⟩ := List.mem_iff_getElem?.mp (one.perm.mem_iff.mpr mem)
      obtain ⟨inside,_⟩ := List.getElem?_eq_some_iff.mp there
      rw [one.perm.length_eq] at inside
      have positive : 0 < perPage := Nat.pos_of_ne_zero fun none => by rw [none, Nat.mul_zero] at enough; omega
      have counted : j / perPage < pages := (Nat.div_lt_iff_lt_mul positive).mpr (by omega)
      obtain ⟨i,here⟩ := List.mem_iff_getElem?.mp ((reads (j / perPage)).perm.mem_iff.mpr mem)
      have left := pageSame one.order apart (place here) (keyAt there)
      have right := pageSame one.order apart (keyAt there) (place here)
      exact ⟨_,counted,sliceAt.mpr ⟨i,le_antisymm right left,Nat.mod_lt _ positive,here⟩⟩
  · rw [joined, List.nodup_flatMap]
    refine ⟨fun page _ => ?_,List.nodup_range.imp fun {page page'} differ => ?_⟩
    · have whole := (reads page).perm.nodup_iff.mpr distinct
      exact whole.sublist ((List.take_sublist _ _).trans (List.drop_sublist _ _))
    · intro a mem mem'
      obtain ⟨i,rfl,_,here⟩ := sliceAt.mp mem
      obtain ⟨j,rfl,_,there⟩ := sliceAt.mp mem'
      have left := pageSame one.order apart (place here) (place there)
      have right := pageSame one.order apart (place there) (place here)
      exact differ (le_antisymm right left)

theorem twiceWhenTied (one : Ordered key rows sorted) {page : Nat} {k : κ} (more : page + 1 < pages)
    (last : (sorted.map key)[(page + 1) * perPage - 1]? = some k)
    (first : (sorted.map key)[(page + 1) * perPage]? = some k) (positive : 0 < perPage) :
    ∃ read : Nat → List α, (∀ page, Ordered key rows (read page)) ∧ ¬(joined perPage pages read).Nodup := by
  obtain ⟨i,boundary⟩ := Nat.exists_eq_succ_of_ne_zero (Nat.mul_pos (Nat.succ_pos page) positive).ne'
  rw [Nat.succ_eq_add_one, Nat.succ_eq_add_one] at boundary
  rw [boundary, Nat.add_sub_cancel] at last
  rw [boundary] at first
  obtain ⟨x,here,keyX⟩ := Option.map_eq_some_iff.mp ((List.getElem?_map ..).symm.trans last)
  obtain ⟨y,there,keyY⟩ := Option.map_eq_some_iff.mp ((List.getElem?_map ..).symm.trans first)
  obtain ⟨insideX,atX⟩ := List.getElem?_eq_some_iff.mp here
  obtain ⟨insideY,atY⟩ := List.getElem?_eq_some_iff.mp there
  have front : (sorted.take i).length = i := List.length_take_of_le (by omega)
  have split : sorted = sorted.take i ++ x :: y :: sorted.drop (i + 2) := by
    rw [← atX, ← atY, ← List.drop_eq_getElem_cons, ← List.drop_eq_getElem_cons, List.take_append_drop]
  let swapped := sorted.take i ++ y :: x :: sorted.drop (i + 2)
  have swap : Ordered key rows swapped := by
    refine ⟨((List.Perm.swap x y _).append_left _).trans (split ▸ one.perm),?_⟩
    have keys : swapped.map key = sorted.map key := by
      conv_rhs => rw [split]
      simp only [swapped, List.map_append, List.map_cons, keyX, keyY]
    rw [keys]
    exact one.order
  refine ⟨fun other => if other = page + 1 then swapped else sorted,fun other => ?_,fun once => ?_⟩
  · dsimp only
    split
    · exact swap
    · exact one
  · have inPage : x ∈ slice perPage page sorted := by
      refine sliceAt.mpr ⟨i,?_,Nat.mod_lt _ positive,here⟩
      refine Nat.div_eq_of_lt_le ?_ (by omega)
      rw [Nat.succ_mul] at boundary
      omega
    have inNext : x ∈ slice perPage (page + 1) swapped := by
      refine sliceAt.mpr ⟨i + 1,?_,Nat.mod_lt _ positive,?_⟩
      · rw [← boundary, Nat.mul_div_cancel _ positive]
      · rw [List.getElem?_append_right (by omega), front, Nat.add_sub_cancel_left]
        rfl
    have disjoint := List.pairwise_iff_getElem.mp (List.nodup_flatMap.mp once).2 page (page + 1)
      (by rw [List.length_range]; omega) (by rw [List.length_range]; exact more) (Nat.lt_succ_self page)
    simp only [List.getElem_range, Function.onFun] at disjoint
    rw [if_neg (by omega), if_pos trivial] at disjoint
    exact disjoint inPage inNext

end

end Paging
