import Mathlib.Data.List.Nodup

/-! A table with a primary key. A save overwrites the row with the key of the new one, and
inserts the new one where there is none. -/

structure KeyedTable {α κ : Type} (key : α → κ) where
  rows : List α
  distinct : (rows.map key).Nodup

namespace KeyedTable
variable {α κ : Type} {key : α → κ}

def empty : KeyedTable key := ⟨[],List.nodup_nil⟩

theorem unique {table : KeyedTable key} {a b : α} (memA : a ∈ table.rows) (memB : b ∈ table.rows)
    (same : key a = key b) : a = b :=
  List.inj_on_of_nodup_map table.distinct memA memB same

variable [DecidableEq κ]

def find (k : κ) (table : KeyedTable key) : Option α := table.rows.find? fun row => key row = k

def save (table : KeyedTable key) (row : α) : KeyedTable key where
  rows := row :: table.rows.filter fun other => key other ≠ key row
  distinct := by
    rw [List.map_cons, List.nodup_cons]
    refine ⟨?_,table.distinct.sublist (List.filter_sublist.map key)⟩
    intro mem
    obtain ⟨other,inside,same⟩ := List.mem_map.mp mem
    exact of_decide_eq_true (List.mem_filter.mp inside).2 same

def delete (table : KeyedTable key) (keys : List κ) : KeyedTable key where
  rows := table.rows.filter fun row => key row ∉ keys
  distinct := table.distinct.sublist (List.filter_sublist.map key)

@[simp] theorem memSave {table : KeyedTable key} {row other : α} :
    other ∈ (table.save row).rows ↔ other = row ∨ other ∈ table.rows ∧ key other ≠ key row := by
  simp [save]

@[simp] theorem memDelete {table : KeyedTable key} {keys : List κ} {row : α} :
    row ∈ (table.delete keys).rows ↔ row ∈ table.rows ∧ key row ∉ keys := by
  simp [delete]

theorem deleteNil (table : KeyedTable key) : table.delete [] = table := by
  cases table
  simp [delete]

theorem findSome {table : KeyedTable key} {k : κ} {row : α} :
    table.find k = some row ↔ row ∈ table.rows ∧ key row = k := by
  unfold find
  constructor
  · intro found
    exact ⟨List.mem_of_find?_eq_some found,by simpa using List.find?_some found⟩
  · rintro ⟨mem,rfl⟩
    cases found : table.rows.find? fun other => key other = key row with
    | none => exact absurd (decide_eq_true rfl) (List.find?_eq_none.mp found row mem)
    | some other =>
      have same : key other = key row := by simpa using List.find?_some found
      rw [unique (List.mem_of_find?_eq_some found) mem same]

theorem findNone {table : KeyedTable key} {k : κ} :
    table.find k = none ↔ ∀ row ∈ table.rows, key row ≠ k := by
  simp [find, List.find?_eq_none]

theorem findSave {table : KeyedTable key} {row : α} {k : κ} :
    (table.save row).find k = if key row = k then some row else table.find k := by
  split
  · rename_i here
    exact findSome.mpr ⟨memSave.mpr (.inl rfl),here⟩
  · rename_i away
    cases found : table.find k with
    | none =>
      refine findNone.mpr fun other mem same => ?_
      rcases memSave.mp mem with rfl | ⟨before,_⟩
      · exact away same
      · exact findNone.mp found other before same
    | some other =>
      obtain ⟨mem,same⟩ := findSome.mp found
      exact findSome.mpr ⟨memSave.mpr (.inr ⟨mem,fun clash => away (clash ▸ same)⟩),same⟩

theorem memSaves {rows : List α} (keys : (rows.map key).Nodup) {table : KeyedTable key} {other : α} :
    other ∈ (rows.foldl save table).rows ↔
      other ∈ rows ∨ other ∈ table.rows ∧ key other ∉ rows.map key := by
  induction rows generalizing table with
  | nil => simp
  | cons row rest ih =>
    rw [List.map_cons, List.nodup_cons] at keys
    rw [List.foldl_cons, ih keys.2, memSave, List.map_cons, List.mem_cons, List.mem_cons]
    constructor
    · rintro (later | ⟨rfl | ⟨before,away⟩,fresh⟩)
      · exact .inl (.inr later)
      · exact .inl (.inl rfl)
      · exact .inr ⟨before,by rintro (same | later); exacts [away same,fresh later]⟩
    · rintro ((rfl | later) | ⟨before,fresh⟩)
      · exact .inr ⟨.inl rfl,keys.1⟩
      · exact .inl later
      · exact .inr ⟨.inr ⟨before,fun same => fresh (.inl same)⟩,fun later => fresh (.inr later)⟩

structure Named (keys : List κ) (table : KeyedTable key) (rows : List α) : Prop where
  keys : rows.map key = keys
  stored : ∀ row ∈ rows, row ∈ table.rows

section
variable {keys : List κ} {table : KeyedTable key} {rows : List α}

theorem Named.present (named : Named keys table rows) : ∀ k ∈ keys, (table.find k).isSome := by
  intro k mem
  rw [← named.keys] at mem
  obtain ⟨row,listed,rfl⟩ := List.mem_map.mp mem
  rw [findSome.mpr ⟨named.stored row listed,rfl⟩, Option.isSome_some]

theorem allNamed (present : ∀ k ∈ keys, (table.find k).isSome) : ∃ rows, Named keys table rows := by
  induction keys with
  | nil => exact ⟨[],rfl,List.forall_mem_nil _⟩
  | cons k rest ih =>
    obtain ⟨first,later⟩ := List.forall_mem_cons.mp present
    obtain ⟨row,found⟩ := Option.isSome_iff_exists.mp first
    obtain ⟨mem,rfl⟩ := findSome.mp found
    obtain ⟨rows,named⟩ := ih later
    exact ⟨row :: rows,congrArg _ named.keys,List.forall_mem_cons.mpr ⟨mem,named.stored⟩⟩

theorem Named.onceEach (named : Named keys table rows) {β : Type} (f : α → β) (read : β → κ)
    (reads : ∀ row, read (f row) = key row) :
    (rows.map f).Perm ((table.rows.filter fun row => key row ∈ keys).map f) ↔ keys.Nodup := by
  have inTable : ((table.rows.filter fun row => key row ∈ keys).map key).Nodup :=
    table.distinct.sublist (List.filter_sublist.map key)
  constructor
  · intro same
    have keysSame := same.map read
    simp only [List.map_map, Function.comp_def, reads] at keysSame
    rw [← named.keys]
    exact keysSame.nodup_iff.mpr inTable
  · intro distinct
    rw [← named.keys] at distinct
    refine List.Perm.map _ ((List.perm_ext_iff_of_nodup distinct.of_map inTable.of_map).mpr fun row => ?_)
    rw [List.mem_filter, decide_eq_true_iff, ← named.keys]
    constructor
    · intro mem
      exact ⟨named.stored row mem,List.mem_map_of_mem mem⟩
    · rintro ⟨mem,listed⟩
      obtain ⟨other,inside,same⟩ := List.mem_map.mp listed
      exact unique (named.stored other inside) mem same ▸ inside

end

end KeyedTable
