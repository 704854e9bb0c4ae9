import Mathlib.Logic.Function.Basic
import Perpetual.KeyedTable

/-! A follower of a keyed table. It is told of changes row by row, takes in those rows that it wants, and keeps
the last one for each key. -/

namespace Replica
variable {α κ : Type}

def hear [DecidableEq κ] (key : α → κ) (wants : α → Bool) (told : κ → Option α) (row : α) : κ → Option α :=
  if wants row then Function.update told (key row) (some row) else told

/-- `first` are the rows that were there before the follower was told of anything, and `live` says of which rows
it has to know. -/
structure Follows {key : α → κ} (wants : α → Bool) (first live : α → Prop) (table : KeyedTable key)
    (told : κ → Option α) : Prop where
  keyed : ∀ k row, told k = some row → key row = k ∧ wants row = true
  sound : ∀ k row, told k = some row → live row → row ∈ table.rows
  complete : ∀ row ∈ table.rows, live row → wants row = true →
    told (key row) = some row ∨ told (key row) = none ∧ first row

variable [DecidableEq κ] {key : α → κ} {wants : α → Bool} {first live : α → Prop} {table : KeyedTable key}
  {told : κ → Option α} {row : α}

theorem hearOther {k : κ} (away : k ≠ key row) : hear key wants told row k = told k := by
  unfold hear
  split
  · exact Function.update_of_ne away _ _
  · rfl

theorem hearHere : hear key wants told row (key row) = if wants row then some row else told (key row) := by
  unfold hear
  split
  · exact Function.update_self _ _ _
  · rfl

omit [DecidableEq κ] in
theorem Follows.congr {other : KeyedTable key} (h : Follows wants first live table told)
    (same : ∀ row, row ∈ table.rows ↔ row ∈ other.rows) : Follows wants first live other told where
  keyed := h.keyed
  sound k row here alive := (same row).mp (h.sound k row here alive)
  complete row mem := h.complete row ((same row).mpr mem)

theorem hearKeyed (h : ∀ k row, told k = some row → key row = k ∧ wants row = true) {k : κ} {other : α}
    (here : hear key wants told row k = some other) : key other = k ∧ wants other = true := by
  by_cases away : k = key row
  · subst away
    rw [hearHere] at here
    split at here
    · rename_i wanted
      cases Option.some.inj here
      exact ⟨rfl,wanted⟩
    · exact h _ other here
  · rw [hearOther away] at here
    exact h k other here

theorem hearsOther {rows : List α} {k : κ} (away : k ∉ rows.map key) : rows.foldl (hear key wants) told k = told k := by
  induction rows generalizing told with
  | nil => rfl
  | cons row rest ih =>
    rw [List.map_cons, List.mem_cons, not_or] at away
    rw [List.foldl_cons, ih away.2, hearOther away.1]

theorem Follows.repeated (h : Follows wants first live table told) (mem : row ∈ table.rows) :
    Follows wants first live table (hear key wants told row) where
  keyed k other := hearKeyed h.keyed
  sound k other here alive := by
    by_cases away : k = key row
    · subst away
      rw [hearHere] at here
      split at here
      · exact Option.some.inj here ▸ mem
      · exact h.sound _ other here alive
    · rw [hearOther away] at here
      exact h.sound k other here alive
  complete other inside alive wanted := by
    by_cases same : key other = key row
    · obtain rfl := KeyedTable.unique inside mem same
      rw [hearHere, if_pos wanted]
      exact .inl rfl
    · rw [hearOther same]
      exact h.complete other inside alive wanted

theorem Follows.saved (h : Follows wants first live table told)
    (alike : ∀ old, told (key row) = some old → live old → wants row = true) :
    Follows wants first live (table.save row) (hear key wants told row) where
  keyed k other := hearKeyed h.keyed
  sound k other here alive := by
    rw [KeyedTable.memSave]
    by_cases away : k = key row
    · subst away
      rw [hearHere] at here
      split at here
      · exact .inl (Option.some.inj here).symm
      · rename_i unwanted
        exact absurd (alike other here alive) unwanted
    · have keyed := (h.keyed k other (by rwa [hearOther away] at here)).1
      rw [hearOther away] at here
      exact .inr ⟨h.sound k other here alive,keyed ▸ away⟩
  complete other mem alive wanted := by
    rcases KeyedTable.memSave.mp mem with rfl | ⟨kept,away⟩
    · rw [hearHere, if_pos wanted]
      exact .inl rfl
    · rw [hearOther away]
      exact h.complete other kept alive wanted

theorem Follows.savedAll {rows : List α} (h : Follows wants first live table told) (keys : (rows.map key).Nodup)
    (olds : ∀ row ∈ rows, ∃ old ∈ table.rows, key old = key row ∧ wants old = wants row) :
    Follows wants first live (rows.foldl KeyedTable.save table) (rows.foldl (hear key wants) told) := by
  induction rows generalizing table told with
  | nil => exact h
  | cons row rest ih =>
    obtain ⟨old,stored,sameKey,sameWants⟩ := olds row List.mem_cons_self
    rw [List.map_cons, List.nodup_cons] at keys
    refine ih (h.saved fun other here alive => ?_) keys.2 fun later mem => ?_
    · have keyed := h.keyed _ other here
      obtain rfl := KeyedTable.unique (h.sound _ other here alive) stored (keyed.1.trans sameKey.symm)
      exact sameWants ▸ keyed.2
    · obtain ⟨old',stored',sameKey',sameWants'⟩ := olds later (List.mem_cons_of_mem _ mem)
      refine ⟨old',KeyedTable.memSave.mpr (.inr ⟨stored',?_⟩),sameKey',sameWants'⟩
      rw [sameKey']
      exact fun same => keys.1 (same ▸ List.mem_map_of_mem mem)

theorem Follows.savedQuietly (h : Follows wants first live table told) (dead : ¬live row)
    (untold : told (key row) = none) : Follows wants first live (table.save row) told where
  keyed := h.keyed
  sound k other here alive := by
    refine KeyedTable.memSave.mpr (.inr ⟨h.sound k other here alive,fun same => ?_⟩)
    rw [← (h.keyed k other here).1, same, untold] at here
    cases here
  complete other mem alive wanted := by
    rcases KeyedTable.memSave.mp mem with rfl | ⟨kept,_⟩
    · exact absurd alive dead
    · exact h.complete other kept alive wanted

theorem Follows.deleted {rows : List α} (h : Follows wants first live table told) (closing : α → α)
    (closed : ∀ row, key (closing row) = key row ∧ ¬live (closing row) ∧ wants (closing row) = wants row)
    (alike : ∀ row ∈ rows, ∀ old, told (key row) = some old → live old → wants row = true) :
    Follows wants first live (table.delete (rows.map key)) ((rows.map closing).foldl (hear key wants) told) := by
  induction rows generalizing table told with
  | nil => exact h.congr fun row => by rw [List.map_nil, KeyedTable.deleteNil]
  | cons gone rest ih =>
    obtain ⟨sameKey,dead,sameWants⟩ := closed gone
    have quiet (old : α) (here : hear key wants told (closing gone) (key gone) = some old) : ¬live old := by
      intro alive
      rw [← sameKey, hearHere, sameWants] at here
      split at here
      · cases Option.some.inj here
        exact dead alive
      · rename_i unwanted
        rw [sameKey] at here
        exact unwanted (alike gone List.mem_cons_self old here alive)
    have one : Follows wants first live (table.delete [key gone]) (hear key wants told (closing gone)) := by
      refine ⟨fun k other => hearKeyed h.keyed,fun k other here alive => ?_,fun other mem alive wanted => ?_⟩
      · have keyed := (hearKeyed h.keyed here).1
        by_cases away : k = key gone
        · subst away
          exact absurd alive (quiet other here)
        · rw [hearOther (sameKey ▸ away)] at here
          rw [KeyedTable.memDelete, List.mem_singleton, keyed]
          exact ⟨h.sound k other here alive,away⟩
      · rw [KeyedTable.memDelete, List.mem_singleton] at mem
        rw [hearOther (sameKey ▸ mem.2)]
        exact h.complete other mem.1 alive wanted
    refine (ih one fun row mem old here alive => ?_).congr fun row => ?_
    · by_cases same : key row = key gone
      · rw [same] at here
        exact absurd alive (quiet old here)
      · rw [hearOther (sameKey ▸ same)] at here
        exact alike row (List.mem_cons_of_mem _ mem) old here alive
    · rw [KeyedTable.memDelete, KeyedTable.memDelete, KeyedTable.memDelete, List.mem_singleton, List.map_cons,
        List.mem_cons, not_or, and_assoc]

end Replica
