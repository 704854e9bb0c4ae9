import Mathlib.Data.List.Nodup

/-! A map whose entries stay in the order in which their keys came in. Setting a key that is
there keeps its place. -/

structure InsertionMap (κ ν : Type) where
  entries : List (κ × ν)
  distinct : (entries.map Prod.fst).Nodup

namespace InsertionMap
variable {κ ν : Type}

def empty : InsertionMap κ ν := ⟨[],List.nodup_nil⟩

theorem unique {m : InsertionMap κ ν} {k : κ} {v v' : ν} (mem : (k,v) ∈ m.entries)
    (mem' : (k,v') ∈ m.entries) : v = v' :=
  congrArg Prod.snd (List.inj_on_of_nodup_map m.distinct mem mem' rfl)

variable [DecidableEq κ]

def get (m : InsertionMap κ ν) (k : κ) : Option ν := (m.entries.find? fun e => e.1 = k).map Prod.snd

def set (m : InsertionMap κ ν) (k : κ) (v : ν) : InsertionMap κ ν where
  entries :=
    if k ∈ m.entries.map Prod.fst then m.entries.map fun e => if e.1 = k then (k,v) else e
    else m.entries ++ [(k,v)]
  distinct := by
    split
    · have keys : (m.entries.map fun e => if e.1 = k then (k,v) else e).map Prod.fst =
          m.entries.map Prod.fst := by
        rw [List.map_map]
        refine List.map_congr_left fun e _ => ?_
        rw [Function.comp_apply]
        split
        · rename_i same
          exact same.symm
        · rfl
      rw [keys]
      exact m.distinct
    · rename_i fresh
      rw [List.map_append, List.map_cons, List.map_nil]
      exact List.nodup_append_comm.mp (List.nodup_cons.mpr ⟨fresh,m.distinct⟩)

def delete (m : InsertionMap κ ν) (k : κ) : InsertionMap κ ν where
  entries := m.entries.filter fun e => e.1 ≠ k
  distinct := m.distinct.sublist (List.filter_sublist.map Prod.fst)

theorem getSome {m : InsertionMap κ ν} {k : κ} {v : ν} : m.get k = some v ↔ (k,v) ∈ m.entries := by
  constructor
  · intro found
    obtain ⟨⟨k',v'⟩,here,rfl⟩ := Option.map_eq_some_iff.mp found
    obtain rfl : k' = k := by simpa using List.find?_some here
    exact List.mem_of_find?_eq_some here
  · intro mem
    cases here : m.entries.find? fun e => e.1 = k with
    | none => exact absurd (List.find?_eq_none.mp here (k,v) mem) (by simp)
    | some e =>
      obtain ⟨k',v'⟩ := e
      obtain rfl : k' = k := by simpa using List.find?_some here
      rw [get, here, unique mem (List.mem_of_find?_eq_some here)]
      rfl

theorem memSet {m : InsertionMap κ ν} {k k' : κ} {v v' : ν} :
    (k',v') ∈ (m.set k v).entries ↔ (k' = k ∧ v' = v) ∨ (k' ≠ k ∧ (k',v') ∈ m.entries) := by
  unfold set
  split
  · rename_i listed
    rw [List.mem_map]
    constructor
    · rintro ⟨⟨a,b⟩,mem,same⟩
      by_cases here : a = k
      · rw [if_pos here] at same
        cases same
        exact .inl ⟨rfl,rfl⟩
      · rw [if_neg here] at same
        cases same
        exact .inr ⟨here,mem⟩
    · rintro (⟨rfl,rfl⟩ | ⟨away,mem⟩)
      · obtain ⟨e,mem,same⟩ := List.mem_map.mp listed
        exact ⟨e,mem,if_pos same⟩
      · exact ⟨_,mem,if_neg away⟩
  · rename_i fresh
    rw [List.mem_append, List.mem_singleton, Prod.mk.injEq, or_comm]
    refine or_congr_right (and_iff_right_of_imp fun mem same => fresh ?_).symm
    exact List.mem_map.mpr ⟨_,mem,same⟩

theorem memDelete {m : InsertionMap κ ν} {k k' : κ} {v : ν} :
    (k',v) ∈ (m.delete k).entries ↔ k' ≠ k ∧ (k',v) ∈ m.entries := by
  rw [delete, List.mem_filter, decide_eq_true_eq, and_comm]

@[simp] theorem getEmpty (k : κ) : (empty : InsertionMap κ ν).get k = none := rfl

theorem getSet (m : InsertionMap κ ν) (k k' : κ) (v : ν) :
    (m.set k v).get k' = if k' = k then some v else m.get k' := by
  ext v'
  rw [getSome, memSet]
  split
  · rename_i here
    simp [here, eq_comm]
  · rename_i away
    simp [away, getSome]

theorem getDelete (m : InsertionMap κ ν) (k k' : κ) :
    (m.delete k).get k' = if k' = k then none else m.get k' := by
  ext v
  rw [getSome, memDelete]
  split
  · rename_i here
    simp [here]
  · rename_i away
    simp [away, getSome]

end InsertionMap
