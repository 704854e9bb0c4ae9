import Mathlib.Algebra.Order.Group.Defs
import Mathlib.Algebra.Order.Monoid.Unbundled.Basic
import Mathlib.Data.Option.Basic
import Mathlib.Logic.Relation

/-! A counter and a stored copy of it. A writer reads the copy, later adds to the counter, and
later still overwrites the copy with what it read and added. When every addition is made
on a value that is still the counter's, the copy catches up with the counter. -/
namespace StoredCopy
variable {ι α : Type}

structure Cell (ι α : Type) where
  total : α
  stored : Option α
  read : ι → Option α
  pending : ι → Option α
  opens : ι → Bool

theorem updateSome [DecidableEq ι] {f : ι → Option α} {i j : ι} {v : α}
    (h : Function.update f i none j = some v) : j ≠ i ∧ f j = some v := by
  by_cases same : j = i
  · rw [same, Function.update_self] at h
    cases h
  · exact ⟨same,by rwa [Function.update_of_ne same] at h⟩

theorem updateTrue [DecidableEq ι] {f : ι → Bool} {i j : ι} (h : Function.update f i false j = true) :
    j ≠ i ∧ f j = true := by
  by_cases same : j = i
  · rw [same, Function.update_self] at h
    cases h
  · exact ⟨same,by rwa [Function.update_of_ne same] at h⟩

variable [AddCommGroup α] [LinearOrder α]

inductive Move [DecidableEq ι] : Cell ι α → Cell ι α → Prop where
  | read {c : Cell ι α} (i : ι) (v : α) (stored : c.stored = some v) :
      Move c { c with read := Function.update c.read i (some v) }
  | drop {c : Cell ι α} (i : ι) : Move c { c with read := Function.update c.read i none }
  | quit {c : Cell ι α} (i : ι) : Move c { c with opens := Function.update c.opens i false }
  | add {c : Cell ι α} (i : ι) (d : α) (fresh : c.read i = some c.total) (some' : 0 < d) :
      Move c { c with
        total := c.total + d
        read := Function.update c.read i none
        pending := Function.update c.pending i (some (c.total + d)) }
  | «open» {c : Cell ι α} (i : ι) (d : α) (opens : c.opens i = true) :
      Move c { c with
        total := c.total + d
        pending := Function.update c.pending i (some d)
        opens := Function.update c.opens i false }
  | store {c : Cell ι α} (i : ι) (v : α) (pending : c.pending i = some v) :
      Move c { c with stored := some v, pending := Function.update c.pending i none }

/-- What is read is not ahead of the copy, and the copy is behind the counter only while one
writer has still to store the counter. -/
structure Consistent (c : Cell ι α) : Prop where
  read : ∀ i v, c.read i = some v → ∃ w, c.stored = some w ∧ v ≤ w
  pending : ∀ i v, c.pending i = some v → v = c.total ∧ ∀ w, c.stored = some w → w < v
  one : ∀ i j v w, c.pending i = some v → c.pending j = some w → i = j
  settled : (∀ i, c.pending i = none) → ∀ w, c.stored = some w → w = c.total
  opens : ∀ i, c.opens i = true →
    c.total = 0 ∧ c.stored = none ∧ (∀ j, c.pending j = none) ∧ ∀ j, c.opens j = true → j = i

namespace Consistent

theorem quiet {c : Cell ι α} (h : Consistent c) {i : ι} (fresh : c.read i = some c.total) (j : ι) :
    c.pending j = none := by
  obtain ⟨w,stored,le⟩ := h.read i _ fresh
  cases waiting : c.pending j with
  | none => rfl
  | some v =>
    obtain ⟨rfl,behind⟩ := h.pending j v waiting
    exact absurd (behind w stored) (not_lt.mpr le)

variable [DecidableEq ι]

theorem drop {c : Cell ι α} (h : Consistent c) (i : ι) :
    Consistent { c with read := Function.update c.read i none } where
  read j v now := h.read j v (updateSome now).2
  pending := h.pending
  one := h.one
  settled := h.settled
  opens := h.opens

variable [IsOrderedAddMonoid α]

theorem add {c : Cell ι α} (h : Consistent c) {i : ι} {d : α} (fresh : c.read i = some c.total)
    (some' : 0 < d) : Consistent { c with
      total := c.total + d
      read := Function.update c.read i none
      pending := Function.update c.pending i (some (c.total + d)) } := by
  have quiet := h.quiet fresh
  have only (j : ι) (v : α) (now : Function.update c.pending i (some (c.total + d)) j = some v) :
      j = i ∧ v = c.total + d := by
    by_cases same : j = i
    · rw [same, Function.update_self] at now
      exact ⟨same,(Option.some.inj now).symm⟩
    · rw [Function.update_of_ne same, quiet] at now
      cases now
  refine ⟨(h.drop i).read,?_,?_,?_,?_⟩
  · intro j v now
    obtain ⟨_,rfl⟩ := only j v now
    refine ⟨rfl,fun w stored => ?_⟩
    rw [h.settled quiet w stored]
    exact lt_add_of_pos_right _ some'
  · intro j k v w first second
    exact (only j v first).1.trans (only k w second).1.symm
  · intro none'
    cases (Function.update_self i _ c.pending).symm.trans (none' i)
  · intro j opens
    obtain ⟨w,stored,_⟩ := h.read i _ fresh
    rw [(h.opens j opens).2.1] at stored
    cases stored

omit [IsOrderedAddMonoid α] in
theorem «open» {c : Cell ι α} (h : Consistent c) {i : ι} {d : α} (opens : c.opens i = true) :
    Consistent { c with
      total := c.total + d
      pending := Function.update c.pending i (some d)
      opens := Function.update c.opens i false } := by
  obtain ⟨zero,absent,quiet,alone⟩ := h.opens i opens
  have only (j : ι) (v : α) (now : Function.update c.pending i (some d) j = some v) :
      j = i ∧ v = d := by
    by_cases same : j = i
    · rw [same, Function.update_self] at now
      exact ⟨same,(Option.some.inj now).symm⟩
    · rw [Function.update_of_ne same, quiet] at now
      cases now
  refine ⟨h.read,?_,?_,?_,?_⟩
  · intro j v now
    obtain ⟨_,rfl⟩ := only j v now
    refine ⟨by rw [zero, zero_add],fun w stored => ?_⟩
    rw [absent] at stored
    cases stored
  · intro j k v w first second
    exact (only j v first).1.trans (only k w second).1.symm
  · intro none'
    cases (Function.update_self i _ c.pending).symm.trans (none' i)
  · intro j now
    obtain ⟨away,other⟩ := updateTrue now
    exact absurd (alone j other) away

omit [IsOrderedAddMonoid α] in
theorem store {c : Cell ι α} (h : Consistent c) {i : ι} {v : α} (pending : c.pending i = some v) :
    Consistent { c with stored := some v, pending := Function.update c.pending i none } := by
  obtain ⟨rfl,ahead⟩ := h.pending i v pending
  have quiet (j : ι) : Function.update c.pending i none j = none := by
    cases now : Function.update c.pending i none j with
    | none => rfl
    | some w =>
      obtain ⟨away,other⟩ := updateSome now
      exact absurd (h.one j i w _ other pending) away
  refine ⟨?_,?_,?_,?_,?_⟩
  · intro j w now
    obtain ⟨x,stored,le⟩ := h.read j w now
    exact ⟨_,rfl,le.trans (ahead x stored).le⟩
  · intro j w now
    cases (quiet j).symm.trans now
  · intro j k w x now
    cases (quiet j).symm.trans now
  · intro _ w now
    exact (Option.some.inj now).symm
  · intro j opens
    rw [(h.opens j opens).2.2.1] at pending
    cases pending

theorem move {c c' : Cell ι α} (h : Consistent c) (move : Move c c') : Consistent c' := by
  cases move with
  | read i v stored =>
    refine ⟨fun j w now => ?_,h.pending,h.one,h.settled,h.opens⟩
    by_cases same : j = i
    · obtain rfl := same
      exact ⟨v,stored,(Option.some.inj ((Function.update_self j _ c.read).symm.trans now)).ge⟩
    · exact h.read j w ((Function.update_of_ne same _ c.read).symm.trans now)
  | drop i => exact h.drop i
  | quit i =>
    refine ⟨h.read,h.pending,h.one,h.settled,fun j opens => ?_⟩
    obtain ⟨zero,absent,quiet,alone⟩ := h.opens j (updateTrue opens).2
    exact ⟨zero,absent,quiet,fun k other => alone k (updateTrue other).2⟩
  | add i d fresh some' => exact h.add fresh some'
  | «open» i d opens => exact h.open opens
  | store i v pending => exact h.store pending

theorem moves {c c' : Cell ι α} (h : Consistent c) (moves : Relation.ReflTransGen Move c c') :
    Consistent c' := by
  induction moves with
  | refl => exact h
  | tail _ last ih => exact ih.move last

end Consistent
end StoredCopy
