import Mathlib.Data.List.Pairwise
import Mathlib.Order.Basic

/-! The middle of a sorted list, against a minority of its elements; and sets of small numbers
kept as the bits of a word. -/
namespace Median
variable {α β : Type*} [Preorder β] {f : α → β} {bad : α → Bool} {before after : List α} {m : α}

theorem goodWithin {l part : List α} (sub : part.Sublist l) (few : l.countP bad < part.length) :
    ∃ a ∈ part, bad a = false := by
  by_contra none
  have all : part.countP bad = part.length :=
    List.countP_eq_length.mpr fun a mem => eq_true_of_ne_false fun good => none ⟨a,mem,good⟩
  have least := sub.countP_le (p := bad)
  omega

theorem goodBelow (sorted : (before ++ m::after).Pairwise fun a b => f a ≤ f b)
    (few : (before ++ m::after).countP bad < before.length + 1) :
    ∃ a ∈ before ++ m::after, bad a = false ∧ f a ≤ f m := by
  have sub : (before ++ [m]).Sublist (before ++ m::after) :=
    (List.Sublist.refl before).append (List.Sublist.cons_cons m (List.nil_sublist after))
  obtain ⟨a,mem,good⟩ := goodWithin sub (by simpa using few)
  refine ⟨a,sub.subset mem,good,?_⟩
  rcases List.mem_append.mp mem with inside | last
  · exact (List.pairwise_append.mp sorted).2.2 a inside m List.mem_cons_self
  · rw [List.mem_singleton.mp last]

theorem goodAbove (sorted : (before ++ m::after).Pairwise fun a b => f a ≤ f b)
    (few : (before ++ m::after).countP bad < after.length + 1) :
    ∃ a ∈ before ++ m::after, bad a = false ∧ f m ≤ f a := by
  have sub : (m::after).Sublist (before ++ m::after) := List.sublist_append_right _ _
  obtain ⟨a,mem,good⟩ := goodWithin sub few
  refine ⟨a,sub.subset mem,good,?_⟩
  rcases List.mem_cons.mp mem with rfl | inside
  · exact le_refl _
  · exact List.rel_of_pairwise_cons (List.pairwise_append.mp sorted).2.1 inside

/-- With fewer than half of the elements bad, the element at half the length lies between two
good ones. -/
theorem between {l : List α} (sorted : l.Pairwise fun a b => f a ≤ f b) (few : 2 * l.countP bad < l.length)
    (middle : l[l.length / 2]? = some m) :
    (∃ a ∈ l, bad a = false ∧ f a ≤ f m) ∧ ∃ a ∈ l, bad a = false ∧ f m ≤ f a := by
  obtain ⟨inside,here⟩ := List.getElem?_eq_some_iff.mp middle
  obtain ⟨before,after,split,size⟩ : ∃ before after, l = before ++ m::after ∧ before.length = l.length / 2 := by
    refine ⟨l.take (l.length / 2),l.drop (l.length / 2 + 1),?_,List.length_take_of_le (Nat.le_of_lt inside)⟩
    rw [← here, ← List.drop_eq_getElem_cons inside, List.take_append_drop]
  subst split
  rw [List.length_append, List.length_cons] at few size
  exact ⟨goodBelow sorted (by omega),goodAbove sorted (by omega)⟩

end Median

namespace Bitmap
variable {w : Nat}

theorem member (set : BitVec w) {k : Nat} (small : k < w) :
    set &&& 1#w <<< k = 0 ↔ set.getLsbD k = false := by
  constructor
  · intro none
    have bit := congrArg (fun x => x.getLsbD k) none
    simpa [small] using bit
  · intro absent
    refine BitVec.eq_of_getLsbD_eq fun i inside => ?_
    by_cases same : i = k
    · subst same
      simp [absent]
    · have other : (1#w <<< k).getLsbD i = false := by
        simp only [BitVec.getLsbD_shiftLeft, BitVec.getLsbD_one]
        grind
      simp [other]

theorem insert (set : BitVec w) {k : Nat} (small : k < w) (i : Nat) :
    (set ||| 1#w <<< k).getLsbD i = true ↔ set.getLsbD i = true ∨ i = k := by
  simp only [BitVec.getLsbD_or, BitVec.getLsbD_shiftLeft, BitVec.getLsbD_one]
  grind

theorem insertIf (set : BitVec w) {k : Nat} (small : k < w) (add : Prop) [Decidable add] (i : Nat) :
    (if add then set ||| 1#w <<< k else set).getLsbD i = true ↔ set.getLsbD i = true ∨ i = k ∧ add := by
  split <;> rename_i h
  · rw [insert set small, and_iff_left h]
  · simp [h]

end Bitmap
