import Mathlib.Algebra.BigOperators.Group.List.Basic
import Mathlib.Algebra.Order.BigOperators.Group.List
import Mathlib.Algebra.Order.Ring.Defs
import Mathlib.Tactic.Linarith
import Mathlib.Tactic.Ring

/-! An amount taken from offers of limited capacity, each at its own price. Taking the first
offers first is cheapest when they are sorted by price. -/
namespace Perpetual
namespace Greedy

section
variable {ι α : Type} [CommRing α]

def volume (price : ι → α) (fills : List (ι × α)) : α := (fills.map fun f => price f.1 * f.2).sum

def taken (fills : List (ι × α)) : α := (fills.map Prod.snd).sum

@[simp] theorem volumeNil (price : ι → α) : volume price [] = 0 := rfl

@[simp] theorem volumeCons (price : ι → α) (f : ι × α) (fills : List (ι × α)) :
    volume price (f::fills) = price f.1 * f.2 + volume price fills := List.sum_cons

@[simp] theorem takenNil : taken ([] : List (ι × α)) = 0 := rfl

@[simp] theorem takenCons (f : ι × α) (fills : List (ι × α)) : taken (f::fills) = f.2 + taken fills :=
  List.sum_cons

theorem volumeNeg (price : ι → α) (fills : List (ι × α)) :
    volume (fun i => -price i) fills = -volume price fills := by
  induction fills with
  | nil => exact neg_zero.symm
  | cons f rest ih =>
    rw [volumeCons, volumeCons, ih]
    ring

theorem volumePerm (price : ι → α) {fills fills' : List (ι × α)} (same : fills.Perm fills') :
    volume price fills = volume price fills' := (same.map _).sum_eq

theorem takenPerm {fills fills' : List (ι × α)} (same : fills.Perm fills') : taken fills = taken fills' :=
  (same.map _).sum_eq

theorem volumeIdle (price : ι → α) {fills rest : List (ι × α)} (idle : ∀ f ∈ rest, f.2 = 0) :
    volume price (fills ++ rest) = volume price fills := by
  have nothing : volume price rest = 0 := by
    refine List.sum_eq_zero fun x mem => ?_
    obtain ⟨f,inside,rfl⟩ := List.mem_map.mp mem
    rw [idle f inside, mul_zero]
  rw [volume, List.map_append, List.sum_append, ← volume, ← volume, nothing, add_zero]

theorem takenIdle {fills rest : List (ι × α)} (idle : ∀ f ∈ rest, f.2 = 0) :
    taken (fills ++ rest) = taken fills := by
  have nothing : taken rest = 0 := List.sum_eq_zero fun x mem => by
    obtain ⟨f,inside,rfl⟩ := List.mem_map.mp mem
    exact idle f inside
  rw [taken, List.map_append, List.sum_append, ← taken, ← taken, nothing, add_zero]

theorem volumeEqual {price : ι → α} {fills : List (ι × α)} {p : α}
    (same : ∀ f ∈ fills, price f.1 = p) : volume price fills = p * taken fills := by
  induction fills with
  | nil => exact (mul_zero p).symm
  | cons f rest ih =>
    rw [List.forall_mem_cons] at same
    rw [volumeCons, takenCons, same.1, ih same.2]
    ring

theorem volumeWhole (price : ι → α) {capacity : ι → α} {fills : List (ι × α)}
    (whole : ∀ f ∈ fills, f.2 = capacity f.1) :
    volume price fills = ((fills.map Prod.fst).map fun i => price i * capacity i).sum := by
  rw [volume, List.map_map]
  refine congrArg List.sum (List.map_congr_left fun f mem => ?_)
  rw [Function.comp_apply, whole f mem]

def greedy [LinearOrder α] (capacity : ι → α) : List ι → α → List (ι × α)
  | [],_ => []
  | i::rest,amount => (i,min amount (capacity i))::greedy capacity rest (amount - min amount (capacity i))

/-- A way to take the amount, or everything if that is less. An offer may be left alone. -/
structure Allocation [LinearOrder α] (capacity : ι → α) (offers : List ι) (amount : α)
    (fills : List (ι × α)) : Prop where
  each : (fills.map Prod.fst).Perm offers
  within : ∀ f ∈ fills, 0 ≤ f.2 ∧ f.2 ≤ capacity f.1
  total : taken fills = min amount (offers.map capacity).sum

theorem Allocation.perm [LinearOrder α] {capacity : ι → α} {offers offers' : List ι} {amount : α}
    {fills : List (ι × α)} (allocated : Allocation capacity offers amount fills)
    (same : offers.Perm offers') : Allocation capacity offers' amount fills where
  each := allocated.each.trans same
  within := allocated.within
  total := by rw [allocated.total, (same.map capacity).sum_eq]

theorem greedyOffers [LinearOrder α] (capacity : ι → α) (offers : List ι) (amount : α) :
    (greedy capacity offers amount).map Prod.fst = offers := by
  induction offers generalizing amount with
  | nil => rfl
  | cons i rest ih => rw [greedy, List.map_cons, ih]

theorem greedyZero [LinearOrder α] {capacity : ι → α} {offers : List ι}
    (capable : ∀ i ∈ offers, 0 ≤ capacity i) : ∀ f ∈ greedy capacity offers 0, f.2 = 0 := by
  induction offers with
  | nil => exact fun f mem => (List.not_mem_nil mem).elim
  | cons i rest ih =>
    rw [List.forall_mem_cons] at capable
    rw [greedy, min_eq_left capable.1, sub_self, List.forall_mem_cons]
    exact ⟨rfl,ih capable.2⟩

end

section
variable {ι α : Type} [CommRing α] [LinearOrder α] [IsStrictOrderedRing α] {capacity : ι → α}
  {price : ι → α} {offers : List ι} {amount : α} {fills : List (ι × α)}

theorem greedyWithin (capable : ∀ i ∈ offers, 0 ≤ capacity i) (some' : 0 ≤ amount) :
    ∀ f ∈ greedy capacity offers amount, 0 ≤ f.2 ∧ f.2 ≤ capacity f.1 := by
  induction offers generalizing amount with
  | nil => exact fun f mem => (List.not_mem_nil mem).elim
  | cons i rest ih =>
    rw [List.forall_mem_cons] at capable
    rw [greedy, List.forall_mem_cons]
    refine ⟨⟨le_min some' capable.1,min_le_right _ _⟩,ih capable.2 ?_⟩
    exact sub_nonneg.mpr (min_le_left _ _)

theorem totalNonneg (capable : ∀ i ∈ offers, 0 ≤ capacity i) : 0 ≤ (offers.map capacity).sum := by
  refine List.sum_nonneg fun x mem => ?_
  obtain ⟨i,inside,rfl⟩ := List.mem_map.mp mem
  exact capable i inside

theorem greedyTaken (capable : ∀ i ∈ offers, 0 ≤ capacity i) (some' : 0 ≤ amount) :
    taken (greedy capacity offers amount) = min amount (offers.map capacity).sum := by
  induction offers generalizing amount with
  | nil => exact (min_eq_right some').symm
  | cons i rest ih =>
    rw [List.forall_mem_cons] at capable
    have others := totalNonneg capable.2
    rw [greedy, takenCons, ih capable.2 (sub_nonneg.mpr (min_le_left _ _)), List.map_cons, List.sum_cons]
    rcases le_total amount (capacity i) with less | more
    · rw [min_eq_left less, sub_self, min_eq_left others, min_eq_left (by linarith), add_zero]
    · rw [min_eq_right more, ← min_add_add_left, add_sub_cancel]

theorem greedyAllocation (capable : ∀ i ∈ offers, 0 ≤ capacity i) (some' : 0 ≤ amount) :
    Allocation capacity offers amount (greedy capacity offers amount) where
  each := by rw [greedyOffers]
  within := greedyWithin capable some'
  total := greedyTaken capable some'

theorem greedyCapped (capable : ∀ i ∈ offers, 0 ≤ capacity i) (some' : 0 ≤ amount) :
    greedy capacity offers (min amount (offers.map capacity).sum) = greedy capacity offers amount := by
  induction offers generalizing amount with
  | nil => rfl
  | cons i rest ih =>
    rw [List.forall_mem_cons] at capable
    have others := totalNonneg capable.2
    have first : min (min amount (capacity i + (rest.map capacity).sum)) (capacity i) =
        min amount (capacity i) := by
      rw [min_assoc, min_eq_right (le_add_of_nonneg_right others)]
    rw [List.map_cons, List.sum_cons, greedy, greedy, first,
      ← ih capable.2 (sub_nonneg.mpr (min_le_left amount (capacity i)))]
    congr 2
    rcases le_total amount (capacity i + (rest.map capacity).sum) with less | more
    · have within : amount - min amount (capacity i) ≤ (rest.map capacity).sum := by
        rcases le_total amount (capacity i) with low | high
        · rwa [min_eq_left low, sub_self]
        · rw [min_eq_right high]
          linarith
      rw [min_eq_left less, min_eq_left within]
    · have full : capacity i ≤ amount := by linarith
      rw [min_eq_right more, min_eq_right full, add_sub_cancel_left, min_eq_right]
      linarith

theorem greedyGrows {least s t : α} (priced : ∀ i ∈ offers, least ≤ price i)
    (capable : ∀ i ∈ offers, 0 ≤ capacity i) (less : s ≤ t) :
    least * (taken (greedy capacity offers t) - taken (greedy capacity offers s)) ≤
      volume price (greedy capacity offers t) - volume price (greedy capacity offers s) := by
  induction offers generalizing s t with
  | nil => simp [greedy]
  | cons i rest ih =>
    rw [List.forall_mem_cons] at priced capable
    have part : min s (capacity i) ≤ min t (capacity i) := min_le_min_right _ less
    have left : s - min s (capacity i) ≤ t - min t (capacity i) := by
      rcases le_total s (capacity i) with low | high
      · rw [min_eq_left low, sub_self]
        exact sub_nonneg.mpr (min_le_left _ _)
      · rw [min_eq_right high, min_eq_right (high.trans less)]
        linarith
    have others := ih priced.2 capable.2 left
    have first := mul_le_mul_of_nonneg_right priced.1 (sub_nonneg.mpr part)
    simp only [greedy, takenCons, volumeCons]
    linarith

theorem takenLe (within : ∀ f ∈ fills, 0 ≤ f.2 ∧ f.2 ≤ capacity f.1) :
    0 ≤ taken fills ∧ taken fills ≤ ((fills.map Prod.fst).map capacity).sum := by
  induction fills with
  | nil => exact ⟨le_rfl,le_rfl⟩
  | cons f rest ih =>
    rw [List.forall_mem_cons] at within
    obtain ⟨⟨low,high⟩,others⟩ := within
    obtain ⟨lower,upper⟩ := ih others
    rw [takenCons, List.map_cons, List.map_cons, List.sum_cons]
    exact ⟨add_nonneg low lower,add_le_add high upper⟩

theorem takenWhole (within : ∀ f ∈ fills, 0 ≤ f.2 ∧ f.2 ≤ capacity f.1)
    (all : ((fills.map Prod.fst).map capacity).sum ≤ taken fills) : ∀ f ∈ fills, f.2 = capacity f.1 := by
  induction fills with
  | nil => exact fun f mem => (List.not_mem_nil mem).elim
  | cons f rest ih =>
    rw [List.forall_mem_cons] at within ⊢
    obtain ⟨⟨_,high⟩,others⟩ := within
    rw [List.map_cons, List.map_cons, List.sum_cons, takenCons] at all
    have upper := (takenLe others).2
    exact ⟨high.antisymm (by linarith),ih others (by linarith)⟩

theorem leastInOrder (capable : ∀ f ∈ fills, 0 ≤ capacity f.1)
    (within : ∀ f ∈ fills, 0 ≤ f.2 ∧ f.2 ≤ capacity f.1)
    (sorted : (fills.map Prod.fst).Pairwise fun i j => price i ≤ price j) :
    volume price (greedy capacity (fills.map Prod.fst) (taken fills)) ≤ volume price fills := by
  induction fills with
  | nil => exact le_rfl
  | cons f rest ih =>
    obtain ⟨i,x⟩ := f
    rw [List.forall_mem_cons] at capable within
    rw [List.map_cons, List.pairwise_cons] at sorted
    obtain ⟨⟨low,high⟩,others⟩ := within
    obtain ⟨lower,upper⟩ := takenLe others
    have later := ih capable.2 others sorted.2
    have capable' : ∀ j ∈ rest.map Prod.fst, 0 ≤ capacity j := by
      rw [List.forall_mem_map]
      exact capable.2
    -- the first offer serves at least the x it had, so the others have to serve less
    have served : x ≤ min (x + taken rest) (capacity i) := le_min (le_add_of_nonneg_right lower) high
    have less : x + taken rest - min (x + taken rest) (capacity i) ≤ taken rest := by linarith
    have some' : 0 ≤ x + taken rest - min (x + taken rest) (capacity i) :=
      sub_nonneg.mpr (min_le_left _ _)
    have saved := greedyGrows sorted.1 capable' less
    rw [greedyTaken capable' lower, greedyTaken capable' some', min_eq_left upper,
      min_eq_left (less.trans upper)] at saved
    rw [List.map_cons, takenCons, greedy, volumeCons, volumeCons]
    linarith

theorem liftPerm {β γ : Type} {f : β → γ} {l : List β} {m : List γ} (same : (l.map f).Perm m) :
    ∃ l' : List β, l'.Perm l ∧ l'.map f = m := by
  generalize mapped : l.map f = k at same
  induction same generalizing l with
  | nil => exact ⟨l,.refl l,mapped⟩
  | cons x _ ih =>
    obtain ⟨a,rest,rfl,rfl,rfl⟩ := List.map_eq_cons_iff.mp mapped
    obtain ⟨l',perm,rfl⟩ := ih rfl
    exact ⟨a::l',perm.cons a,rfl⟩
  | swap x y _ =>
    obtain ⟨a,l₁,rfl,rfl,later⟩ := List.map_eq_cons_iff.mp mapped
    obtain ⟨b,l₂,rfl,rfl,rfl⟩ := List.map_eq_cons_iff.mp later
    exact ⟨b::a::l₂,.swap a b l₂,rfl⟩
  | trans _ _ first last =>
    obtain ⟨l₁,perm₁,rfl⟩ := first mapped
    obtain ⟨l₂,perm₂,rfl⟩ := last rfl
    exact ⟨l₂,perm₂.trans perm₁,rfl⟩

theorem greedyLeast (price : ι → α) (capable : ∀ i ∈ offers, 0 ≤ capacity i) (some' : 0 ≤ amount)
    (sorted : offers.Pairwise fun i j => price i ≤ price j)
    (allocated : Allocation capacity offers amount fills) :
    volume price (greedy capacity offers amount) ≤ volume price fills := by
  obtain ⟨fills',perm,rfl⟩ := liftPerm allocated.each
  have within : ∀ f ∈ fills', 0 ≤ f.2 ∧ f.2 ≤ capacity f.1 := fun f mem =>
    allocated.within f (perm.subset mem)
  have least := leastInOrder (fun f mem => capable f.1 (List.mem_map_of_mem mem)) within sorted
  rwa [takenPerm perm, allocated.total, greedyCapped capable some', volumePerm price perm] at least

theorem greedyMost (capable : ∀ i ∈ offers, 0 ≤ capacity i) (some' : 0 ≤ amount)
    (sorted : offers.Pairwise fun i j => price j ≤ price i)
    (allocated : Allocation capacity offers amount fills) :
    volume price fills ≤ volume price (greedy capacity offers amount) := by
  have least := greedyLeast (fun i => -price i) capable some'
    (sorted.imp fun lower => neg_le_neg lower) allocated
  rw [volumeNeg, volumeNeg] at least
  exact neg_le_neg_iff.mp least

end
end Greedy
end Perpetual
