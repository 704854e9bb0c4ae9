import Mathlib.Algebra.BigOperators.Fin
import Mathlib.Algebra.BigOperators.Ring.Finset
import Mathlib.Algebra.Order.Ring.Int
import Mathlib.Data.Fintype.BigOperators
import Mathlib.Logic.Relation
import Mathlib.Tactic.Linarith
import Mathlib.Tactic.Ring

/-! A pool that holds a reserve for accounts with a margin and a position, and that
settles payments between positions lazily against one running index. Everything
is an exact integer; `unit` is the number of small units in one reserve token. -/
namespace FundingPool

@[ext] structure Pool (ι : Type) where
  margin : ι → Int
  position : ι → Int
  cached : ι → Int
  index : Int
  price : Int
  frozen : Bool
  reserve : Int

variable {ι : Type} [Fintype ι] [DecidableEq ι]

theorem sumAt {f g : ι → Int} (a : ι) (elsewhere : ∀ b, b ≠ a → g b = f b) :
    ∑ b, g b = ∑ b, f b + (g a - f a) := by
  rw [Fintype.sum_eq_add_sum_compl a g, Fintype.sum_eq_add_sum_compl a f]
  have rest : ∑ b ∈ {a}ᶜ, g b = ∑ b ∈ {a}ᶜ, f b := by
    refine Finset.sum_congr rfl fun b mem => elsewhere b ?_
    simpa using mem
  rw [rest]
  ring

theorem sumAtTwo {f g : ι → Int} {a b : ι} (different : a ≠ b)
    (elsewhere : ∀ c, c ≠ a → c ≠ b → g c = f c) :
    ∑ c, g c = ∑ c, f c + (g a - f a) + (g b - f b) := by
  have first := sumAt (f := f) (g := Function.update f a (g a)) a
    fun c away => Function.update_of_ne away _ _
  have second := sumAt (f := Function.update f a (g a)) (g := g) b fun c away => by
    by_cases same : c = a
    · rw [same, Function.update_self]
    · rw [Function.update_of_ne same, elsewhere c same away]
  rw [second, first, Function.update_self, Function.update_of_ne different.symm]

namespace Pool

/-- What the pool owes an account, in small units: its margin, the payments since its
cached index, and its position at the price, which is zero until the pool is frozen. -/
def owed (unit : Int) (p : Pool ι) (a : ι) : Int :=
  unit * p.margin a - (p.index - p.cached a) * p.position a + p.price * p.position a

inductive Quiet (unit : Int) : Pool ι → Pool ι → Prop where
  | settle (p : Pool ι) (a : ι) (margin : Int)
      (rounded : unit * margin ≤ unit * p.margin a - (p.index - p.cached a) * p.position a) :
      Quiet unit p { p with
        margin := Function.update p.margin a margin, cached := Function.update p.cached a p.index }
  | reindex (p : Pool ι) (index : Int) (live : p.frozen = false) :
      Quiet unit p { p with index := index }
  | deposit (p : Pool ι) (a : ι) (amount : Int) :
      Quiet unit p { p with
        margin := Function.update p.margin a (p.margin a + amount), reserve := p.reserve + amount }
  | donate (p : Pool ι) (amount : Int) (gift : 0 ≤ amount) :
      Quiet unit p { p with reserve := p.reserve + amount }
  | trade (p : Pool ι) (a b : ι) (margin position : Int) (different : a ≠ b)
      (settledFirst : p.cached a = p.index) (settledLast : p.cached b = p.index) :
      Quiet unit p { p with
        margin := Function.update (Function.update p.margin a (p.margin a + margin))
          b (p.margin b - margin)
        position := Function.update (Function.update p.position a (p.position a - position))
          b (p.position b + position) }
  | freeze (p : Pool ι) (price : Int) (live : p.frozen = false) :
      Quiet unit p { p with price := price, frozen := true }

inductive Step (unit : Int) : Pool ι → Pool ι → Prop where
  | quiet {p q : Pool ι} (move : Quiet unit p q) : Step unit p q
  | payOut (p : Pool ι) (a : ι) (paid rest : Int) (frozen : p.frozen = true)
      (settled : p.cached a = p.index) (bounded : unit * (paid + rest) ≤ p.owed unit a) :
      Step unit p { p with
        margin := Function.update p.margin a rest
        position := Function.update p.position a 0
        reserve := p.reserve - paid }

def Flat (p : Pool ι) : Prop := ∑ a, p.position a = 0

structure Sound (unit : Int) (p : Pool ι) : Prop where
  solvent : ∑ a, p.owed unit a ≤ unit * p.reserve
  flat : p.frozen = false → p.Flat

theorem quietFlat {unit : Int} {p q : Pool ι} (move : Quiet unit p q) (flat : p.Flat) : q.Flat := by
  cases move with
  | trade a b margin position different settledFirst settledLast =>
    unfold Flat
    rw [sumAtTwo (f := p.position) different fun c first last => by
      simp only [Function.update_of_ne last, Function.update_of_ne first]]
    simp only [Function.update_self, Function.update_of_ne different]
    rw [show ∑ c, p.position c = 0 from flat]
    ring
  | _ => exact flat

omit [DecidableEq ι] in
theorem owedTotal {unit : Int} {p : Pool ι} (flat : p.Flat) :
    ∑ a, p.owed unit a = ∑ a, (unit * p.margin a + p.cached a * p.position a) := by
  have split : ∀ a, p.owed unit a =
      (unit * p.margin a + p.cached a * p.position a) + (p.price - p.index) * p.position a := by
    intro a
    unfold owed
    ring
  have none : ∑ a, (p.price - p.index) * p.position a = 0 := by
    rw [← Finset.mul_sum, flat, Int.mul_zero]
  rw [Finset.sum_congr rfl fun a _ => split a, Finset.sum_add_distrib, none, Int.add_zero]

theorem quietSolvent {unit : Int} (positive : 0 ≤ unit) {p q : Pool ι} (move : Quiet unit p q)
    (sound : Sound unit p) : ∑ a, q.owed unit a ≤ unit * q.reserve := by
  have before := sound.solvent
  cases move with
  | settle a margin rounded =>
    rw [sumAt (f := p.owed unit) a fun b away => by
      simp only [owed, Function.update_of_ne away]]
    simp only [owed, Function.update_self] at *
    linarith
  | reindex index live =>
    rw [owedTotal (sound.flat live)] at before
    have move : Quiet unit p _ := .reindex p index live
    rw [owedTotal (quietFlat move (sound.flat live))]
    exact before
  | deposit a amount =>
    rw [sumAt (f := p.owed unit) a fun b away => by
      simp only [owed, Function.update_of_ne away]]
    simp only [owed, Function.update_self] at *
    linarith
  | donate amount gift =>
    have more := mul_nonneg positive gift
    simp only [owed] at *
    linarith
  | trade a b margin position different settledFirst settledLast =>
    rw [sumAtTwo (f := p.owed unit) different fun c first last => by
      simp only [owed, Function.update_of_ne first, Function.update_of_ne last]]
    simp only [owed, Function.update_self, Function.update_of_ne different, settledFirst,
      settledLast] at *
    linarith
  | freeze price live =>
    rw [owedTotal (sound.flat live)] at before
    have move : Quiet unit p _ := .freeze p price live
    rw [owedTotal (quietFlat move (sound.flat live))]
    exact before

omit [Fintype ι] in
theorem quietFrozen {unit : Int} {p q : Pool ι} (move : Quiet unit p q) (live : q.frozen = false) :
    p.frozen = false := by
  cases move with
  | freeze => cases live
  | _ => exact live

theorem stepSound {unit : Int} (positive : 0 ≤ unit) {p q : Pool ι} (step : Step unit p q)
    (sound : Sound unit p) : Sound unit q := by
  cases step with
  | quiet move =>
    exact ⟨quietSolvent positive move sound,
      fun live => quietFlat move (sound.flat (quietFrozen move live))⟩
  | payOut a paid rest frozen settled bounded =>
    refine ⟨?_,fun live => by rw [frozen] at live; cases live⟩
    have before := sound.solvent
    rw [sumAt (f := p.owed unit) a fun b away => by
      simp only [owed, Function.update_of_ne away]]
    simp only [owed, Function.update_self] at *
    linarith

theorem runSound {unit : Int} (positive : 0 ≤ unit) {p q : Pool ι}
    (run : Relation.ReflTransGen (Step unit) p q) (sound : Sound unit p) : Sound unit q := by
  induction run with
  | refl => exact sound
  | tail _ step ih => exact stepSound positive step ih

theorem runFlat {unit : Int} {p q : Pool ι} (run : Relation.ReflTransGen (Quiet unit) p q)
    (flat : p.Flat) : q.Flat := by
  induction run with
  | refl => exact flat
  | tail _ move ih => exact quietFlat move ih

omit [DecidableEq ι] in
theorem soundMore {unit : Int} (positive : 0 ≤ unit) {p : Pool ι} {reserve : Int}
    (sound : Sound unit p) (more : p.reserve ≤ reserve) : Sound unit { p with reserve := reserve } :=
  ⟨sound.solvent.trans (Int.mul_le_mul_of_nonneg_left more positive),sound.flat⟩

end Pool
end FundingPool
