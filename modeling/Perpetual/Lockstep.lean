import Mathlib.Data.List.Basic

/-! Two computations that may fail, in step: both fail alike, or both give results that
are related. -/

inductive Lockstep {ε α β : Type} (R : α → β → Prop) : Except ε α → Except ε β → Prop where
  | ok {a : α} {b : β} (related : R a b) : Lockstep R (.ok a) (.ok b)
  | error (e : ε) : Lockstep R (.error e) (.error e)

namespace Lockstep
variable {ε α β γ δ ι : Type} {R : α → β → Prop} {S : γ → δ → Prop}

theorem same (x : Except ε α) : Lockstep (· = ·) x x := by
  cases x with
  | error e => exact .error e
  | ok a => exact .ok rfl

theorem mono {R' : α → β → Prop} {x : Except ε α} {y : Except ε β} (h : Lockstep R x y)
    (weaker : ∀ a b, R a b → R' a b) : Lockstep R' x y := by
  cases h with
  | ok related => exact .ok (weaker _ _ related)
  | error e => exact .error e

theorem bind {x : Except ε α} {y : Except ε β} {f : α → Except ε γ} {g : β → Except ε δ}
    (first : Lockstep R x y) (next : ∀ a b, R a b → Lockstep S (f a) (g b)) :
    Lockstep S (x >>= f) (y >>= g) := by
  cases first with
  | ok related => exact next _ _ related
  | error e => exact .error e

theorem bindSame (x : Except ε α) {f : α → Except ε γ} {g : α → Except ε δ}
    (next : ∀ a, x = .ok a → Lockstep S (f a) (g a)) : Lockstep S (x >>= f) (x >>= g) := by
  cases x with
  | error e => exact .error e
  | ok a => exact next a rfl

theorem reshape {S : α → δ → Prop} {x : Except ε α} {y : Except ε β} {h : β → δ} (first : Lockstep R x y)
    (related : ∀ a b, R a b → S a (h b)) : Lockstep S x (y >>= fun b => pure (h b)) := by
  cases first with
  | ok same => exact .ok (related _ _ same)
  | error e => exact .error e

theorem foldlM {f : α → ι → Except ε α} {g : β → ι → Except ε β}
    (step : ∀ a b i, R a b → Lockstep R (f a i) (g b i)) (l : List ι) {a : α} {b : β} (start : R a b) :
    Lockstep R (l.foldlM f a) (l.foldlM g b) := by
  induction l generalizing a b with
  | nil => exact .ok start
  | cons i rest ih =>
    rw [List.foldlM_cons, List.foldlM_cons]
    exact (step a b i start).bind fun a b related => ih related

theorem succeeds {x : Except ε α} {y : Except ε β} (h : Lockstep R x y) {a : α} (ok : x = .ok a) :
    ∃ b, y = .ok b ∧ R a b := by
  cases h with
  | ok related =>
    cases ok
    exact ⟨_,rfl,related⟩
  | error e => cases ok

theorem eq {x y : Except ε α} (h : Lockstep (· = ·) x y) : x = y := by
  cases h with
  | ok related => rw [related]
  | error e => rfl

end Lockstep
