import Mathlib.Data.List.Forall2

/-! Calls that either finish with a value or revert with a reason. A revert
carries no state: whatever the call wrote is dropped with it. -/
namespace Perpetual

abbrev Checked (α : Type) := Except String α

namespace Checked

def require (must : Prop) [Decidable must] (reason : String) : Checked Unit :=
  if must then .ok () else .error reason

/-- Array access: an index out of range is the invalid opcode. -/
def at? {α : Type} (values : List α) (index : Nat) : Checked α :=
  match values[index]? with
  | some value => .ok value
  | none => .error "invalid opcode"

variable {α β : Type}

theorem bindOk {x : Checked α} {f : α → Checked β} {b : β} :
    (x >>= f) = .ok b ↔ ∃ a, x = .ok a ∧ f a = .ok b := by
  cases x <;> simp [bind, Except.bind]

@[simp] theorem pureOk {a b : α} : (pure a : Checked α) = .ok b ↔ a = b := by
  simp [pure, Except.pure]

@[simp] theorem requireOk {must : Prop} [Decidable must] {reason : String} {u : Unit} :
    require must reason = .ok u ↔ must := by
  by_cases h : must <;> simp [require, h]

@[simp] theorem atOk {values : List α} {index : Nat} {value : α} :
    at? values index = .ok value ↔ values[index]? = some value := by
  unfold at?
  cases values[index]? <;> simp

theorem okBind (a : α) (f : α → Checked β) : (Except.ok a >>= f) = f a := rfl

theorem okExists {x : Checked α} (ok : x.isOk = true) : ∃ a, x = .ok a := by
  cases x with
  | error reason => cases ok
  | ok a => exact ⟨a,rfl⟩

theorem requireThen {must : Prop} [Decidable must] {reason : String} {f : Unit → Checked β}
    (h : must) : (require must reason >>= f) = f () := by
  simp [require, h, bind, Except.bind]

theorem bindCongr {x : Checked α} {f g : α → Checked β} (same : ∀ a, x = .ok a → f a = g a) :
    (x >>= f) = (x >>= g) := by
  cases x with
  | error reason => rfl
  | ok a => exact same a rfl

def FailsOnly (reasons : List String) (x : Checked α) : Prop := ∀ reason, x = .error reason → reason ∈ reasons

namespace FailsOnly
variable {reasons : List String}

theorem ok (a : α) : FailsOnly reasons (.ok a) := by
  intro reason failed
  cases failed

theorem require {must : Prop} [Decidable must] {reason : String} (h : must) :
    FailsOnly reasons (require must reason) := by
  rw [Checked.require, if_pos h]
  exact .ok ()

theorem bind {x : Checked α} {f : α → Checked β} (first : FailsOnly reasons x)
    (next : ∀ a, x = .ok a → FailsOnly reasons (f a)) : FailsOnly reasons (x >>= f) := by
  cases x with
  | error reason =>
    intro other failed
    cases failed
    exact first reason rfl
  | ok a => exact next a rfl

theorem succeeds {x : Checked α} (only : FailsOnly reasons x)
    (none : ∀ reason, x = .error reason → reason ∉ reasons) : ∃ a, x = .ok a := by
  cases x with
  | error reason => exact absurd (only reason rfl) (none reason rfl)
  | ok a => exact ⟨a,rfl⟩

end FailsOnly

/- A checked loop over a list: what every pass keeps, the whole loop keeps. -/
theorem loopKeeps {f : β → α → Checked β} {P : β → Prop} {l : List α}
    (pass : ∀ b a b', a ∈ l → P b → f b a = .ok b' → P b') {b b' : β}
    (ok : l.foldlM f b = .ok b') (start : P b) : P b' := by
  induction l generalizing b with
  | nil =>
    have same : b = b' := by simpa using ok
    exact same ▸ start
  | cons a rest ih =>
    simp only [List.foldlM_cons, bindOk] at ok
    obtain ⟨mid, first, last⟩ := ok
    exact ih (fun b a b' mem => pass b a b' (List.mem_cons_of_mem _ mem)) last
      (pass b a mid List.mem_cons_self start first)

theorem mapMOk {f : α → Checked β} {values : List α} {results : List β} :
    values.mapM f = .ok results ↔ List.Forall₂ (fun a b => f a = .ok b) values results := by
  induction values generalizing results with
  | nil =>
    rw [List.mapM_nil, pureOk, List.forall₂_nil_left_iff, eq_comm]
  | cons a rest ih =>
    rw [List.mapM_cons, List.forall₂_cons_left_iff]
    simp only [bindOk, pureOk, ih]
    constructor
    · rintro ⟨b,first,others,later,rfl⟩
      exact ⟨b,others,first,later,rfl⟩
    · rintro ⟨b,others,first,later,rfl⟩
      exact ⟨b,first,others,later,rfl⟩

theorem loopCongr {f g : β → α → Checked β} {P : β → Prop} {l : List α}
    (pass : ∀ b a b', P b → f b a = .ok b' → P b') (same : ∀ b a, P b → g b a = f b a)
    {b : β} (start : P b) : l.foldlM g b = l.foldlM f b := by
  induction l generalizing b with
  | nil => rfl
  | cons a rest ih =>
    rw [List.foldlM_cons, List.foldlM_cons, same b a start]
    exact bindCongr fun mid first => ih (pass b a mid start first)

end Checked
end Perpetual
