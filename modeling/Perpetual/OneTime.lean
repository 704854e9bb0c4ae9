import Mathlib.Data.Set.Insert

/-! Keys that can be spent once. Some events spend their key, and some of these happen only
while it is unspent. -/
namespace OneTime
variable {ε κ : Type*} {key : ε → κ} {spends needs : ε → Prop} {k : κ} {e : ε} {spent : Set κ}
  {events : List ε}

def after (key : ε → κ) (spends : ε → Prop) (spent : Set κ) (e : ε) : Set κ :=
  spent ∪ {k | spends e ∧ key e = k}

/-- Each event that needs its key unspent finds it so. -/
def Orderly (key : ε → κ) (spends needs : ε → Prop) : Set κ → List ε → Prop
  | _,[] => True
  | spent,e::rest => (needs e → key e ∉ spent) ∧ Orderly key spends needs (after key spends spent e) rest

theorem mem_foldl_after : k ∈ events.foldl (after key spends) spent ↔
    k ∈ spent ∨ ∃ e ∈ events, spends e ∧ key e = k := by
  induction events generalizing spent with
  | nil => simp
  | cons e rest ih =>
    rw [List.foldl_cons, ih, after, Set.mem_union, Set.mem_ofPred_eq, or_assoc]
    simp only [List.mem_cons, or_and_right, exists_or, exists_eq_left]

theorem Orderly.append {first last : List ε} (a : Orderly key spends needs spent first)
    (b : Orderly key spends needs (first.foldl (after key spends) spent) last) :
    Orderly key spends needs spent (first ++ last) := by
  induction first generalizing spent with
  | nil => exact b
  | cons e rest ih => exact ⟨a.1,ih a.2 b⟩

theorem Orderly.tail {first last : List ε} (h : Orderly key spends needs spent (first ++ last)) :
    Orderly key spends needs (first.foldl (after key spends) spent) last := by
  induction first generalizing spent with
  | nil => exact h
  | cons e rest ih => exact ih h.2

theorem Orderly.spentOut (h : Orderly key spends needs spent events) (out : k ∈ spent) :
    ∀ e ∈ events, needs e → key e ≠ k := by
  induction events generalizing spent with
  | nil => simp
  | cons e rest ih =>
    refine List.forall_mem_cons.mpr ⟨fun need same => h.1 need (same ▸ out),?_⟩
    exact ih h.2 (Set.mem_union_left _ out)

theorem Orderly.noneLater {first last : List ε} (h : Orderly key spends needs spent (first ++ e::last))
    (spend : spends e) : ∀ e' ∈ last, needs e' → key e' ≠ key e :=
  h.tail.2.spentOut (Set.mem_union_right _ ⟨spend,rfl⟩)

theorem Orderly.atMostOnce [DecidablePred needs] [DecidableEq κ] (spending : ∀ e, needs e → spends e)
    (h : Orderly key spends needs spent events) (k : κ) :
    events.countP (fun e => decide (needs e ∧ key e = k)) ≤ 1 := by
  induction events generalizing spent with
  | nil => exact Nat.zero_le _
  | cons e rest ih =>
    rw [List.countP_cons]
    split
    · rename_i here
      obtain ⟨need,same⟩ := of_decide_eq_true here
      have none : rest.countP (fun e => decide (needs e ∧ key e = k)) = 0 := by
        refine List.countP_eq_zero.mpr fun e' mem both => ?_
        obtain ⟨need',same'⟩ := of_decide_eq_true both
        have spentNow : k ∈ after key spends spent e := Set.mem_union_right _ ⟨spending e need,same⟩
        exact h.2.spentOut spentNow e' mem need' same'
      omega
    · exact ih h.2

end OneTime
