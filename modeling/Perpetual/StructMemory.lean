import Mathlib.Data.List.Forall2
import Mathlib.Data.List.Nodup

/-! Memory that holds structs by reference. Assigning a variable copies the reference, an update
in place is seen through every copy of it, and only an allocation makes a new struct. -/

structure StructMemory (α : Type) where
  cells : List α

namespace StructMemory
variable {α : Type}

abbrev Ref := Nat

def empty : StructMemory α := ⟨[]⟩

def read (m : StructMemory α) (r : Ref) : Option α := m.cells[r]?

def alloc (m : StructMemory α) (a : α) : Ref × StructMemory α := (m.cells.length,⟨m.cells ++ [a]⟩)

def write (m : StructMemory α) (r : Ref) (a : α) : StructMemory α := ⟨m.cells.set r a⟩

section
variable {m : StructMemory α} {r s : Ref} {a b : α}

@[simp] theorem readAlloc : (m.alloc a).2.read (m.alloc a).1 = some a := by
  simp [read, alloc]

theorem readOlder (held : m.read r = some b) : (m.alloc a).2.read r = some b := by
  have inside := (List.getElem?_eq_some_iff.mp held).1
  rw [← held]
  exact List.getElem?_append_left inside

theorem allocFresh (held : m.read r = some b) : r ≠ (m.alloc a).1 :=
  Nat.ne_of_lt (List.getElem?_eq_some_iff.mp held).1

theorem readWrite (held : m.read r = some b) : (m.write r a).read r = some a :=
  List.getElem?_set_self (List.getElem?_eq_some_iff.mp held).1

theorem readOther (apart : r ≠ s) : (m.write r a).read s = m.read s :=
  List.getElem?_set_ne apart

@[simp] theorem writeTwice : (m.write r a).write r b = m.write r b := by
  simp [write]

@[simp] theorem writeAlloc : (m.alloc a).2.write (m.alloc a).1 b = (m.alloc b).2 := by
  simp [write, alloc]

end

def Holds (m : StructMemory α) (refs : List Ref) (values : List α) : Prop :=
  List.Forall₂ (fun r a => m.read r = some a) refs values

namespace Holds
variable {m : StructMemory α} {refs : List Ref} {values : List α}

theorem imp {m' : StructMemory α} (holds : m.Holds refs values)
    (kept : ∀ r ∈ refs, ∀ a, m.read r = some a → m'.read r = some a) : m'.Holds refs values := by
  induction holds with
  | nil => exact .nil
  | cons head _ ih =>
    rw [List.forall_mem_cons] at kept
    exact .cons (kept.1 _ head) (ih kept.2)

theorem alloc (holds : m.Holds refs values) (a : α) : (m.alloc a).2.Holds refs values :=
  holds.imp fun _ _ _ => readOlder

theorem writeApart (holds : m.Holds refs values) {r : Ref} (apart : r ∉ refs) (a : α) :
    (m.write r a).Holds refs values := by
  refine holds.imp fun s mem b held => ?_
  have other : r ≠ s := by
    rintro rfl
    exact apart mem
  rwa [readOther other]

theorem write (holds : m.Holds refs values) (unique : refs.Nodup) {i : Nat} {r : Ref}
    (found : refs[i]? = some r) (a : α) : (m.write r a).Holds refs (values.set i a) := by
  induction holds generalizing i with
  | nil => cases found
  | @cons first b rest bs head tail ih =>
    rw [List.nodup_cons] at unique
    cases i with
    | zero =>
      cases found
      exact .cons (readWrite head) (writeApart tail unique.1 a)
    | succ i =>
      have other : r ≠ first := fun same => unique.1 (same ▸ List.mem_of_getElem? found)
      exact .cons (by rwa [readOther other]) (ih unique.2 found)

theorem found (holds : m.Holds refs values) {i : Nat} {r : Ref} (found : refs[i]? = some r) :
    ∃ a, values[i]? = some a ∧ m.read r = some a := by
  obtain ⟨inside,rfl⟩ := List.getElem?_eq_some_iff.mp found
  have valued := List.Forall₂.length_eq holds ▸ inside
  exact ⟨values[i],List.getElem?_eq_getElem valued,List.Forall₂.get holds inside valued⟩

theorem behind (holds : m.Holds refs values) {i : Nat} {a : α} (found : values[i]? = some a) :
    ∃ r, refs[i]? = some r ∧ m.read r = some a := by
  obtain ⟨valued,rfl⟩ := List.getElem?_eq_some_iff.mp found
  have inside := (List.Forall₂.length_eq holds).symm ▸ valued
  exact ⟨refs[i],List.getElem?_eq_getElem inside,List.Forall₂.get holds inside valued⟩

theorem missing (holds : m.Holds refs values) {i : Nat} (missing : refs[i]? = none) : values[i]? = none := by
  rw [List.getElem?_eq_none_iff] at missing ⊢
  rwa [← List.Forall₂.length_eq holds]

end Holds

def allocAll (m : StructMemory α) : List α → List Ref × StructMemory α
  | [] => ([],m)
  | a::rest =>
      let (r,m) := m.alloc a
      let (refs,m) := allocAll m rest
      (r::refs,m)

theorem allocAllRead {m : StructMemory α} {r : Ref} {b : α} (held : m.read r = some b) (values : List α) :
    (m.allocAll values).2.read r = some b := by
  induction values generalizing m with
  | nil => exact held
  | cons a rest ih => exact ih (readOlder held)

theorem allocAllHolds (m : StructMemory α) (values : List α) :
    (m.allocAll values).2.Holds (m.allocAll values).1 values := by
  induction values generalizing m with
  | nil => exact .nil
  | cons a rest ih =>
    have first : (m.alloc a).2.read (m.alloc a).1 = some a := readAlloc
    exact .cons (allocAllRead first rest) (ih _)

theorem allocAllFresh {m : StructMemory α} {r : Ref} {b : α} (held : m.read r = some b) (values : List α) :
    r ∉ (m.allocAll values).1 := by
  induction values generalizing m with
  | nil => exact List.not_mem_nil
  | cons a rest ih =>
    rw [allocAll, List.mem_cons, not_or]
    exact ⟨allocFresh held,ih (readOlder held)⟩

theorem allocAllNodup (m : StructMemory α) (values : List α) : (m.allocAll values).1.Nodup := by
  induction values generalizing m with
  | nil => exact List.nodup_nil
  | cons a rest ih => exact List.nodup_cons.mpr ⟨allocAllFresh readAlloc rest,ih _⟩

end StructMemory
