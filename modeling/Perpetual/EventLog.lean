import Mathlib.Logic.Relation

/-! A state that logs what it changes, seen by an observer who reads nothing but the log. -/

structure EventLog (σ ε ν : Type) where
  log : σ → List ε
  view : σ → ν
  apply : ν → ε → ν

namespace EventLog
variable {σ ε ν : Type} (l : EventLog σ ε ν)

def replay (v : ν) (events : List ε) : ν := events.foldl l.apply v

/-- The new events turn what could be seen before into what can be seen after. -/
structure Explains (s t : σ) (new : List ε) : Prop where
  logged : l.log t = l.log s ++ new
  viewed : l.view t = l.replay (l.view s) new

def Explained (s t : σ) : Prop := ∃ new, l.Explains s t new

def ExplainedBy (kind : ε → Prop) (s t : σ) : Prop := ∃ new, l.Explains s t new ∧ ∀ e ∈ new, kind e

variable {l} {s t u : σ}

theorem Explains.trans {first last : List ε} (before : l.Explains s t first) (after : l.Explains t u last) :
    l.Explains s u (first ++ last) where
  logged := by rw [after.logged, before.logged, List.append_assoc]
  viewed := by rw [after.viewed, before.viewed, replay, replay, replay, List.foldl_append]

theorem Explains.quiet (logged : l.log t = l.log s) (viewed : l.view t = l.view s) : l.Explains s t [] where
  logged := by rw [logged, List.append_nil]
  viewed := viewed

theorem Explains.emitted {e : ε} (logged : l.log t = l.log s ++ [e]) (viewed : l.view t = l.apply (l.view s) e) :
    l.Explains s t [e] := ⟨logged,viewed⟩

namespace Explained

theorem refl (s : σ) : l.Explained s s := ⟨[],.quiet rfl rfl⟩

theorem trans (before : l.Explained s t) (after : l.Explained t u) : l.Explained s u := by
  obtain ⟨first,before⟩ := before
  obtain ⟨last,after⟩ := after
  exact ⟨_,before.trans after⟩

theorem quiet (logged : l.log t = l.log s) (viewed : l.view t = l.view s) : l.Explained s t :=
  ⟨[],.quiet logged viewed⟩

theorem emitted {e : ε} (logged : l.log t = l.log s ++ [e]) (viewed : l.view t = l.apply (l.view s) e) :
    l.Explained s t := ⟨[e],.emitted logged viewed⟩

theorem observed (h : l.Explained s t) :
    l.log s <+: l.log t ∧ l.view t = l.replay (l.view s) ((l.log t).drop (l.log s).length) := by
  obtain ⟨new,logged,viewed⟩ := h
  refine ⟨logged ▸ List.prefix_append _ _,?_⟩
  rw [logged, List.drop_left, viewed]

end Explained

namespace ExplainedBy
variable {kind : ε → Prop}

theorem refl (s : σ) : l.ExplainedBy kind s s := ⟨[],.quiet rfl rfl,List.forall_mem_nil _⟩

theorem quiet (logged : l.log t = l.log s) (viewed : l.view t = l.view s) : l.ExplainedBy kind s t :=
  ⟨[],.quiet logged viewed,List.forall_mem_nil _⟩

theorem trans (before : l.ExplainedBy kind s t) (after : l.ExplainedBy kind t u) : l.ExplainedBy kind s u := by
  obtain ⟨first,before,ofFirst⟩ := before
  obtain ⟨last,after,ofLast⟩ := after
  exact ⟨_,before.trans after,List.forall_mem_append.mpr ⟨ofFirst,ofLast⟩⟩

theorem explained (h : l.ExplainedBy kind s t) : l.Explained s t := by
  obtain ⟨new,explains,_⟩ := h
  exact ⟨new,explains⟩

end ExplainedBy

section
variable (l) (allowed : ν → ε → Prop)

/-- Each of the events is allowed by what can be seen just before it. -/
def Justifies (v : ν) : List ε → Prop
  | [] => True
  | e::rest => allowed v e ∧ Justifies (l.apply v e) rest

def Justified (s t : σ) : Prop := ∃ new, l.Explains s t new ∧ l.Justifies allowed (l.view s) new

end

section
variable {allowed : ν → ε → Prop}

theorem justifiesAppend {v : ν} {first last : List ε} : l.Justifies allowed v (first ++ last) ↔
    l.Justifies allowed v first ∧ l.Justifies allowed (l.replay v first) last := by
  induction first generalizing v with
  | nil => exact ⟨fun h => ⟨trivial,h⟩,And.right⟩
  | cons e rest ih =>
    simp only [List.cons_append, Justifies, ih, and_assoc]
    rfl

theorem justifiesAny {v : ν} {events : List ε} (always : ∀ e ∈ events, ∀ v, allowed v e) :
    l.Justifies allowed v events := by
  induction events generalizing v with
  | nil => exact trivial
  | cons e rest ih =>
    exact ⟨always e List.mem_cons_self v,ih fun e mem => always e (List.mem_cons_of_mem _ mem)⟩

theorem justifiesEach {v : ν} {before after : List ε} {e : ε}
    (h : l.Justifies allowed v (before ++ e::after)) : allowed (l.replay v before) e := (justifiesAppend.mp h).2.1

namespace Justified

theorem quiet (logged : l.log t = l.log s) (viewed : l.view t = l.view s) : l.Justified allowed s t :=
  ⟨[],.quiet logged viewed,trivial⟩

theorem emitted {e : ε} (logged : l.log t = l.log s ++ [e]) (viewed : l.view t = l.apply (l.view s) e)
    (just : allowed (l.view s) e) : l.Justified allowed s t := ⟨[e],.emitted logged viewed,just,trivial⟩

theorem trans (before : l.Justified allowed s t) (after : l.Justified allowed t u) : l.Justified allowed s u := by
  obtain ⟨first,explains,ofFirst⟩ := before
  obtain ⟨last,explained,ofLast⟩ := after
  rw [explains.viewed] at ofLast
  exact ⟨first ++ last,explains.trans explained,justifiesAppend.mpr ⟨ofFirst,ofLast⟩⟩

theorem explained (h : l.Justified allowed s t) : l.Explained s t := by
  obtain ⟨new,explains,_⟩ := h
  exact ⟨new,explains⟩

end Justified

theorem Explained.justified (h : l.Explained s t)
    (always : ∀ new, l.log t = l.log s ++ new → ∀ e ∈ new, ∀ v, allowed v e) : l.Justified allowed s t := by
  obtain ⟨new,explains⟩ := h
  exact ⟨new,explains,justifiesAny (always new explains.logged)⟩

end

theorem runDoes {R step : σ → σ → Prop} {I : σ → Prop} (refl : ∀ s, R s s)
    (trans : ∀ {s t u}, R s t → R t u → R s u) (one : ∀ {s t}, I s → step s t → R s t ∧ I t)
    (start : I s) (steps : Relation.ReflTransGen step s t) : R s t ∧ I t := by
  induction steps with
  | refl => exact ⟨refl s,start⟩
  | tail _ last ih =>
    obtain ⟨earlier,still⟩ := ih
    obtain ⟨step,after⟩ := one still last
    exact ⟨trans earlier step,after⟩

theorem replayLate {e : ε} {events : List ε} (v : ν)
    (commute : ∀ v, ∀ e' ∈ events, l.apply (l.apply v e') e = l.apply (l.apply v e) e') :
    l.apply (l.replay v events) e = l.replay (l.apply v e) events := by
  induction events generalizing v with
  | nil => rfl
  | cons first rest ih =>
    have later := ih (l.apply v first) fun v e' mem => commute v e' (List.mem_cons_of_mem _ mem)
    rw [commute v first List.mem_cons_self] at later
    exact later

theorem ExplainedBy.late {kind : ε → Prop} {e : ε} {s' t' : σ} (between : l.ExplainedBy kind s' t)
    (commute : ∀ v e', kind e' → l.apply (l.apply v e') e = l.apply (l.apply v e) e')
    (silent : l.log s' = l.log s) (written : l.view s' = l.apply (l.view s) e)
    (logged : l.log t' = l.log t ++ [e]) (kept : l.view t' = l.view t) : l.Explained s t' := by
  obtain ⟨new,explains,ofKind⟩ := between
  refine ⟨new ++ [e],?_,?_⟩
  · rw [logged, explains.logged, silent, List.append_assoc]
  · have swapped := replayLate (l.view s) fun v e' mem => commute v e' (ofKind e' mem)
    rw [kept, explains.viewed, written, ← swapped, replay, replay, List.foldl_append]
    rfl

end EventLog
