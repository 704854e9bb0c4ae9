import Perpetual.Subscribers

/-! The heartbeats of `WebsocketService`: which connections `_cleanupConnections` ends. -/
namespace Perpetual

structure Heartbeats (ι : Type) where
  service : WebsocketService ι
  isAlive : ι → Bool
  pings : List ι

inductive Beat (ι : Type) where
  | client (action : ClientAction ι)
  | cleanup
  | pong (ws : ι)

namespace Heartbeats
open WebsocketService Subscribers
variable {ι : Type}

def start : Heartbeats ι := ⟨.start,fun _ => false,[]⟩

section
variable [DecidableEq ι]

def check (s : Heartbeats ι) (ws : ι) : Heartbeats ι :=
  if s.isAlive ws then { s with isAlive := Function.update s.isAlive ws false, pings := s.pings ++ [ws] }
  else { s with service := terminate ws s.service }

def cleanupConnections (s : Heartbeats ι) : Heartbeats ι := s.service.clients.foldl check s

def step (s : Heartbeats ι) : Beat ι → Option (Heartbeats ι)
  | .client action => do
      let service ← s.service.step action
      match action with
      | .connection ws => some { s with service := service, isAlive := Function.update s.isAlive ws true }
      | _ => some { s with service := service }
  | .cleanup => some (cleanupConnections s)
  | .pong ws =>
      if s.service.readyState ws = .OPEN ∨ s.service.readyState ws = .CLOSING then
        some { s with isAlive := Function.update s.isAlive ws true }
      else none

def isApart (lower : String → String) (s : Heartbeats ι) : Beat ι → Bool
  | .client action => WebsocketService.isApart lower s.service action
  | _ => true

def anyBeat : Heartbeats ι → Beat ι → Bool := fun _ _ => true

inductive Run (allowed : Heartbeats ι → Beat ι → Bool) : List (Beat ι) → Heartbeats ι → Prop where
  | start : Run allowed [] start
  | more {past : List (Beat ι)} {s s' : Heartbeats ι} (before : Run allowed past s) (beat : Beat ι)
      (may : allowed s beat = true) (next : s.step beat = some s') : Run allowed (beat::past) s'

end

/-- There was a tick since the client connected, and no pong of it since that tick. -/
def Silent (ws : ι) (past : List (Beat ι)) : Prop :=
  ∃ since before, past = since ++ .cleanup::before ∧ .client (.connection ws) ∈ before ∧ .pong ws ∉ since

theorem silentCons {ws : ι} {beat : Beat ι} {past : List (Beat ι)} : Silent ws (beat::past) ↔
    beat = .cleanup ∧ .client (.connection ws) ∈ past ∨ beat ≠ .pong ws ∧ Silent ws past := by
  constructor
  · rintro ⟨since,before,same,connected,quiet⟩
    cases since with
    | nil =>
      obtain ⟨rfl,rfl⟩ := List.cons.inj same
      exact .inl ⟨rfl,connected⟩
    | cons last since =>
      obtain ⟨rfl,rfl⟩ := List.cons.inj same
      exact .inr ⟨fun pong => quiet (pong ▸ List.mem_cons_self),since,before,rfl,connected,
        fun mem => quiet (List.mem_cons_of_mem _ mem)⟩
  · rintro (⟨rfl,connected⟩ | ⟨other,since,before,rfl,connected,quiet⟩)
    · exact ⟨[],past,rfl,connected,List.not_mem_nil⟩
    · exact ⟨beat::since,before,rfl,connected,List.not_mem_cons_of_ne_of_not_mem other.symm quiet⟩

theorem Attached.connected {service : WebsocketService ι} {ws : ι} (attached : Attached service ws) :
    service.readyState ws ≠ .CONNECTING := by
  intro fresh
  rw [Attached, fresh] at attached
  exact attached.elim (by simp) (by simp)

section
variable [DecidableEq ι] {lower : String → String} {s s' : Heartbeats ι}

theorem checkOther {ws other : ι} (away : other ≠ ws) (s : Heartbeats ι) :
    (s.check ws).isAlive other = s.isAlive other ∧
      (s.check ws).service.readyState other = s.service.readyState other := by
  unfold check
  split
  · exact ⟨Function.update_of_ne away _ _,rfl⟩
  · exact ⟨rfl,Function.update_of_ne away _ _⟩

theorem checksOther {list : List ι} {other : ι} (away : other ∉ list) (s : Heartbeats ι) :
    (list.foldl check s).isAlive other = s.isAlive other ∧
      (list.foldl check s).service.readyState other = s.service.readyState other := by
  induction list generalizing s with
  | nil => exact ⟨rfl,rfl⟩
  | cons ws rest ih =>
    obtain ⟨first,later⟩ := not_or.mp (mt List.mem_cons.mpr away)
    obtain ⟨alive,ready⟩ := ih later (s.check ws)
    obtain ⟨alive',ready'⟩ := checkOther first s
    exact ⟨alive.trans alive',ready.trans ready'⟩

theorem checksHere {list : List ι} (unique : list.Nodup) {ws : ι} (mem : ws ∈ list) (s : Heartbeats ι) :
    (list.foldl check s).isAlive ws = false ∧ (list.foldl check s).service.readyState ws =
      if s.isAlive ws then s.service.readyState ws else .CLOSING := by
  induction list generalizing s with
  | nil => cases mem
  | cons first rest ih =>
    obtain ⟨fresh,unique⟩ := List.nodup_cons.mp unique
    by_cases here : ws = first
    · subst here
      obtain ⟨alive,ready⟩ := checksOther fresh (s.check ws)
      rw [List.foldl_cons, alive, ready]
      unfold check
      split
      · exact ⟨Function.update_self _ _ _,rfl⟩
      · rename_i dead
        exact ⟨Bool.eq_false_of_not_eq_true dead,Function.update_self _ _ _⟩
    · obtain ⟨alive,ready⟩ := checkOther here s
      have rest := ih unique ((List.mem_cons.mp mem).resolve_left here) (s.check first)
      rw [alive, ready] at rest
      exact rest

theorem checksSame {β : Type} (read : WebsocketService ι → β) (ended : ∀ ws s, read (terminate ws s) = read s)
    (list : List ι) (s : Heartbeats ι) : read (list.foldl check s).service = read s.service := by
  induction list generalizing s with
  | nil => rfl
  | cons ws rest ih =>
    refine (ih (s.check ws)).trans ?_
    unfold check
    split
    · rfl
    · exact ended ws s.service

theorem cleanupAttached (unique : s.service.clients.Nodup)
    (clients : ∀ ws, ws ∈ s.service.clients ↔ Attached s.service ws) (ws : ι) :
    Attached (cleanupConnections s).service ws ↔ Attached s.service ws := by
  by_cases mem : ws ∈ s.service.clients
  · have attached := (clients ws).mp mem
    refine ⟨fun _ => attached,fun _ => ?_⟩
    rw [Attached, cleanupConnections, (checksHere unique mem s).2]
    split
    · exact attached
    · exact .inr rfl
  · rw [Attached, cleanupConnections, (checksOther mem s).2]
    exact Iff.rfl

theorem checkRuns {t : Subscribers ι} {ws : ι} (run : WebsocketService.Run lower s.service t)
    (attached : Attached s.service ws) : ∃ t, WebsocketService.Run lower (s.check ws).service t := by
  unfold check
  split
  · exact ⟨t,run⟩
  · rcases attached with isOpen | closing
    · exact ⟨_,run.more (.ending ws) rfl (if_pos isOpen)⟩
    · have same : terminate ws s.service = s.service := by
        rw [terminate, ← closing, Function.update_eq_self]
      exact ⟨t,same.symm ▸ run⟩

theorem checksRun {t : Subscribers ι} {list : List ι} (run : WebsocketService.Run lower s.service t)
    (attached : ∀ ws ∈ list, Attached s.service ws) :
    ∃ t, WebsocketService.Run lower (list.foldl check s).service t := by
  induction list generalizing s t with
  | nil => exact ⟨t,run⟩
  | cons first rest ih =>
    obtain ⟨now,later⟩ := List.forall_mem_cons.mp attached
    obtain ⟨_,run⟩ := checkRuns run now
    refine ih run fun ws mem => ?_
    by_cases here : ws = first
    · subst here
      unfold check
      split
      · exact now
      · exact .inr (Function.update_self _ _ _)
    · rw [Attached, (checkOther here s).2]
      exact later ws mem

structure Kept (past : List (Beat ι)) (s : Heartbeats ι) : Prop where
  unique : s.service.clients.Nodup
  clients : ∀ ws, ws ∈ s.service.clients ↔ Attached s.service ws
  connected : ∀ ws, .client (.connection ws) ∈ past ↔ s.service.readyState ws ≠ .CONNECTING
  silent : ∀ ws, Attached s.service ws → (s.isAlive ws = false ↔ Silent ws past)

namespace Kept
variable {past : List (Beat ι)}

theorem cleanup (kept : Kept past s) : Kept (.cleanup::past) (cleanupConnections s) where
  unique := by
    rw [cleanupConnections, checksSame (fun service => service.clients) fun _ _ => rfl]
    exact kept.unique
  clients ws := by
    rw [cleanupAttached kept.unique kept.clients, cleanupConnections,
      checksSame (fun service => service.clients) fun _ _ => rfl]
    exact kept.clients ws
  connected ws := by
    rw [List.mem_cons, or_iff_right (by simp), kept.connected, cleanupConnections]
    by_cases mem : ws ∈ s.service.clients
    · rw [(checksHere kept.unique mem s).2]
      have connected := Attached.connected ((kept.clients ws).mp mem)
      split
      · exact Iff.rfl
      · exact ⟨by simp,fun _ => connected⟩
    · rw [(checksOther mem s).2]
  silent ws attached := by
    rw [cleanupAttached kept.unique kept.clients] at attached
    have mem := (kept.clients ws).mpr attached
    rw [silentCons, cleanupConnections, (checksHere kept.unique mem s).1]
    exact ⟨fun _ => .inl ⟨rfl,(kept.connected ws).mpr (Attached.connected attached)⟩,fun _ => rfl⟩

theorem pong {ws : ι} (kept : Kept past s) (attached : Attached s.service ws) :
    Kept (.pong ws::past) { s with isAlive := Function.update s.isAlive ws true } where
  unique := kept.unique
  clients := kept.clients
  connected other := by
    rw [List.mem_cons, or_iff_right (by simp)]
    exact kept.connected other
  silent other attached := by
    rw [silentCons, or_iff_right (fun tick => by cases tick.1)]
    dsimp only at attached ⊢
    by_cases here : other = ws
    · subst here
      rw [Function.update_self]
      exact ⟨by simp,fun silent => absurd rfl silent.1⟩
    · rw [Function.update_of_ne here, kept.silent other attached]
      exact ⟨fun silent => ⟨fun same => here (Beat.pong.inj same).symm,silent⟩,And.right⟩

omit [DecidableEq ι] in
theorem fewer {service : WebsocketService ι} {action : ClientAction ι} (kept : Kept past s)
    (unique : service.clients.Nodup) (clients : ∀ ws, ws ∈ service.clients ↔ Attached service ws)
    (attached : ∀ ws, Attached service ws → Attached s.service ws)
    (connected : ∀ ws, service.readyState ws = .CONNECTING ↔ s.service.readyState ws = .CONNECTING)
    (old : ∀ ws, action ≠ .connection ws) : Kept (.client action::past) { s with service := service } where
  unique := unique
  clients := clients
  connected ws := by
    rw [List.mem_cons, or_iff_right fun same => old ws (Beat.client.inj same).symm, kept.connected]
    exact not_congr (connected ws).symm
  silent ws here := by
    rw [silentCons, or_iff_right (fun tick => by cases tick.1), kept.silent ws (attached ws here)]
    exact ⟨fun silent => ⟨by simp,silent⟩,And.right⟩

omit [DecidableEq ι] in
theorem closing {service : WebsocketService ι} {action : ClientAction ι} (kept : Kept past s)
    (clients : service.clients = s.service.clients)
    (ready : ∀ ws, service.readyState ws = s.service.readyState ws ∨
      Attached s.service ws ∧ service.readyState ws = .CLOSING)
    (old : ∀ ws, action ≠ .connection ws) : Kept (.client action::past) { s with service := service } := by
  have attached (ws : ι) : Attached service ws ↔ Attached s.service ws := by
    rcases ready ws with same | ⟨attached,closing⟩
    · rw [Attached, same]
      exact Iff.rfl
    · exact ⟨fun _ => attached,fun _ => .inr closing⟩
  refine kept.fewer (clients ▸ kept.unique) (fun ws => ?_) (fun ws => (attached ws).mp) (fun ws => ?_) old
  · rw [clients, attached]
    exact kept.clients ws
  · rcases ready ws with same | ⟨attached,closing⟩
    · rw [same]
    · rw [closing]
      exact ⟨by simp,fun fresh => absurd fresh (Attached.connected attached)⟩

theorem terminated {service : WebsocketService ι} (same : service.readyState = s.service.readyState) {ws : ι}
    (attached : Attached s.service ws) (other : ι) :
    (terminate ws service).readyState other = s.service.readyState other ∨
      Attached s.service other ∧ (terminate ws service).readyState other = .CLOSING := by
  by_cases here : other = ws
  · subst here
    exact .inr ⟨attached,Function.update_self _ _ _⟩
  · exact .inl ((Function.update_of_ne here _ _).trans (congrFun same other))

theorem accepted {ws : ι} (kept : Kept past s) (fresh : s.service.readyState ws = .CONNECTING) :
    Kept (.client (.connection ws)::past)
      { s with service := processConnection ws s.service, isAlive := Function.update s.isAlive ws true } := by
  have opened : (processConnection ws s.service).readyState ws = .OPEN := Function.update_self _ _ _
  have ready (other : ι) (away : other ≠ ws) :
      (processConnection ws s.service).readyState other = s.service.readyState other := Function.update_of_ne away _ _
  have absent : ws ∉ s.service.clients := fun mem => Attached.connected ((kept.clients ws).mp mem) fresh
  have unseen : .client (.connection ws) ∉ past := fun mem => (kept.connected ws).mp mem fresh
  refine ⟨?_,fun other => ?_,fun other => ?_,fun other attached => ?_⟩
  · exact kept.unique.append (List.nodup_singleton ws) (List.disjoint_singleton.mpr absent)
  · change other ∈ s.service.clients ++ [ws] ↔ Attached (processConnection ws s.service) other
    rw [List.mem_append, List.mem_singleton]
    by_cases here : other = ws
    · exact ⟨fun _ => .inl (here ▸ opened),fun _ => .inr here⟩
    · rw [or_iff_left here, kept.clients, Attached, Attached, ready other here]
  · rw [List.mem_cons, kept.connected]
    by_cases here : other = ws
    · subst here
      rw [opened]
      exact ⟨fun _ => by simp,fun _ => .inl rfl⟩
    · rw [ready other here]
      exact or_iff_right fun same => here (ClientAction.connection.inj (Beat.client.inj same))
  · rw [silentCons, or_iff_right (fun tick => by cases tick.1)]
    dsimp only at attached ⊢
    by_cases here : other = ws
    · subst here
      rw [Function.update_self]
      refine ⟨by simp,?_⟩
      rintro ⟨_,since,before,rfl,connected,_⟩
      exact absurd (List.mem_append_right _ (List.mem_cons_of_mem _ connected)) unseen
    · rw [Attached, ready other here] at attached
      rw [Function.update_of_ne here, kept.silent other attached]
      exact ⟨fun silent => ⟨by simp,silent⟩,And.right⟩

theorem client {action : ClientAction ι} (kept : Kept past s) (next : s.step (.client action) = some s') :
    Kept (.client action::past) s' := by
  obtain ⟨service,stepped,made⟩ := Option.bind_eq_some_iff.mp next
  cases action with
  | connection ws =>
    obtain ⟨fresh,same⟩ := Option.ite_none_right_eq_some.mp stepped
    obtain rfl := Option.some.inj same
    obtain rfl := Option.some.inj made
    exact kept.accepted fresh
  | message ws data =>
    obtain ⟨attached,same⟩ := Option.ite_none_right_eq_some.mp stepped
    obtain rfl := Option.some.inj same
    obtain rfl := Option.some.inj made
    cases asks : request s.service.messages data with
    | ok asked =>
      refine kept.closing ?_ (fun other => .inl ?_) (by simp)
      · simp only [processMessage, asks]
      · simp only [processMessage, asks]
    | error reason =>
      refine kept.closing ?_ (fun other => ?_) (by simp)
      · simp only [processMessage, asks]
        rfl
      · simp only [processMessage, asks]
        exact terminated rfl attached other
  | ending ws =>
    obtain ⟨isOpen,same⟩ := Option.ite_none_right_eq_some.mp stepped
    obtain rfl := Option.some.inj same
    obtain rfl := Option.some.inj made
    exact kept.closing rfl (terminated rfl (.inl isOpen)) (by simp)
  | close ws =>
    obtain ⟨closing,same⟩ := Option.ite_none_right_eq_some.mp stepped
    obtain rfl := Option.some.inj same
    obtain rfl := Option.some.inj made
    have ready (other : ι) (away : other ≠ ws) :
        (closeHandler ws s.service).readyState other = s.service.readyState other := Function.update_of_ne away _ _
    have closed : (closeHandler ws s.service).readyState ws = .CLOSED := Function.update_self _ _ _
    refine kept.fewer (kept.unique.filter _) (fun other => ?_) (fun other attached => ?_) (fun other => ?_)
      (by simp)
    · change other ∈ s.service.clients.filter _ ↔ Attached (closeHandler ws s.service) other
      rw [List.mem_filter, decide_eq_true_iff, kept.clients]
      by_cases here : other = ws
      · refine ⟨fun mem => absurd here mem.2,fun attached => ?_⟩
        rw [here, Attached, closed] at attached
        exact attached.elim (by simp) (by simp)
      · rw [Attached, Attached, ready other here, and_iff_left here]
    · by_cases here : other = ws
      · exact .inr (here ▸ closing)
      · rwa [Attached, ready other here] at attached
    · by_cases here : other = ws
      · rw [here, closed, closing]
        exact ⟨by simp,by simp⟩
      · rw [ready other here]

end Kept

theorem runKept {allowed : Heartbeats ι → Beat ι → Bool} {past : List (Beat ι)} (run : Run allowed past s) :
    Kept past s := by
  induction run with
  | start =>
    refine ⟨List.nodup_nil,fun ws => ⟨fun mem => absurd mem List.not_mem_nil,fun attached => ?_⟩,
      fun ws => ⟨by simp,fun other => ?_⟩,fun ws attached => ?_⟩
    · exact absurd rfl (Attached.connected attached)
    · exact absurd rfl other
    · exact absurd rfl (Attached.connected attached)
  | @more past s s' before beat may next ih =>
    cases beat with
    | client action => exact ih.client next
    | cleanup =>
      obtain rfl := Option.some.inj next
      exact ih.cleanup
    | pong ws =>
      obtain ⟨attached,same⟩ := Option.ite_none_right_eq_some.mp next
      obtain rfl := Option.some.inj same
      exact ih.pong attached

theorem runServes {past : List (Beat ι)} (run : Run (isApart lower) past s) :
    ∃ t, WebsocketService.Run lower s.service t := by
  induction run with
  | start => exact ⟨_,.start⟩
  | @more past s s' before beat may next ih =>
    obtain ⟨t,serves⟩ := ih
    cases beat with
    | client action =>
      obtain ⟨service,stepped,made⟩ := Option.bind_eq_some_iff.mp next
      have same : s'.service = service := by
        cases action <;> exact congrArg Heartbeats.service (Option.some.inj made).symm
      exact ⟨_,same ▸ serves.more action may stepped⟩
    | cleanup =>
      obtain rfl := Option.some.inj next
      exact checksRun serves fun ws mem => ((runKept before).clients ws).mp mem
    | pong ws =>
      obtain ⟨_,same⟩ := Option.ite_none_right_eq_some.mp next
      obtain rfl := Option.some.inj same
      exact ⟨t,serves⟩

/-- At every moment of every run, a tick ends exactly those open connections that have had a tick since
they were accepted and no pong since that tick. It touches no subscription. As long as the clients have
kept apart, an event goes to each open client once for each of its subscriptions that want it. -/
theorem silentAreEnded (lower : String → String) {past : List (Beat ι)} (run : Run anyBeat past s) :
    (∀ ws, s.service.readyState ws = .OPEN →
      ((cleanupConnections s).service.readyState ws = .CLOSING ↔ Silent ws past) ∧
      ((cleanupConnections s).service.readyState ws = .OPEN ↔ ¬Silent ws past)) ∧
    (∀ ws id opts, Registered (cleanupConnections s).service ws id opts ↔ Registered s.service ws id opts) ∧
    (Run (isApart lower) past s → ∀ event, ∃ sent, emit lower event s.service = .ok sent ∧ sent.Nodup ∧
      ∀ ws id, (ws,id) ∈ sent ↔ s.service.readyState ws = .OPEN ∧
        ∃ opts, Registered s.service ws id opts ∧ Wants lower event opts) := by
  have kept := runKept run
  refine ⟨fun ws isOpen => ?_,fun ws id opts => ?_,fun apart event => ?_⟩
  · have attached : Attached s.service ws := .inl isOpen
    have mem := (kept.clients ws).mpr attached
    rw [cleanupConnections, (checksHere kept.unique mem s).2, ← kept.silent ws attached, isOpen]
    cases s.isAlive ws with
    | true => exact ⟨⟨by simp,by simp⟩,⟨fun _ => by simp,fun _ => rfl⟩⟩
    | false => exact ⟨⟨fun _ => rfl,fun _ => rfl⟩,⟨by simp,fun dead => absurd rfl dead⟩⟩
  · rw [Registered, Registered, cleanupConnections,
      checksSame (fun service => service.requestIdToSocket) fun _ _ => rfl,
      checksSame (fun service => service.requestIdToSubscriptionOpts) fun _ _ => rfl]
  · obtain ⟨t,serves⟩ := runServes apart
    have sound := soundRun serves
    obtain ⟨sent,ok,unique,goes⟩ := sound.emits event
    refine ⟨sent,ok,unique,fun ws id => (goes ws id).trans ?_⟩
    rw [sound.isOpen]
    exact and_congr_right fun _ => exists_congr fun opts => and_congr_left fun _ => (sound.registered ws id opts).symm

end

def onePong : List (Beat Nat) :=
  [.pong 0,.cleanup,.client (.connection 1),.client (.connection 0)]

theorem oneAnswers : ∃ s : Heartbeats Nat, (cleanupConnections s).service.readyState 0 = .OPEN ∧
    (cleanupConnections s).service.readyState 1 = .CLOSING ∧
    ∀ event, ∃ sent, emit id event s.service = .ok sent := by
  have run : Run anyBeat onePong _ := (((Run.start.more (.client (.connection 0)) rfl rfl).more
    (.client (.connection 1)) rfl rfl).more .cleanup rfl rfl).more (.pong 0) rfl rfl
  have apart : Run (isApart id) onePong _ := (((Run.start.more (.client (.connection 0)) rfl rfl).more
    (.client (.connection 1)) rfl rfl).more .cleanup rfl rfl).more (.pong 0) rfl rfl
  obtain ⟨ends,_,goes⟩ := silentAreEnded id run
  have silent : Silent 1 onePong := ⟨[.pong 0],_,rfl,List.mem_cons_self,by simp⟩
  have answered : ¬Silent 0 onePong := by simp [onePong, silentCons]
  refine ⟨_,(ends 0 rfl).2.mpr answered,(ends 1 rfl).1.mpr silent,fun event => ?_⟩
  obtain ⟨sent,ok,_⟩ := goes apart event
  exact ⟨sent,ok⟩

end Heartbeats
end Perpetual
