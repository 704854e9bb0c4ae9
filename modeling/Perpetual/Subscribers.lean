import Perpetual.WebsocketService

/-! What the clients of `WebsocketService` are to each other: each has its own subscriptions, and
gets what these ask for. -/
namespace Perpetual

structure Subscribers (ι : Type) where
  isOpen : ι → Bool
  subscriptions : ι → RequestId → Option SubscriptionOpts
  messages : Nat

namespace Subscribers
variable {ι : Type}

def start : Subscribers ι := ⟨fun _ => false,fun _ _ => none,0⟩

def step [DecidableEq ι] (t : Subscribers ι) : ClientAction ι → Subscribers ι
  | .connection ws => { t with isOpen := Function.update t.isOpen ws true }
  | .message ws data =>
      let t' := { t with messages := t.messages + 1 }
      match WebsocketService.request t.messages data with
      | .ok (id,opts) =>
          { t' with subscriptions :=
            Function.update t.subscriptions ws (Function.update (t.subscriptions ws) id (some opts)) }
      | .error _ => { t' with isOpen := Function.update t.isOpen ws false }
  | .ending ws => { t with isOpen := Function.update t.isOpen ws false }
  | .close ws => { t with
      isOpen := Function.update t.isOpen ws false
      subscriptions := Function.update t.subscriptions ws fun _ => none }

def Passes (lower : String → String) (filter : Option Json) (accounts : List String) : Prop :=
  Json.truthy filter = true →
    ∃ account, filter = some (.string account) ∧ lower account ∈ accounts.map lower

def channelOf : EventType → String
  | .Order => MessageChannels.Orders
  | .TradeRecord => MessageChannels.TradeHistory

structure Wants (lower : String → String) (event : Event) (opts : SubscriptionOpts) : Prop where
  channel : Json.isString (channelOf event.type) opts.channel = true
  taker : Passes lower opts.taker [event.taker]
  maker : Passes lower opts.maker [event.maker]
  trader : Passes lower opts.trader [event.maker,event.taker]

end Subscribers

def SubscriptionOpts.delivers (opts : SubscriptionOpts) : Bool :=
  [EventType.Order,EventType.TradeRecord].any fun type =>
    Json.isString (Subscribers.channelOf type) opts.channel

namespace WebsocketService
open Subscribers
variable {ι : Type}

def isPlain (filter : Option Json) : Bool :=
  match filter with
  | some (.string _) => true
  | filter => !Json.truthy filter

def isOrdinary : RequestId → Bool
  | .string name => name ∉ inheritedNames
  | _ => false

section
variable (lower : String → String)

def letsNothingPass (opts : SubscriptionOpts) : Bool :=
  match opts.taker,opts.maker,opts.trader with
  | some (.string taker),some (.string maker),some (.string trader) =>
      taker ≠ "" && maker ≠ "" && trader ≠ "" && lower trader ≠ lower maker && lower trader ≠ lower taker
  | _,_,_ => false

/-- What can be delivered: with filters that are text, under a name that objects do not inherit unless
no event passes the filters. -/
def isDeliverable (id : RequestId) (opts : SubscriptionOpts) : Bool :=
  (isOrdinary id || letsNothingPass lower opts) && isPlain opts.taker && isPlain opts.maker &&
    isPlain opts.trader

end

section
variable {lower : String → String} {event : Event} {opts : SubscriptionOpts}

theorem passesString {account : String} {accounts : List String} (asked : account ≠ "")
    (passes : Passes lower (some (.string account)) accounts) : lower account ∈ accounts.map lower := by
  obtain ⟨account',same,mem⟩ := passes (decide_eq_true asked)
  cases same
  exact mem

theorem nothingWanted (nothing : letsNothingPass lower opts = true) : ¬Wants lower event opts := by
  rintro ⟨_,takerPasses,makerPasses,traderPasses⟩
  unfold letsNothingPass at nothing
  split at nothing
  · rename_i taker maker trader isTaker isMaker isTrader
    simp only [Bool.and_eq_true, decide_eq_true_eq] at nothing
    obtain ⟨⟨⟨⟨takerAsked,makerAsked⟩,traderAsked⟩,notMaker⟩,notTaker⟩ := nothing
    rw [isTaker] at takerPasses
    rw [isMaker] at makerPasses
    rw [isTrader] at traderPasses
    have same₁ : lower taker = lower event.taker := List.mem_singleton.mp (passesString takerAsked takerPasses)
    have same₂ : lower maker = lower event.maker := List.mem_singleton.mp (passesString makerAsked makerPasses)
    rcases List.mem_cons.mp (passesString traderAsked traderPasses) with same | same
    · exact notMaker (same.trans same₂.symm)
    · exact notTaker ((List.mem_singleton.mp same).trans same₁.symm)
  · cases nothing

theorem excludesPlain {name : String} {filter : Option Json} (plain : isPlain filter = true) (accounts : List String) :
    ∃ b, excludes lower name filter accounts = .ok b ∧ (b = false ↔ Passes lower filter accounts) := by
  unfold excludes Passes
  by_cases asked : Json.truthy filter = true
  · rw [if_pos asked]
    unfold isPlain at plain
    split at plain
    · rename_i account
      refine ⟨_,rfl,?_⟩
      rw [decide_eq_false_iff_not, not_not]
      constructor
      · exact fun mem _ => ⟨account,rfl,mem⟩
      · intro passes
        obtain ⟨account',same,mem⟩ := passes asked
        cases same
        exact mem
    · rw [asked] at plain
      cases plain
  · rw [if_neg asked]
    exact ⟨false,rfl,⟨fun _ asked' => absurd asked' asked,fun _ => rfl⟩⟩

theorem channelDelivers {type : EventType} (channel : Json.isString (channelOf type) opts.channel = true) :
    opts.delivers = true :=
  List.any_eq_true.mpr ⟨type,by cases type <;> decide,channel⟩

theorem matchesWants {id : RequestId}
    (deliverable : opts.delivers = true → isDeliverable lower id opts = true) :
    ∃ b, matchesSubscription lower (channelOf event.type) event opts = .ok b ∧
      (b = true ↔ Wants lower event opts) := by
  unfold matchesSubscription
  by_cases channel : Json.isString (channelOf event.type) opts.channel = true
  · have delivers : opts.delivers = true :=
      List.any_eq_true.mpr ⟨event.type,by cases event.type <;> decide,channel⟩
    have plain := deliverable delivers
    simp only [isDeliverable, Bool.and_eq_true] at plain
    obtain ⟨⟨⟨_,takerPlain⟩,makerPlain⟩,traderPlain⟩ := plain
    obtain ⟨b₁,taker,passes₁⟩ := excludesPlain takerPlain [event.taker]
    obtain ⟨b₂,maker,passes₂⟩ := excludesPlain makerPlain [event.maker]
    obtain ⟨b₃,trader,passes₃⟩ := excludesPlain traderPlain [event.maker,event.taker]
    refine ⟨!b₁ && !b₂ && !b₃,?_,?_⟩
    · rw [if_pos channel, taker, maker, trader]
      cases b₁ <;> cases b₂ <;> rfl
    · simp only [Bool.and_eq_true, Bool.not_eq_true', passes₁, passes₂, passes₃]
      constructor
      · rintro ⟨⟨taker,maker⟩,trader⟩
        exact ⟨channel,taker,maker,trader⟩
      · rintro ⟨_,taker,maker,trader⟩
        exact ⟨⟨taker,maker⟩,trader⟩
  · refine ⟨false,if_neg channel,fun wrong => absurd wrong (by decide),fun wants => ?_⟩
    exact absurd wants.channel channel

end

/-! The object that collects an event, when each match is under a name of its own. -/

theorem ordinaryString {id : RequestId} (ordinary : isOrdinary id = true) :
    ∃ name, id = .string name ∧ name ∉ inheritedNames := by
  cases id with
  | string name => exact ⟨name,rfl,of_decide_eq_true ordinary⟩
  | undefined | null | boolean | number | reference => cases ordinary

theorem collectOther {set : String} {isMatch : SubscriptionOpts → Checked Bool} {id : RequestId}
    {opts : SubscriptionOpts} (found : isMatch opts = .ok false) (rest : List (RequestId × SubscriptionOpts))
    (names : List String) :
    collect set isMatch ((id,opts)::rest) names = collect set isMatch rest names := by
  rw [collect, found]
  rfl

theorem collectMatch {set name : String} {isMatch : SubscriptionOpts → Checked Bool} {opts : SubscriptionOpts}
    (found : isMatch opts = .ok true) (own : name ∉ inheritedNames)
    (rest : List (RequestId × SubscriptionOpts)) (names : List String) :
    collect set isMatch ((.string name,opts)::rest) names =
      collect set isMatch rest (if name ∈ names then names else names ++ [name]) := by
  rw [collect, found]
  exact Checked.requireThen own

theorem memGrown {name n : String} {names : List String} :
    n ∈ (if name ∈ names then names else names ++ [name]) ↔ n = name ∨ n ∈ names := by
  split
  · rename_i inside
    exact ⟨.inr,fun either => either.elim (fun same => same ▸ inside) id⟩
  · rw [List.mem_append, List.mem_singleton, or_comm]

theorem nodupGrown {name : String} {names : List String} (distinct : names.Nodup) :
    (if name ∈ names then names else names ++ [name]).Nodup := by
  split
  · exact distinct
  · rename_i fresh
    exact List.nodup_append_comm.mp (List.nodup_cons.mpr ⟨fresh,distinct⟩)

theorem wantedCons {isMatch : SubscriptionOpts → Checked Bool} {requestId id : RequestId}
    {opts : SubscriptionOpts} {rest : List (RequestId × SubscriptionOpts)} :
    (∃ opts', (id,opts') ∈ (requestId,opts)::rest ∧ isMatch opts' = .ok true) ↔
      (requestId = id ∧ isMatch opts = .ok true) ∨ ∃ opts', (id,opts') ∈ rest ∧ isMatch opts' = .ok true := by
  constructor
  · rintro ⟨opts',mem,wanted⟩
    rcases List.mem_cons.mp mem with same | later
    · cases same
      exact .inl ⟨rfl,wanted⟩
    · exact .inr ⟨opts',later,wanted⟩
  · rintro (⟨rfl,wanted⟩ | ⟨opts',mem,wanted⟩)
    · exact ⟨opts,List.mem_cons_self,wanted⟩
    · exact ⟨opts',List.mem_cons_of_mem _ mem,wanted⟩

theorem collects {set : String} {isMatch : SubscriptionOpts → Checked Bool}
    {subscriptions : List (RequestId × SubscriptionOpts)}
    (ordinary : ∀ e ∈ subscriptions, ∃ b, isMatch e.2 = .ok b ∧ (b = true → isOrdinary e.1 = true))
    (names : List String) :
    ∃ names', collect set isMatch subscriptions names = .ok names' ∧ (names.Nodup → names'.Nodup) ∧
      ∀ name, name ∈ names' ↔
        name ∈ names ∨ ∃ opts, (.string name,opts) ∈ subscriptions ∧ isMatch opts = .ok true := by
  induction subscriptions generalizing names with
  | nil => exact ⟨names,rfl,id,fun name => by simp⟩
  | cons e rest ih =>
    obtain ⟨requestId,opts⟩ := e
    rw [List.forall_mem_cons] at ordinary
    obtain ⟨⟨b,found,named⟩,others⟩ := ordinary
    cases b with
    | false =>
      obtain ⟨names',done,nodup,listed⟩ := ih others names
      rw [collectOther found]
      refine ⟨names',done,nodup,fun name => (listed name).trans ?_⟩
      rw [wantedCons, found]
      simp
    | true =>
      obtain ⟨name,rfl,own⟩ := ordinaryString (named rfl)
      obtain ⟨names',done,nodup,listed⟩ := ih others (if name ∈ names then names else names ++ [name])
      rw [collectMatch found own]
      refine ⟨names',done,fun distinct => nodup (nodupGrown distinct),fun n => (listed n).trans ?_⟩
      rw [memGrown, wantedCons, found, RequestId.string.injEq, eq_comm, or_assoc, or_left_comm]
      simp

theorem entriesPerm (names : List String) : (entries names).Perm names :=
  ((List.perm_insertionSort _ _).append_right _).trans (List.filter_append_perm _ _)

section
variable {lower : String → String} {event : Event} {s : WebsocketService ι}

theorem sendSome {name : String} {ws : ι} {id : RequestId} :
    send s.readyState s.requestIdToSocket name = some (ws,id) ↔
      id = .string name ∧ s.requestIdToSocket.get (.string name) = some ws ∧ s.readyState ws = .OPEN := by
  unfold send
  cases found : s.requestIdToSocket.get (.string name) with
  | none => simp
  | some ws' =>
    by_cases isOpen : s.readyState ws' = .OPEN
    · simp only [isOpen, if_true, Option.some.injEq, Prod.mk.injEq]
      constructor
      · rintro ⟨rfl,rfl⟩
        exact ⟨rfl,rfl,isOpen⟩
      · rintro ⟨rfl,rfl,_⟩
        exact ⟨rfl,rfl⟩
    · simp only [isOpen, if_false, reduceCtorEq, Option.some.injEq, false_iff, not_and]
      rintro _ rfl
      exact isOpen

theorem updates {set : String} {isMatch : SubscriptionOpts → Checked Bool}
    (ordinary : ∀ e ∈ s.requestIdToSubscriptionOpts.entries,
      ∃ b, isMatch e.2 = .ok b ∧ (b = true → isOrdinary e.1 = true)) :
    ∃ sent, update set isMatch s = .ok sent ∧ sent.Nodup ∧ ∀ ws id, (ws,id) ∈ sent ↔
      s.readyState ws = .OPEN ∧ s.requestIdToSocket.get id = some ws ∧
        ∃ opts, s.requestIdToSubscriptionOpts.get id = some opts ∧ isMatch opts = .ok true := by
  obtain ⟨names,done,nodup,listed⟩ := collects ordinary []
  have perm := entriesPerm names
  refine ⟨(entries names).filterMap (send s.readyState s.requestIdToSocket),?_,?_,fun ws id => ?_⟩
  · rw [update, done]
    rfl
  · refine List.Nodup.filterMap (fun a a' e here here' => ?_) (perm.nodup_iff.mpr (nodup List.nodup_nil))
    obtain ⟨ws,id⟩ := e
    have same := (sendSome.mp here).1.symm.trans (sendSome.mp here').1
    exact RequestId.string.inj same
  · rw [List.mem_filterMap]
    constructor
    · rintro ⟨name,mem,here⟩
      obtain ⟨rfl,socket,isOpen⟩ := sendSome.mp here
      obtain ⟨opts,inside,wanted⟩ :=
        ((listed name).mp (perm.subset mem)).resolve_left List.not_mem_nil
      exact ⟨isOpen,socket,opts,InsertionMap.getSome.mpr inside,wanted⟩
    · rintro ⟨isOpen,socket,opts,inside,wanted⟩
      have mem := InsertionMap.getSome.mp inside
      obtain ⟨b,found,named⟩ := ordinary _ mem
      obtain rfl := Except.ok.inj (found.symm.trans wanted)
      obtain ⟨name,rfl,_⟩ := ordinaryString (named rfl)
      refine ⟨name,perm.mem_iff.mpr ((listed name).mpr (.inr ⟨opts,mem,wanted⟩)),?_⟩
      exact sendSome.mpr ⟨rfl,socket,isOpen⟩

end

def Attached (s : WebsocketService ι) (ws : ι) : Prop :=
  s.readyState ws = .OPEN ∨ s.readyState ws = .CLOSING

structure Sound (lower : String → String) (s : WebsocketService ι) (t : Subscribers ι) : Prop where
  messages : t.messages = s.messages
  isOpen : ∀ ws, t.isOpen ws = true ↔ s.readyState ws = .OPEN
  clients : ∀ ws, s.readyState ws = .OPEN → ws ∈ s.clients
  attached : ∀ ws id opts, t.subscriptions ws id = some opts → Attached s ws
  sockets : ∀ id ws, s.requestIdToSocket.get id = some ws ↔ ∃ opts, t.subscriptions ws id = some opts
  options : ∀ id opts, s.requestIdToSubscriptionOpts.get id = some opts ↔
    ∃ ws, t.subscriptions ws id = some opts
  requestIds : ∀ ws, Attached s ws → ∀ id, id ∈ s.requestIds ws ↔ ∃ opts, t.subscriptions ws id = some opts
  deliverable : ∀ ws id opts, t.subscriptions ws id = some opts → opts.delivers = true →
    isDeliverable lower id opts = true

theorem soundStart {lower : String → String} : Sound lower (start : WebsocketService ι) .start where
  messages := rfl
  isOpen := fun _ => ⟨nofun,nofun⟩
  clients := nofun
  attached := nofun
  sockets := fun _ _ => ⟨nofun,fun ⟨_,held⟩ => nomatch held⟩
  options := fun _ _ => ⟨nofun,fun ⟨_,held⟩ => nomatch held⟩
  requestIds := fun _ _ _ => ⟨nofun,fun ⟨_,held⟩ => nomatch held⟩
  deliverable := nofun

namespace Sound
variable {lower : String → String} {s : WebsocketService ι} {t : Subscribers ι}

theorem holder (sound : Sound lower s t) {ws other : ι} {id : RequestId} {opts opts' : SubscriptionOpts}
    (mine : t.subscriptions ws id = some opts) (theirs : t.subscriptions other id = some opts') :
    ws = other :=
  Option.some.inj (((sound.sockets id ws).mpr ⟨opts,mine⟩).symm.trans
    ((sound.sockets id other).mpr ⟨opts',theirs⟩))

theorem registered (sound : Sound lower s t) (ws : ι) (id : RequestId) (opts : SubscriptionOpts) :
    (s.requestIdToSocket.get id = some ws ∧ s.requestIdToSubscriptionOpts.get id = some opts) ↔
      t.subscriptions ws id = some opts := by
  constructor
  · rintro ⟨socket,options⟩
    obtain ⟨opts',mine⟩ := (sound.sockets id ws).mp socket
    obtain ⟨other,theirs⟩ := (sound.options id opts).mp options
    rwa [sound.holder mine theirs]
  · intro mine
    exact ⟨(sound.sockets id ws).mpr ⟨opts,mine⟩,(sound.options id opts).mpr ⟨ws,mine⟩⟩

theorem updated (sound : Sound lower s t) (set : String) (event : Event) :
    ∃ sent, update set (matchesSubscription lower (channelOf event.type) event) s = .ok sent ∧ sent.Nodup ∧
      ∀ ws id, (ws,id) ∈ sent ↔ t.isOpen ws = true ∧
        ∃ opts, t.subscriptions ws id = some opts ∧ Wants lower event opts := by
  have wants : ∀ e ∈ s.requestIdToSubscriptionOpts.entries,
      ∃ b, matchesSubscription lower (channelOf event.type) event e.2 = .ok b ∧
        (b = true ↔ Wants lower event e.2) := by
    intro e mem
    obtain ⟨ws,held⟩ := (sound.options e.1 e.2).mp (InsertionMap.getSome.mpr mem)
    exact matchesWants (sound.deliverable ws e.1 e.2 held)
  obtain ⟨sent,done,nodup,listed⟩ := updates (s := s) fun e mem => by
    obtain ⟨b,found,wanted⟩ := wants e mem
    refine ⟨b,found,fun yes => ?_⟩
    obtain ⟨ws,held⟩ := (sound.options e.1 e.2).mp (InsertionMap.getSome.mpr mem)
    have plain := sound.deliverable ws e.1 e.2 held (channelDelivers (wanted.mp yes).channel)
    simp only [isDeliverable, Bool.and_eq_true] at plain
    exact ((Bool.or_eq_true _ _).mp plain.1.1.1).resolve_right fun nothing =>
      nothingWanted nothing (wanted.mp yes)
  refine ⟨sent,done,nodup,fun ws id => (listed ws id).trans ?_⟩
  rw [sound.isOpen]
  refine and_congr_right fun _ => ?_
  constructor
  · rintro ⟨socket,opts,options,found⟩
    obtain ⟨b,found',wanted⟩ := wants (id,opts) (InsertionMap.getSome.mp options)
    obtain rfl := Except.ok.inj (found'.symm.trans found)
    exact ⟨opts,(sound.registered ws id opts).mp ⟨socket,options⟩,wanted.mp rfl⟩
  · rintro ⟨opts,held,wanted⟩
    obtain ⟨socket,options⟩ := (sound.registered ws id opts).mpr held
    obtain ⟨b,found,wanted'⟩ := wants (id,opts) (InsertionMap.getSome.mp options)
    obtain rfl := wanted'.mpr wanted
    exact ⟨socket,opts,options,found⟩

theorem emits (sound : Sound lower s t) (event : Event) :
    ∃ sent, emit lower event s = .ok sent ∧ sent.Nodup ∧
      ∀ ws id, (ws,id) ∈ sent ↔ t.isOpen ws = true ∧
        ∃ opts, t.subscriptions ws id = some opts ∧ Wants lower event opts := by
  unfold emit
  cases type : event.type with
  | TradeRecord =>
    obtain ⟨sent,done,nodup,listed⟩ := sound.updated "tradesHistory" event
    rw [type] at done
    exact ⟨sent,done,nodup,listed⟩
  | Order =>
    obtain ⟨sent,done,nodup,listed⟩ := sound.updated "orderSet" event
    rw [type] at done
    simp only [orderUpdate]
    split
    · rename_i nobody
      refine ⟨[],rfl,List.nodup_nil,fun ws id => ⟨fun mem => (List.not_mem_nil mem).elim,fun wants => ?_⟩⟩
      have inside := sound.clients ws ((sound.isOpen ws).mp wants.1)
      rw [List.eq_nil_of_length_eq_zero nobody] at inside
      exact (List.not_mem_nil inside).elim
    · exact ⟨sent,done,nodup,listed⟩

end Sound

section
variable [DecidableEq ι] {lower : String → String} {s : WebsocketService ι} {t : Subscribers ι}

def isApart (lower : String → String) (s : WebsocketService ι) : ClientAction ι → Bool
  | .message ws data => match request s.messages data with
      | .ok (id,opts) => (s.requestIdToSocket.get id).all (fun other => other = ws) &&
          (!opts.delivers || isDeliverable lower id opts)
      | .error _ => true
  | _ => true

theorem Sound.openUpdate (sound : Sound lower s t) {ws : ι} {b : Bool} {ready : ReadyState}
    (same : b = true ↔ ready = .OPEN) (other : ι) :
    Function.update t.isOpen ws b other = true ↔ Function.update s.readyState ws ready other = .OPEN := by
  by_cases here : other = ws
  · subst here
    rw [Function.update_self, Function.update_self, same]
  · rw [Function.update_of_ne here, Function.update_of_ne here, sound.isOpen]

theorem soundConnection (sound : Sound lower s t) {ws : ι} (fresh : s.readyState ws = .CONNECTING) :
    Sound lower (processConnection ws s) (t.step (.connection ws)) := by
  have none' : ∀ id opts, t.subscriptions ws id ≠ some opts := by
    intro id opts held
    have attached := sound.attached ws id opts held
    rw [Attached, fresh] at attached
    exact attached.elim nofun nofun
  have ready : ∀ other, other ≠ ws → (processConnection ws s).readyState other = s.readyState other :=
    fun other away => Function.update_of_ne away _ _
  refine ⟨sound.messages,sound.openUpdate ⟨fun _ => rfl,fun _ => rfl⟩,fun other isOpen => ?_,
    fun other id opts held => ?_,sound.sockets,sound.options,fun other attached id => ?_,sound.deliverable⟩
  · by_cases here : other = ws
    · exact List.mem_append_right _ (List.mem_singleton.mpr here)
    · rw [ready other here] at isOpen
      exact List.mem_append_left _ (sound.clients other isOpen)
  · have away : other ≠ ws := fun here => none' id opts (here ▸ held)
    rw [Attached, ready other away]
    exact sound.attached other id opts held
  · by_cases here : other = ws
    · subst here
      have nothing : (processConnection other s).requestIds other = [] := Function.update_self _ _ _
      rw [nothing]
      exact ⟨nofun,fun ⟨opts,held⟩ => absurd held (none' id opts)⟩
    · have kept : (processConnection ws s).requestIds other = s.requestIds other :=
        Function.update_of_ne here _ _
      rw [Attached, ready other here] at attached
      rw [kept]
      exact sound.requestIds other attached id

theorem soundEnding (sound : Sound lower s t) {ws : ι} (attached : Attached s ws) :
    Sound lower (terminate ws s) { t with isOpen := Function.update t.isOpen ws false } := by
  have ready : ∀ other, other ≠ ws → (terminate ws s).readyState other = s.readyState other :=
    fun other away => Function.update_of_ne away _ _
  have still : ∀ other, Attached (terminate ws s) other ↔ Attached s other := by
    intro other
    by_cases here : other = ws
    · subst here
      exact ⟨fun _ => attached,fun _ => .inr (Function.update_self _ _ _)⟩
    · rw [Attached, Attached, ready other here]
  refine ⟨sound.messages,sound.openUpdate ⟨nofun,nofun⟩,fun other isOpen => ?_,
    fun other id opts held => (still other).mpr (sound.attached other id opts held),sound.sockets,
    sound.options,fun other attached => sound.requestIds other ((still other).mp attached),
    sound.deliverable⟩
  · by_cases here : other = ws
    · subst here
      have closing : (terminate other s).readyState other = .CLOSING := Function.update_self _ _ _
      rw [closing] at isOpen
      cases isOpen
    · rw [ready other here] at isOpen
      exact sound.clients other isOpen

theorem getDeleted {ν : Type} (ids : List RequestId) (m : InsertionMap RequestId ν) (id : RequestId)
    (v : ν) : (ids.foldl InsertionMap.delete m).get id = some v ↔ id ∉ ids ∧ m.get id = some v := by
  induction ids generalizing m with
  | nil => simp
  | cons first rest ih =>
    rw [List.foldl_cons, ih, InsertionMap.getDelete]
    by_cases here : id = first <;> simp [here]

theorem soundClose (sound : Sound lower s t) {ws : ι} (closing : s.readyState ws = .CLOSING) :
    Sound lower (closeHandler ws s) (t.step (.close ws)) := by
  have ready : ∀ other, other ≠ ws → (closeHandler ws s).readyState other = s.readyState other :=
    fun other away => Function.update_of_ne away _ _
  have closed : (closeHandler ws s).readyState ws = .CLOSED := Function.update_self _ _ _
  have own : ∀ id, id ∈ s.requestIds ws ↔ ∃ opts, t.subscriptions ws id = some opts :=
    sound.requestIds ws (.inr closing)
  have kept : ∀ other id opts, (t.step (.close ws)).subscriptions other id = some opts ↔
      other ≠ ws ∧ t.subscriptions other id = some opts := by
    intro other id opts
    by_cases here : other = ws
    · subst here
      simp [Subscribers.step]
    · simp [Subscribers.step, here]
  have theirs : ∀ other id opts, t.subscriptions other id = some opts →
      (other ≠ ws ↔ id ∉ s.requestIds ws) := by
    intro other id opts held
    rw [own]
    constructor
    · rintro away ⟨opts',mine⟩
      exact away (sound.holder held mine)
    · rintro none' rfl
      exact none' ⟨opts,held⟩
  refine ⟨sound.messages,sound.openUpdate ⟨nofun,nofun⟩,fun other isOpen => ?_,fun other id opts held => ?_,
    fun id other => ?_,fun id opts => ?_,fun other attached id => ?_,fun other id opts held => ?_⟩
  · have away : other ≠ ws := by
      rintro rfl
      rw [closed] at isOpen
      cases isOpen
    rw [ready other away] at isOpen
    exact List.mem_filter.mpr ⟨sound.clients other isOpen,decide_eq_true away⟩
  · obtain ⟨away,before⟩ := (kept other id opts).mp held
    rw [Attached, ready other away]
    exact sound.attached other id opts before
  · refine (getDeleted _ _ _ _).trans ?_
    rw [sound.sockets]
    simp only [kept]
    constructor
    · rintro ⟨others,opts,held⟩
      exact ⟨opts,(theirs other id opts held).mpr others,held⟩
    · rintro ⟨opts,away,held⟩
      exact ⟨(theirs other id opts held).mp away,opts,held⟩
  · refine (getDeleted _ _ _ _).trans ?_
    rw [sound.options]
    simp only [kept]
    constructor
    · rintro ⟨others,other,held⟩
      exact ⟨other,(theirs other id opts held).mpr others,held⟩
    · rintro ⟨other,away,held⟩
      exact ⟨(theirs other id opts held).mp away,other,held⟩
  · have away : other ≠ ws := by
      rintro rfl
      rw [Attached, closed] at attached
      exact attached.elim nofun nofun
    rw [Attached, ready other away] at attached
    simp only [kept, away, ne_eq, not_false_eq_true, true_and]
    exact sound.requestIds other attached id
  · exact sound.deliverable other id opts ((kept other id opts).mp held).2

theorem subscribed {subscriptions : ι → RequestId → Option SubscriptionOpts} {ws other : ι}
    {id id' : RequestId} {opts opts' : SubscriptionOpts} :
    Function.update subscriptions ws (Function.update (subscriptions ws) id (some opts)) other id' =
        some opts' ↔
      (other = ws ∧ id' = id ∧ opts = opts') ∨
        (¬(other = ws ∧ id' = id) ∧ subscriptions other id' = some opts') := by
  by_cases here : other = ws
  · subst here
    by_cases same : id' = id <;> simp [same]
  · simp [here]

theorem soundSubscribe (sound : Sound lower s t) {ws : ι} (attached : Attached s ws) {data : Option Json}
    {id : RequestId} {opts : SubscriptionOpts} (asks : request s.messages data = .ok (id,opts))
    (apart : isApart lower s (.message ws data) = true) :
    Sound lower (processMessage ws data s) (t.step (.message ws data)) := by
  simp only [isApart, asks, Bool.and_eq_true, Bool.or_eq_true, Bool.not_eq_true', Option.all_eq_true,
    decide_eq_true_eq] at apart
  obtain ⟨mine,deliverable⟩ := apart
  have served : processMessage ws data s = { s with
      messages := s.messages + 1
      requestIds := Function.update s.requestIds ws (s.requestIds ws |>.insert id)
      requestIdToSubscriptionOpts := s.requestIdToSubscriptionOpts.set id opts
      requestIdToSocket := s.requestIdToSocket.set id ws } := by
    rw [processMessage, asks]
  have asked : t.step (.message ws data) = { t with
      messages := t.messages + 1
      subscriptions :=
        Function.update t.subscriptions ws (Function.update (t.subscriptions ws) id (some opts)) } := by
    simp only [Subscribers.step, sound.messages, asks]
  rw [served, asked]
  have alone : ∀ other opts', t.subscriptions other id = some opts' → other = ws :=
    fun other opts' before => mine other ((sound.sockets id other).mpr ⟨opts',before⟩)
  refine ⟨congrArg (· + 1) sound.messages,sound.isOpen,sound.clients,fun other id' opts' now => ?_,
    fun id' other => ?_,fun id' opts' => ?_,fun other attached' id' => ?_,fun other id' opts' now => ?_⟩
  · rcases subscribed.mp now with ⟨rfl,_⟩ | ⟨_,before⟩
    · exact attached
    · exact sound.attached other id' opts' before
  · rw [InsertionMap.getSet]
    simp only [subscribed]
    by_cases same : id' = id
    · subst same
      rw [if_pos rfl, Option.some.injEq]
      constructor
      · rintro rfl
        exact ⟨opts,.inl ⟨rfl,rfl,rfl⟩⟩
      · rintro ⟨opts',⟨rfl,_⟩ | ⟨_,before⟩⟩
        · rfl
        · exact (alone other opts' before).symm
    · rw [if_neg same, sound.sockets]
      simp [same]
  · rw [InsertionMap.getSet]
    simp only [subscribed]
    by_cases same : id' = id
    · subst same
      rw [if_pos rfl, Option.some.injEq]
      constructor
      · rintro rfl
        exact ⟨ws,.inl ⟨rfl,rfl,rfl⟩⟩
      · rintro ⟨other,⟨_,_,now⟩ | ⟨different,before⟩⟩
        · exact now
        · exact absurd ⟨alone other opts' before,rfl⟩ different
    · rw [if_neg same, sound.options]
      simp [same]
  · simp only [subscribed]
    by_cases here : other = ws
    · subst here
      rw [Function.update_self, List.mem_insert_iff, sound.requestIds other attached']
      by_cases same : id' = id <;> simp [same]
    · rw [Function.update_of_ne here, sound.requestIds other attached']
      simp [here]
  · rcases subscribed.mp now with ⟨_,rfl,rfl⟩ | ⟨_,before⟩
    · intro delivers
      exact deliverable.resolve_left (by rw [delivers]; decide)
    · exact sound.deliverable other id' opts' before

theorem soundStep (sound : Sound lower s t) {action : ClientAction ι} (apart : isApart lower s action = true)
    {s' : WebsocketService ι} (next : s.step action = some s') : Sound lower s' (t.step action) := by
  cases action with
  | connection ws =>
    obtain ⟨fresh,same⟩ := Option.ite_none_right_eq_some.mp next
    obtain rfl := Option.some.inj same
    exact soundConnection sound fresh
  | message ws data =>
    obtain ⟨attached,same⟩ := Option.ite_none_right_eq_some.mp next
    obtain rfl := Option.some.inj same
    cases asks : request s.messages data with
    | ok asked => exact soundSubscribe sound attached asks apart
    | error reason =>
      have counted : Sound lower { s with messages := s.messages + 1 } { t with messages := t.messages + 1 } :=
        ⟨congrArg (· + 1) sound.messages,sound.isOpen,sound.clients,sound.attached,sound.sockets,
          sound.options,sound.requestIds,sound.deliverable⟩
      have ended := soundEnding counted attached
      simp only [processMessage, Subscribers.step, sound.messages, asks]
      rw [sound.messages] at ended
      exact ended
  | ending ws =>
    obtain ⟨isOpen,same⟩ := Option.ite_none_right_eq_some.mp next
    obtain rfl := Option.some.inj same
    exact soundEnding sound (.inl isOpen)
  | close ws =>
    obtain ⟨closing,same⟩ := Option.ite_none_right_eq_some.mp next
    obtain rfl := Option.some.inj same
    exact soundClose sound closing

theorem othersKept (t : Subscribers ι) (action : ClientAction ι) {other : ι} (away : other ≠ action.client) :
    (t.step action).subscriptions other = t.subscriptions other := by
  cases action with
  | connection | ending => rfl
  | close ws => exact Function.update_of_ne away _ _
  | message ws data =>
    simp only [Subscribers.step]
    split
    · exact Function.update_of_ne away _ _
    · rfl

/-- What the clients do in any order, each step apart from the others. An event changes neither of
the maps, so it can be emitted in any state of a run. -/
inductive Run (lower : String → String) : WebsocketService ι → Subscribers ι → Prop where
  | start : Run lower start .start
  | more {s s' : WebsocketService ι} {t : Subscribers ι} (before : Run lower s t) (action : ClientAction ι)
      (apart : isApart lower s action = true) (next : s.step action = some s') : Run lower s' (t.step action)

def Registered (s : WebsocketService ι) (ws : ι) (id : RequestId) (opts : SubscriptionOpts) : Prop :=
  s.requestIdToSocket.get id = some ws ∧ s.requestIdToSubscriptionOpts.get id = some opts

structure ServesEach (lower : String → String) (s : WebsocketService ι) (t : Subscribers ι) : Prop where
  emits : ∀ event, ∃ sent, emit lower event s = .ok sent ∧ sent.Nodup ∧
    ∀ ws id, (ws,id) ∈ sent ↔ t.isOpen ws = true ∧
      ∃ opts, t.subscriptions ws id = some opts ∧ Wants lower event opts
  registered : ∀ ws id opts, Registered s ws id opts ↔ t.subscriptions ws id = some opts
  others : ∀ action s', isApart lower s action = true → s.step action = some s' →
    ∀ other, other ≠ action.client → ∀ id opts, Registered s' other id opts ↔ Registered s other id opts

theorem soundRun (run : Run lower s t) : Sound lower s t := by
  induction run with
  | start => exact soundStart
  | more before action apart next ih => exact soundStep ih apart next

theorem subscribersApart (run : Run lower s t) : ServesEach lower s t where
  emits := (soundRun run).emits
  registered := (soundRun run).registered
  others := by
    intro action s' apart next other away id opts
    have sound := soundRun run
    have later := soundStep sound apart next
    rw [Registered, later.registered, othersKept t action away, ← sound.registered, Registered]

def runActions (lower : String → String) (s : WebsocketService ι) (t : Subscribers ι) :
    List (ClientAction ι) → Option (WebsocketService ι × Subscribers ι)
  | [] => some (s,t)
  | action::rest =>
      if isApart lower s action then (s.step action).bind fun s' => runActions lower s' (t.step action) rest
      else none

theorem Run.ofActions {actions : List (ClientAction ι)} (run : Run lower s t)
    {p : WebsocketService ι × Subscribers ι} (ok : runActions lower s t actions = some p) : Run lower p.1 p.2 := by
  induction actions generalizing s t with
  | nil => exact Option.some.inj ok ▸ run
  | cons action rest ih =>
    simp only [runActions] at ok
    split at ok <;> try contradiction
    rename_i apart
    obtain ⟨s',next,later⟩ := Option.bind_eq_some_iff.mp ok
    exact ih (run.more action apart next) later

end

def subscribe (requestId : String) : Option Json :=
  some (.object [("type",.string "subscribe"),("requestId",.string requestId),
    ("channel",.string "orders")])

def sampleEvent : Event := ⟨.Order,"0x1","0x0"⟩

theorem sampleApart : ∃ (s : WebsocketService Nat) (t : Subscribers Nat),
    emit id sampleEvent s = .ok [(0,.string "1"),(1,.string "2")] ∧ ServesEach id s t := by
  have ran : (runActions id start .start
      [.connection 0,.connection 1,.message 0 (subscribe "1"),.message 1 (subscribe "2")]).map
      (fun p : WebsocketService Nat × Subscribers Nat => emit id sampleEvent p.1) =
      some (.ok [(0,.string "1"),(1,.string "2")]) := by decide +kernel
  obtain ⟨p,ok,sent⟩ := Option.map_eq_some_iff.mp ran
  exact ⟨p.1,p.2,sent,subscribersApart (Run.start.ofActions ok)⟩

def collidingActions : List (ClientAction Nat) :=
  [.connection 0,.connection 1,.message 0 (subscribe "1"),.message 1 (subscribe "1")]

theorem requestIdsCollide :
    (∃ s : WebsocketService Nat, collidingActions.foldlM step start = some s ∧
      emit id sampleEvent s = .ok [(1,.string "1")] ∧
      (collidingActions.foldl Subscribers.step .start).isOpen 0 = true ∧
      ∃ opts, (collidingActions.foldl Subscribers.step .start).subscriptions 0 (.string "1") = some opts ∧
        Wants id sampleEvent opts) ∧
    ∃ s : WebsocketService Nat,
      [ClientAction.connection 0,.message 0 (subscribe "constructor")].foldlM step start = some s ∧
      emit id sampleEvent s = .error "orderSet.add is not a function" := by
  have redirected : (collidingActions.foldlM step start).map (emit id sampleEvent) =
      some (.ok [(1,.string "1")]) := by decide +kernel
  have thrown : ([ClientAction.connection 0,.message 0 (subscribe "constructor")].foldlM step
      (start : WebsocketService Nat)).map (emit id sampleEvent) =
      some (.error "orderSet.add is not a function") := by decide +kernel
  obtain ⟨s,ran,sent⟩ := Option.map_eq_some_iff.mp redirected
  refine ⟨⟨s,ran,sent,by decide +kernel,⟨some (.string "orders"),none,none,none⟩,rfl,?_⟩,
    Option.map_eq_some_iff.mp thrown⟩
  exact ⟨by decide +kernel,nofun,nofun,nofun⟩

end WebsocketService
end Perpetual
