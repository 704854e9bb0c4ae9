import Perpetual.TradeMemory
import Perpetual.Batch

/-! The trade loop in memory keeps in step with the loop over values, so at every call of a
trader the structs in memory and the stored balances agree. -/
namespace Perpetual
namespace InMemory
open Settlement StructMemory
variable {σ : Type}

theorem loadHeld {m : Memory} {balance : Ref} {b : Balance} (held : m.read balance = some b) :
    load m balance = .ok b :=
  Checked.atOk.mpr held

theorem updateSteps {m : Memory} {balance : Ref} {b : Balance} (held : m.read balance = some b)
    (f : Balance → Checked Balance) :
    Lockstep (fun m' b' => m' = m.write balance b') (update m balance f) (f b) := by
  rw [update, loadHeld held, Checked.okBind]
  cases f b with
  | error reason => exact .error reason
  | ok b' => exact .ok rfl

theorem updateTwice {m : Memory} {balance : Ref} {b : Balance} (held : m.read balance = some b)
    (f g : Balance → Checked Balance) :
    Lockstep (fun m' b' => m' = m.write balance b') (update m balance f >>= fun m => update m balance g)
      (f b >>= g) := by
  refine (updateSteps held f).bind fun m' b' first => ?_
  subst first
  refine (updateSteps (readWrite held) g).mono fun m'' b'' second => ?_
  rw [second, writeTwice]

theorem applyResultSteps {m : Memory} {makerBalance takerBalance : Ref} {b c : Balance}
    (maker : m.read makerBalance = some b) (taker : m.read takerBalance = some c)
    (apart : makerBalance ≠ takerBalance) (result : TradeResult) :
    Lockstep (fun m' out => m' = (m.write makerBalance out.1).write takerBalance out.2)
      (applyResult result makerBalance takerBalance m) (Trade.applyResult result b c) := by
  have both (f g f' g' : Balance → Checked Balance) :
      Lockstep (fun m' out => m' = (m.write makerBalance out.1).write takerBalance out.2)
        ((update m makerBalance f >>= fun m => update m makerBalance g) >>= fun m =>
          update m takerBalance f' >>= fun m => update m takerBalance g')
        ((f b >>= g) >>= fun b => (f' c >>= g') >>= fun c => pure (b,c)) := by
    refine (updateTwice maker f g).bind fun m' b' first => ?_
    subst first
    have other : (m.write makerBalance b').read takerBalance = some c := by rwa [readOther apart]
    exact (updateTwice other f' g').reshape fun m'' c' second => second
  simp only [bind_assoc] at both
  unfold applyResult Trade.applyResult
  split
  · exact both _ _ _ _
  · exact both _ _ _ _

theorem applyFundingSteps {m : Memory} {balance : Ref} {b : Balance} (held : m.read balance = some b)
    (d : SignedInt) : Lockstep (fun out out' => out = (out'.1,out'.2.1,m.write balance out'.2.2))
      (applyFunding d balance m) (Settlement.applyFunding d b) := by
  unfold applyFunding Settlement.applyFunding
  rw [loadHeld held, Checked.okBind]
  dsimp only
  split
  · refine .bindSame _ fun amount _ => ?_
    refine (updateSteps held _).bind fun m' b' same => ?_
    exact .ok (by rw [same])
  · refine .bindSame _ fun amount _ => ?_
    refine (updateSteps held _).bind fun m' b' same => ?_
    exact .ok (by rw [same])

theorem settleAccountSteps (context : Context) (account : Address) (w : World σ) (m : Memory) :
    Lockstep (fun out out' => out = ((m.alloc out'.1).1,out'.2,(m.alloc out'.1).2))
      (settleAccount context account w m) (Settlement.settleAccount context account w) := by
  have held : (m.alloc (w.perpetual.balances account)).2.read (m.alloc (w.perpetual.balances account)).1 =
      some (w.perpetual.balances account) := readAlloc
  unfold settleAccount Settlement.settleAccount
  dsimp only
  split
  · exact .ok rfl
  · rw [loadHeld held, Checked.okBind]
    split
    · exact .ok rfl
    · refine .bindSame _ fun d _ => ?_
      refine (applyFundingSteps held d).bind fun out out' same => ?_
      subst same
      obtain ⟨isPositive,amount,settled⟩ := out'
      dsimp only
      rw [writeAlloc]
      have last : load (m.alloc settled).2 (m.alloc settled).1 = .ok settled := loadHeld readAlloc
      rw [show load (m.alloc settled).2 (m.alloc (w.perpetual.balances account)).1 = .ok settled from last]
      exact .ok rfl

theorem settleAccountsSteps (context : Context) (accounts : List Address) (w : World σ) (m : Memory) :
    Lockstep (fun out out' => out = ((m.allocAll out'.1).1,out'.2,(m.allocAll out'.1).2))
      (settleAccounts context accounts w m) (Settlement.settleAccounts context accounts w) := by
  induction accounts generalizing w m with
  | nil => exact .ok rfl
  | cons account rest ih =>
    refine (settleAccountSteps context account w m).bind fun out out' same => ?_
    subst same
    refine (ih out'.2 (m.alloc out'.1).2).bind fun others others' same => ?_
    subst same
    exact .ok rfl

theorem copied {m : Memory} {refs : List Ref} {values : List Balance} (holds : m.Holds refs values) :
    copyAll refs m = .ok (m.allocAll values) := by
  induction values generalizing refs m with
  | nil =>
    cases holds
    rfl
  | cons b rest ih =>
    cases holds with
    | cons head tail =>
      rw [copyAll, copy, loadHeld head]
      simp only [Checked.okBind, pure_bind, ih (Holds.alloc tail b)]
      rfl

structure Matches (initialBalances : List Balance) (f : Frame σ) (s : Trade.Batch σ) : Prop where
  world : f.world = s.world
  traderFlags : f.traderFlags = s.traderFlags
  current : f.memory.Holds f.currentBalances s.currentBalances
  initial : f.memory.Holds f.initialBalances initialBalances
  unique : f.currentBalances.Nodup
  apart : ∀ r ∈ f.currentBalances, r ∉ f.initialBalances

theorem atSteps {m : Memory} {refs : List Ref} {values : List Balance} (holds : m.Holds refs values) (i : Nat) :
    Lockstep (fun r b => refs[i]? = some r ∧ m.read r = some b) (Checked.at? refs i) (Checked.at? values i) := by
  unfold Checked.at?
  cases found : refs[i]? with
  | none =>
    rw [holds.missing found]
    exact .error _
  | some r =>
    obtain ⟨b,value,held⟩ := holds.found found
    rw [value]
    exact .ok ⟨rfl,held⟩

theorem tradeOneSteps {x : Externals σ} {msg : Msg} {context : Context} {accounts : List Address}
    {initialBalances : List Balance} {f : Frame σ} {s : Trade.Batch σ} (tradeArg : TradeArg)
    (matched : Matches initialBalances f s) :
    Lockstep (Matches initialBalances) (tradeOne x msg context accounts f tradeArg)
      (Trade.tradeOne x msg context accounts s tradeArg) := by
  obtain ⟨world,m,initials,currents,flags⟩ := f
  obtain ⟨world',values,flags'⟩ := s
  obtain ⟨rfl,rfl,current,initial,unique,apart⟩ := matched
  unfold tradeOne Trade.tradeOne
  refine .bindSame _ fun _ _ => .bindSame _ fun maker atMaker => .bindSame _ fun taker atTaker => ?_
  refine .bindSame _ fun (result,w) _ => ?_
  rw [Checked.atOk] at atMaker atTaker
  dsimp only
  split
  · exact .ok ⟨rfl,rfl,current,initial,unique,apart⟩
  · rename_i different
    refine (atSteps current _).bind fun makerRef b ⟨foundMaker,heldMaker⟩ => ?_
    refine (atSteps current _).bind fun takerRef c ⟨foundTaker,heldTaker⟩ => ?_
    -- different accounts stand at different indexes, where there are different structs
    have apartRefs : makerRef ≠ takerRef := by
      rintro rfl
      have inside := (List.getElem?_eq_some_iff.mp foundMaker).1
      have index := (List.getElem?_inj inside unique).mp (foundMaker.trans foundTaker.symm)
      rw [index] at atMaker
      exact different (Option.some.inj (atMaker.symm.trans atTaker))
    refine (applyResultSteps heldMaker heldTaker apartRefs result).bind fun m' out same => ?_
    subst same
    have newMaker : ((m.write makerRef out.1).write takerRef out.2).read makerRef = some out.1 := by
      rw [readOther apartRefs.symm]
      exact readWrite heldMaker
    have newTaker : ((m.write makerRef out.1).write takerRef out.2).read takerRef = some out.2 := by
      refine readWrite (b := c) ?_
      rwa [readOther apartRefs]
    rw [loadHeld newMaker, Checked.okBind, loadHeld newTaker, Checked.okBind]
    exact .ok ⟨rfl,rfl,(current.write unique foundMaker out.1).write unique foundTaker out.2,
      (initial.writeApart (apart _ (List.mem_of_getElem? foundMaker)) _).writeApart
        (apart _ (List.mem_of_getElem? foundTaker)) _,unique,apart⟩

theorem runTradesSteps {x : Externals σ} {msg : Msg} {context : Context} {accounts : List Address}
    {initialBalances values : List Balance} {start : Frame σ} {w : World σ} (trades : List TradeArg)
    (matched : Matches initialBalances start ⟨w,values,0⟩) :
    Lockstep (Matches initialBalances) (runTrades x msg context accounts trades start)
      (Trade.runTrades x msg context accounts trades values w) :=
  .foldlM (fun _ _ tradeArg => tradeOneSteps tradeArg) trades matched

theorem startMatches (w : World σ) (values : List Balance) :
    Matches values ⟨w,((empty.allocAll values).2.allocAll values).2,(empty.allocAll values).1,
      ((empty.allocAll values).2.allocAll values).1,0⟩ ⟨w,values,0⟩ where
  world := rfl
  traderFlags := rfl
  current := allocAllHolds _ values
  initial := (allocAllHolds empty values).imp fun _ _ _ held => allocAllRead held values
  unique := allocAllNodup _ values
  apart := by
    intro r current initial
    obtain ⟨i,found⟩ := List.mem_iff_getElem?.mp initial
    obtain ⟨b,_,held⟩ := (allocAllHolds empty values).found found
    exact allocAllFresh held values current

def enterValues (x : Externals σ) (msg : Msg) (accounts : List Address) (w : World σ) :
    Checked (Context × List Balance × World σ) := do
  Trade.verifyAccounts accounts
  let (context,w) ← loadContext x msg w
  let (initialBalances,w) ← Settlement.settleAccounts context accounts w
  return (context,initialBalances,w)

theorem enterSteps (x : Externals σ) (msg : Msg) (accounts : List Address) (w : World σ) :
    Lockstep (fun out out' => out.1 = out'.1 ∧ Matches out'.2.1 out.2 ⟨out'.2.2,out'.2.1,0⟩)
      (enter x msg accounts w) (enterValues x msg accounts w) := by
  unfold enter enterValues
  refine .bindSame _ fun _ _ => .bindSame _ fun (context,w) _ => ?_
  refine (settleAccountsSteps context accounts w empty).bind fun out out' same => ?_
  subst same
  obtain ⟨values,w⟩ := out'
  dsimp only
  rw [copied (allocAllHolds empty values)]
  exact .ok ⟨rfl,startMatches w values⟩

theorem loadBoth {α : Type} {m : Memory} {first second : Ref} {b c : Balance} (held : m.read first = some b)
    (held' : m.read second = some c) (f : Balance → Balance → Checked α) :
    (load m first >>= fun b => load m second >>= fun c => f b c) = f b c := by
  rw [loadHeld held, Checked.okBind, loadHeld held', Checked.okBind]

theorem verifySteps {context : Context} {m : Memory} {initials currents : List Ref}
    {initialValues currentValues : List Balance} (initial : m.Holds initials initialValues)
    (current : m.Holds currents currentValues) (accounts : List Address) :
    verifyAccountsFinalBalances context m accounts initials currents =
      Trade.verifyAccountsFinalBalances context accounts initialValues currentValues := by
  induction accounts generalizing initials currents initialValues currentValues with
  | nil => rw [verifyAccountsFinalBalances, Trade.verifyAccountsFinalBalances]
  | cons account accounts ih =>
    cases initial with
    | nil => simp only [verifyAccountsFinalBalances, Trade.verifyAccountsFinalBalances]
    | cons firstInitial restInitial =>
      cases current with
      | nil => simp only [verifyAccountsFinalBalances, Trade.verifyAccountsFinalBalances]
      | cons firstCurrent restCurrent =>
        rw [verifyAccountsFinalBalances, Trade.verifyAccountsFinalBalances,
          loadBoth firstInitial firstCurrent, ih restInitial restCurrent]

/-- The trade over values is what the contract does with its structs in memory. -/
theorem tradeRefined (x : Externals σ) (msg : Msg) (accounts : List Address) (trades : List TradeArg)
    (w : World σ) : trade x msg accounts trades w = Trade.trade x msg accounts trades w := by
  refine Checked.bindCongr fun _ _ => nonReentrantCongr ?_
  have steps : Lockstep (· = ·)
      (enter x msg accounts (w.setStatus ENTERED) >>= fun out => do
        let last ← runTrades x msg out.1 accounts trades out.2
        verifyAccountsFinalBalances out.1 last.memory accounts last.initialBalances last.currentBalances
        return last.world)
      (enterValues x msg accounts (w.setStatus ENTERED) >>= fun out => do
        let batch ← Trade.runTrades x msg out.1 accounts trades out.2.1 out.2.2
        Trade.verifyAccountsFinalBalances out.1 accounts out.2.1 batch.currentBalances
        return batch.world) := by
    refine (enterSteps x msg accounts _).bind fun out out' ⟨same,matched⟩ => ?_
    rw [same]
    refine (runTradesSteps trades matched).bind fun last batch matched => ?_
    rw [verifySteps matched.initial matched.current]
    refine .bindSame _ fun _ _ => .ok matched.world
  refine (Lockstep.eq steps).trans ?_
  simp only [enterValues, bind_assoc, pure_bind]

structure Reached (x : Externals σ) (msg : Msg) (accounts : List Address) (trades : List TradeArg) (w : World σ)
    (context : Context) (start frame : Frame σ) : Prop where
  live : w.perpetual.finalSettlementEnabled = false
  free : w.perpetual.status ≠ ENTERED
  entered : enter x msg accounts (w.setStatus ENTERED) = .ok (context,start)
  ran : ∃ done, done <+: trades ∧ runTrades x msg context accounts done start = .ok frame

def getAccountBalance (s : Storage) (account : Address) : Balance := s.balances account

/-- The copies of the balance of the account at an index, in a world that the trader may look at. -/
structure Copies (context : Context) (settled : World σ) (frame : Frame σ) (v : World σ) (i : Nat) (a : Address) :
    Prop where
  current : ∃ r, frame.currentBalances[i]? = some r ∧ frame.memory.read r = some (getAccountBalance v.perpetual a)
  initial : ∃ r, frame.initialBalances[i]? = some r ∧ frame.memory.read r = some (settled.perpetual.balances a)
  timed : (v.perpetual.localIndexes a).timestamp = context.index.timestamp

theorem entered {x : Externals σ} {msg : Msg} {accounts : List Address} {w : World σ} {context : Context}
    {start : Frame σ} (ok : enter x msg accounts (w.setStatus ENTERED) = .ok (context,start)) :
    accounts.Nodup ∧ ∃ settled : World σ,
      Matches (accounts.map settled.perpetual.balances) start ⟨settled,accounts.map settled.perpetual.balances,0⟩ ∧
      Trade.InStep context accounts ⟨settled,accounts.map settled.perpetual.balances,0⟩ := by
  obtain ⟨⟨context',values,settled⟩,valuesOk,same,matched⟩ := (enterSteps x msg accounts _).succeeds ok
  change context = context' at same
  subst same
  simp only [enterValues, Checked.bindOk, Prod.exists, Checked.pureOk, Prod.mk.injEq] at valuesOk
  obtain ⟨_,verified,context',w₁,load,values',w₂,settle,rfl,rfl,rfl⟩ := valuesOk
  have unique := Trade.verifiedNodup verified
  have all := settledAll settle
  have status : w₁.perpetual.status = ENTERED := (loaded load).status
  have index : w₁.perpetual.globalIndex = context'.index := by rw [(loaded load).storage]
  have start := Trade.inStepStart unique all status index
  rw [all.stored unique] at start matched
  exact ⟨unique,w₂,matched,start⟩

theorem tradersSeeCurrentBalances {allow : σ → σ → Prop} {x : Externals σ} (traders : Traders allow x)
    {msg : Msg} {accounts : List Address} {trades : List TradeArg} {w : World σ} {context : Context}
    {start frame : Frame σ} (reached : Reached x msg accounts trades w context start frame) {v : World σ}
    (before : External allow frame.world v) {i : Nat} {a : Address} (listed : accounts[i]? = some a) :
    Copies context start.world frame v i a := by
  obtain ⟨unique,settled,matched,inStep⟩ := entered reached.entered
  obtain ⟨done,_,ran⟩ := reached.ran
  obtain ⟨batch,values,last⟩ := (runTradesSteps done matched).succeeds ran
  have now := Checked.loopKeeps (fun s tradeArg s' _ inStep ok => Trade.inStepPass traders unique inStep ok)
    values inStep
  have kept : Untouched batch.world.perpetual v.perpetual := (last.world ▸ before).untouched now.status
  rw [matched.world]
  refine ⟨last.current.behind ?_,last.initial.behind ?_,?_⟩
  · rw [now.memory, List.getElem?_map, listed, getAccountBalance, kept.balances]
    rfl
  · rw [List.getElem?_map, listed]
    rfl
  · rw [kept.localIndexes]
    exact now.timed a (List.mem_of_getElem? listed)

theorem callbackSeesCurrentBalances :
    ∃ (context : Context) (start frame : Frame Unit),
      Reached Externals.callback ⟨1,100⟩ [1,2] [⟨0,1,9,[]⟩]
        ⟨{ Storage.deployed 3 with globalOperators := fun _ => true },[],()⟩ context start frame ∧
      Copies context start.world frame frame.world 0 1 := by
  let w : World Unit := ⟨{ Storage.deployed 3 with globalOperators := fun _ => true },[],()⟩
  have runs : (enter Externals.callback ⟨1,100⟩ [1,2] (w.setStatus ENTERED) >>= fun entered =>
      runTrades Externals.callback ⟨1,100⟩ entered.1 [1,2] [⟨0,1,9,[]⟩] entered.2).isOk = true := by decide +kernel
  obtain ⟨frame,ok⟩ := Checked.okExists runs
  obtain ⟨⟨context,start⟩,entered,ran⟩ := Checked.bindOk.mp ok
  have reached : Reached Externals.callback ⟨1,100⟩ [1,2] [⟨0,1,9,[]⟩] w context start frame :=
    ⟨rfl,by decide,entered,_,List.prefix_rfl,ran⟩
  exact ⟨context,start,frame,reached,
    tradersSeeCurrentBalances callbackHonest.traders reached (.refl _) (by rfl)⟩

end InMemory
end Perpetual
