import Perpetual.DeleveragingHistory
import Perpetual.PriceOracles
import Perpetual.Calls

/-! Marking against deleveraging: the two read the price on different ways. -/
namespace Perpetual
open Settlement PriceOracle
variable {σ : Type}

namespace Settlement

theorem settleAccountLocal {context : Context} {account : Address} {w v : World σ}
    (localIndex : v.perpetual.localIndexes account = w.perpetual.localIndexes account)
    (balance : v.perpetual.balances account = w.perpetual.balances account) :
    (settleAccount context account v).map Prod.fst = (settleAccount context account w).map Prod.fst := by
  simp only [settleAccount, localIndex, balance]
  split
  · rfl
  · split
    · rfl
    · cases indexDiff context.index (w.perpetual.localIndexes account) with
      | error reason => rfl
      | ok d =>
        change Except.map Prod.fst (applyFunding d (w.perpetual.balances account) >>= _) =
          Except.map Prod.fst (applyFunding d (w.perpetual.balances account) >>= _)
        cases applyFunding d (w.perpetual.balances account) <;> rfl

theorem settledAmong {context : Context} {accounts : List Address} {w w' : World σ}
    {balances : List Balance} (ok : settleAccounts context accounts w = .ok (balances,w'))
    (unique : accounts.Nodup) {account : Address} (mem : account ∈ accounts) :
    (settleAccount context account w).map Prod.fst = .ok (w'.perpetual.balances account) := by
  induction accounts generalizing w balances with
  | nil => exact (List.not_mem_nil mem).elim
  | cons head rest ih =>
    simp only [settleAccounts, Checked.bindOk, Prod.exists, Checked.pureOk, Prod.mk.injEq] at ok
    obtain ⟨balance,mid,first,others,last,tail,rfl,rfl⟩ := ok
    obtain ⟨fresh,unique⟩ := List.nodup_cons.mp unique
    rcases List.mem_cons.mp mem with rfl | inside
    · rw [first, ((settledAll tail).elsewhere fresh).1, (settled first).here.1]
      rfl
    · have away : account ≠ head := fun same => fresh (same ▸ inside)
      have kept := (settled first).elsewhere away
      rw [← settleAccountLocal kept.2 kept.1]
      exact ih tail unique inside

end Settlement

namespace P1Deleveraging

/-- What P1Deleveraging finds in a trade of PerpetualV1 against the account: its balance is settled
first, and the price is the one that PerpetualV1 has read. -/
def findsUnderwater (x : Externals σ) (msg : Msg) (account : Address) (w : World σ) : Checked Bool := do
  let (context,w) ← loadContext x msg (w.setStatus ENTERED)
  let balance ← (settleAccount context account w).map Prod.fst
  isUnderwater balance context.price

theorem foundInTrade {x : Externals σ} {msg : Msg} {context : Context} {accounts : List Address}
    {w w₁ w₂ : World σ} {balances : List Balance}
    (load : loadContext x msg (w.setStatus ENTERED) = .ok (context,w₁))
    (settle : settleAccounts context accounts w₁ = .ok (balances,w₂)) (unique : accounts.Nodup)
    {account : Address} (mem : account ∈ accounts) :
    findsUnderwater x msg account w = isUnderwater (w₂.perpetual.balances account) context.price := by
  have stored := settledAmong settle unique mem
  simp only [findsUnderwater, load, bind, Except.bind, stored]

structure Agrees (getPrice : Address → Checked Uint256) (perpetual : Storage) (account : Address)
    (found : Checked Bool) : Prop where
  marks : ∀ msg s, (∃ s', mark msg getPrice perpetual account s = .ok s') ↔ found = .ok true
  unmarks : ∀ s, (∃ s', unmark getPrice perpetual account s = .ok s') ↔ found ≠ .ok true

/-- The oracle answers PerpetualV1 only, so P1Deleveraging can neither mark nor unmark. -/
theorem neverAgrees {contracts : Address → PriceOracle} {feeds : Feeds} {this deleveragingAddress : Address}
    {x : Externals σ} {msg : Msg} {w : World σ} (built : (contracts w.perpetual.oracle).BuiltFor this)
    (other : deleveragingAddress ≠ this) (account : Address) :
    (∀ msg s s', mark msg (answers contracts feeds deleveragingAddress) w.perpetual account s ≠
      .ok s') ∧
    (∀ s s', unmark (answers contracts feeds deleveragingAddress) w.perpetual account s ≠
      .ok s') ∧
    ¬ Agrees (answers contracts feeds deleveragingAddress) w.perpetual account
      (findsUnderwater x msg account w) := by
  have silent : ∀ answer, isAccountUnderwater (answers contracts feeds deleveragingAddress)
      w.perpetual account ≠ .ok answer := by
    intro answer found
    obtain ⟨price,answered,_⟩ := accountUnderwater.mp found
    exact other (PriceOracle.onlyReader built answered)
  have marksNone : ∀ msg s s', mark msg (answers contracts feeds deleveragingAddress)
      w.perpetual account s ≠ .ok s' := fun msg s s' ok => silent true (markOk.mp ok).1
  have unmarksNone : ∀ s s', unmark (answers contracts feeds deleveragingAddress)
      w.perpetual account s ≠ .ok s' := fun s s' ok => silent false (unmarkOk.mp ok).1
  refine ⟨marksNone,unmarksNone,fun agrees => ?_⟩
  by_cases found : findsUnderwater x msg account w = .ok true
  · obtain ⟨s',ok⟩ := (agrees.marks msg (constructor msg this this)).mpr found
    exact marksNone _ _ _ ok
  · obtain ⟨s',ok⟩ := (agrees.unmarks (constructor msg this this)).mpr found
    exact unmarksNone _ _ ok

def sampleContracts : Address → PriceOracle := fun _ => .chainlink (ReaderOracle.constructor 30 7 18)

def sampleFeeds : Feeds := ⟨fun _ => .ok (20 * BaseMath.BASE),fun _ => .error "no oracle"⟩

def sampleReader : Externals Unit where
  getPrice := fun oracle _ => answers sampleContracts sampleFeeds 7 oracle
  getFunding := fun _ _ _ => .ok (true,0)
  balanceOf := fun _ _ => .ok 0
  transferFrom := fun _ _ _ w => .ok w
  transfer := fun _ _ _ w => .ok w
  trade := fun _ _ _ => .error "no trader"

theorem underwaterUnmarkable :
    findsUnderwater sampleReader ⟨2,1900⟩ 1 ⟨sampleShort,[],()⟩ = .ok true ∧
    (mark ⟨5,1900⟩ (answers sampleContracts sampleFeeds 9) sampleShort 1 sampleContract).isOk = false ∧
    ¬ Agrees (answers sampleContracts sampleFeeds 9) sampleShort 1
      (findsUnderwater sampleReader ⟨2,1900⟩ 1 ⟨sampleShort,[],()⟩) := by
  have found : findsUnderwater sampleReader ⟨2,1900⟩ 1 ⟨sampleShort,[],()⟩ = .ok true := by decide +kernel
  have refused : (mark ⟨5,1900⟩ (answers sampleContracts sampleFeeds 9) sampleShort 1
      sampleContract).isOk = false := by decide +kernel
  refine ⟨found,refused,fun agrees => ?_⟩
  obtain ⟨s',ok⟩ := (agrees.marks ⟨5,1900⟩ sampleContract).mpr found
  rw [ok] at refused
  cases refused

theorem sampleNeverAgrees : ¬ Agrees (answers sampleContracts sampleFeeds 9) sampleShort 2
    (findsUnderwater sampleReader ⟨2,1900⟩ 2 ⟨sampleShort,[],()⟩) :=
  (@neverAgrees Unit sampleContracts sampleFeeds 7 9 sampleReader ⟨2,1900⟩ ⟨sampleShort,[],()⟩
    (.chainlink 30 18) (by decide) 2).2.2

end P1Deleveraging
end Perpetual
