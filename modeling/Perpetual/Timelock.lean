import Perpetual.DeleveragingHistory
import Perpetual.Solvency

/-! The waiting period of P1Deleveraging: nobody else than the operator gets around it, but
anyone can start it again. -/
namespace Perpetual
namespace P1Deleveraging

section
variable {seen : Storage → Uint256 → Prop} {perpetual : Storage} {marking now : Uint256}
  {start s s' : DeleveragingContract} {account : Address} {balance : Balance} {price : Uint256}
  {calls later : List DeleveragingCall}

theorem markTimeStamp {call : DeleveragingCall} {timestamp : Uint256}
    (marks : call.markTime account = some timestamp) : call.timestamp = timestamp := by
  cases call with
  | mark a t b p =>
    simp only [DeleveragingCall.markTime, Option.ite_none_right_eq_some, Option.some.injEq] at marks
    exact marks.2
  | unmark | setOperator | trade => cases marks

theorem Timely.markTimes (timely : Timely calls) (account : Address) :
    (∀ u ∈ markTimes account calls, u ≠ 0) ∧
    (markTimes account calls).Pairwise fun u v => u.toNat ≤ v.toNat := by
  constructor
  · intro u mem
    obtain ⟨call,inside,marks⟩ := List.mem_filterMap.mp mem
    exact markTimeStamp marks ▸ timely.positive call inside
  · refine List.Pairwise.filterMap _ ?_ timely.ordered
    intro c c' ordered u marks v marks'
    rwa [← markTimeStamp marks, ← markTimeStamp marks']

theorem lastLatest {times : List Uint256} (ordered : times.Pairwise fun u v => u.toNat ≤ v.toNat)
    {u : Uint256} (mem : u ∈ times) (first : Uint256) : u.toNat ≤ (times.getLastD first).toNat := by
  have refl : Std.Refl fun u v : Uint256 => u.toNat ≤ v.toNat := ⟨fun _ => le_rfl⟩
  rw [List.getLastD_eq_getLast?, List.getLast?_eq_some_getLast (List.ne_nil_of_mem mem), Option.getD_some]
  exact ordered.rel_getLast mem

theorem markStored
    (marked : Step perpetual marking start [.mark account marking balance price] s) :
    s.markedTimestamp account = marking := by
  cases stamped marked account with
  | marked timestamp b p entry underwater stored =>
    simp only [List.cons.injEq, DeleveragingCall.mark.injEq] at entry
    rw [stored, entry.1.2.1]
  | cleared entry stored =>
    obtain ⟨c,same,clears,_⟩ := entry
    rw [← List.singleton_inj.mp same] at clears
    cases clears
  | kept entry stored =>
    have unmarked := (entry _ (List.mem_singleton.mpr rfl)).2
    rw [DeleveragingCall.markTime, if_pos rfl] at unmarked
    cases unmarked

theorem everyonePermitted : (∀ sender, verifyPermissions now s sender account = .ok ()) ↔
    Waited now (s.markedTimestamp account) := by
  constructor
  · intro passes
    have other : s.deleveragingOperator + 1 ≠ s.deleveragingOperator := by bv_omega
    exact permitted.mp (passes _) other
  · intro waited sender
    exact permitted.mpr fun _ => waited

theorem marksUnderwater (under : isUnderwater (perpetual.balances account) price = .ok true) (now : Uint256)
    (sender : Address) (s : DeleveragingContract) :
    ∃ s', Step perpetual now s [.mark account now (perpetual.balances account) price] s' := by
  have marks : mark ⟨sender,now⟩ (fun _ => .ok price) perpetual account s = .ok (markAccount now account s) :=
    markOk.mpr ⟨accountUnderwater.mpr ⟨price,rfl,under⟩,rfl⟩
  exact ⟨_,.mark sender _ account price rfl marks⟩

/-- Once the account is marked and as long as nothing clears the mark, everybody passes the check
a waiting period later if and only if every further mark is a waiting period old as well. -/
theorem timelockUnlessMarkedAgain
    (marked : Step perpetual marking start [.mark account marking balance price] s)
    (run : Steps seen s later s') (timely : Timely (.mark account marking balance price::later))
    (kept : ∀ c ∈ later, c.clears account = false)
    (waited : marking.toNat + DELEVERAGING_TIMELOCK_S.toNat ≤ now.toNat) :
    (∀ sender, verifyPermissions now s' sender account = .ok ()) ↔
      ∀ u ∈ markTimes account later, u.toNat + DELEVERAGING_TIMELOCK_S.toNat ≤ now.toNat := by
  rw [everyonePermitted, stepsStamped run kept, markStored marked]
  obtain ⟨positive,ordered⟩ := timely.markTimes account
  have times : markTimes account (.mark account marking balance price::later) =
      marking::markTimes account later := List.filterMap_cons_some (if_pos rfl)
  rw [times] at positive ordered
  constructor
  · rintro ⟨_,enough⟩ u mem
    have latest := lastLatest (List.pairwise_cons.mp ordered).2 mem marking
    omega
  · intro old
    rw [List.getLastD_eq_getLast?]
    cases last : (markTimes account later).getLast? with
    | none => exact ⟨positive marking List.mem_cons_self,waited⟩
    | some u =>
      have mem := List.mem_of_getLast? last
      exact ⟨positive u (List.mem_cons_of_mem _ mem),old u mem⟩

end

theorem markedAgain : ¬ ∀ (perpetual : Storage) (marking now : Uint256) (start s s' : DeleveragingContract)
    (account : Address) (balance : Balance) (price : Uint256) (later : List DeleveragingCall),
    Step perpetual marking start [.mark account marking balance price] s →
    Steps (fun _ _ => True) s later s' → Timely (.mark account marking balance price::later) →
    (∀ c ∈ later, c.clears account = false) →
    marking.toNat + DELEVERAGING_TIMELOCK_S.toNat ≤ now.toNat →
    ∀ sender, verifyPermissions now s' sender account = .ok () := by
  intro claim
  have under : isUnderwater (sampleShort.balances 1) samplePrice = .ok true := by decide +kernel
  obtain ⟨s,first⟩ := marksUnderwater under 100 5 sampleContract
  obtain ⟨s',second⟩ := marksUnderwater under 1899 6 s
  have timely : Timely [.mark 1 100 (sampleShort.balances 1) samplePrice,
      .mark 1 1899 (sampleShort.balances 1) samplePrice] :=
    ⟨by decide +kernel,by decide +kernel⟩
  have passes := claim sampleShort 100 1900 sampleContract s s' 1 _ samplePrice _ first
    (.more .none sampleShort 1899 trivial second) timely (by decide +kernel) (by decide +kernel)
  have waited := everyonePermitted.mp passes
  rw [markStored second] at waited
  exact absurd waited.2 (by decide +kernel)

theorem sampleMarkedOnce : ∃ s, (∀ sender, verifyPermissions 1900 s sender 1 = .ok ()) ∧
    ∃ s', Steps (fun _ _ => True) s [.mark 1 3000 (sampleShort.balances 1) samplePrice] s' ∧
      ¬ ∀ sender, verifyPermissions 3001 s' sender 1 = .ok () := by
  have under : isUnderwater (sampleShort.balances 1) samplePrice = .ok true := by decide +kernel
  obtain ⟨s,first⟩ := marksUnderwater under 100 5 sampleContract
  obtain ⟨s',second⟩ := marksUnderwater under 3000 6 s
  have run : Steps (fun _ _ => True) s [.mark 1 3000 (sampleShort.balances 1) samplePrice] s' :=
    .more .none sampleShort 3000 trivial second
  have still : Steps (fun _ _ => True) s [] s := .none
  have waited : (100 : Uint256).toNat + DELEVERAGING_TIMELOCK_S.toNat ≤ (1900 : Uint256).toNat := by
    decide +kernel
  have waited' : (100 : Uint256).toNat + DELEVERAGING_TIMELOCK_S.toNat ≤ (3001 : Uint256).toNat := by
    decide +kernel
  have once := timelockUnlessMarkedAgain first still ⟨by decide +kernel,by decide +kernel⟩ nofun waited
  have twice := timelockUnlessMarkedAgain first run ⟨by decide +kernel,by decide +kernel⟩
    (by decide +kernel) waited'
  have again : (3000 : Uint256) ∈ markTimes 1 [.mark 1 3000 (sampleShort.balances 1) samplePrice] := by
    decide +kernel
  refine ⟨s,once.mpr nofun,s',run,fun passes => ?_⟩
  exact absurd (twice.mp passes 3000 again) (by decide +kernel)

end P1Deleveraging
end Perpetual
