import TopicWatch.Proofs.Wait.Arrival

/-!
# The race between delivery and failure

A wait for a delivered message is over as soon as a pass sees a failure of a wanted message or
enough messages that count. Where a pass sees both, the failure wins.
-/

namespace TopicWatch.Wait

open Duration Record

variable {α : Type} (decode : Bytes → Option α) (test : Observed α → Bool)

/-- What a pass over a store may end a wait for a delivered message with: the reason of a
failure of a wanted message, or, where there is none, one of enough messages that count. -/
def Expectation.DecidesRace (e : Expectation) (store : Store)
    (result : Except Failure (Observed α)) : Prop :=
  (∃ reason ∈ failures decode test store,
    result = .error (.failedInstead e.subject reason (store.dump .failed))) ∨
  (failures decode test store = [] ∧ e.Met decode test store ∧
    ∃ m ∈ e.matching decode test store, result = .ok m)

variable {e : Expectation} {order : Nat → Order} {t : Timeline} {before : Store} {start : Nat}

theorem settles_of_consumed (hkind : e.kind = .consumed) (horder : ∀ now, (order now).Rearranges)
    (ht : t.AppendsTo before) (htick : millisecond ∣ start) :
    Settles (e.pace start)
      (fun now => failures decode test (t.storeAt before now) ≠ [] ∨
        e.Met decode test (t.storeAt before now))
      (fun now => e.DecidesRace decode test (t.storeAt before now))
      (fun now => e.timedOut (t.storeAt before now) (now - start))
      (e.run (.pure decode test) order (t.storeAt before) none start ()).1 := by
  have hfailing : ∀ store, e.failing decode test store = failures decode test store :=
    fun _ => if_pos hkind
  refine (e.settles_of_appends decode test horder ht htick).imp ?_ ?_
  · intro now
    rw [hfailing]
  · intro now result hanswers
    cases hanswers with
    | failed hreason => exact Or.inl ⟨_, hfailing _ ▸ hreason, rfl⟩
    | met hnone hmet hm => exact Or.inr ⟨hfailing _ ▸ hnone, hmet, _, hm, rfl⟩

/-- A wait for a delivered message that begins at a whole millisecond, over a timeline that only
adds records, is decided by the first pass that sees a failure of a wanted message or enough
messages that count. It fails for the reason of such a failure if there is one at that pass,
and ends well only if there is none. So a failure ends it less than an interval after it came,
if the last pass is not before it. Nothing matches in time exactly when the last pass sees
neither. -/
theorem failure_wins_race (e : Expectation) (order : Nat → Order) (t : Timeline) (before : Store)
    (tick : Nat) (hkind : e.kind = .consumed) (horder : ∀ now, (order now).Rearranges)
    (ht : t.AppendsTo before) :
    let start := tick * millisecond
    let world := t.storeAt before
    let outcome := (e.run (.pure decode test) order world none start ()).1
    Settles (e.pace start)
        (fun now => failures decode test (world now) ≠ [] ∨ e.Met decode test (world now))
        (fun now => e.DecidesRace decode test (world now))
        (fun now => e.timedOut (world now) (now - start)) outcome ∧
      (∀ now m, outcome = some ⟨now, .ok m⟩ → failures decode test (world now) = []) ∧
      ∀ since, start ≤ since → since ≤ wholeMillisecond (e.pace start).deadline →
        failures decode test (world since) ≠ [] →
        ∃ now result, outcome = some ⟨now, result⟩ ∧
          now < since + wholeMillisecond (e.pace start).step := by
  intro start world outcome
  have hsettles := settles_of_consumed decode test hkind horder ht
    (Nat.dvd_mul_left millisecond tick)
  refine ⟨hsettles, ?_, ?_⟩
  · intro now m houtcome
    by_cases hlast : failures decode test (world (wholeMillisecond (e.pace start).deadline)) ≠ [] ∨
        e.Met decode test (world (wholeMillisecond (e.pace start).deadline))
    · obtain ⟨now', result, hdecided, -, hadmits⟩ := hsettles.decided hlast
      rw [show outcome = _ from hdecided] at houtcome
      cases houtcome
      obtain ⟨reason, -, hresult⟩ | ⟨hnone, -, -⟩ := hadmits
      · cases hresult
      · exact hnone
    · rw [show outcome = _ from hsettles.expired hlast] at houtcome
      cases houtcome
  · intro since hstart hlast hfails
    have hend : failures decode test (world (wholeMillisecond (e.pace start).deadline)) ≠ [] := by
      obtain ⟨reason, hreason⟩ := List.exists_mem_of_ne_nil _ hfails
      exact List.ne_nil_of_mem (failures_subset_of_within (ht.within hlast) hreason)
    obtain ⟨now, result, houtcome, hseen, -⟩ := hsettles.decided (Or.inl hend)
    exact ⟨now, result, houtcome, hseen.prompt since hstart (Or.inl hfails)⟩

/-- A message is delivered and then fails between two passes, while a second one is waited
for. -/
theorem failure_wins_race_between_passes :
    let t : Timeline := [
      (60 * millisecond, [.record (.consumed ⟨"d", "orders", 0, 7, [0x31], none, .empty⟩)]),
      (90 * millisecond, [.record (.failed ⟨"f", "orders.DLT", [0x31], none, .empty, some 0, some 3,
        ⟨"TimeoutException", "no reply"⟩⟩)])]
    let e : Expectation := ⟨.consumed, "order", 5 * second, 50 * millisecond, false, 2⟩
    let world := t.storeAt .empty
    e.kind = .consumed ∧ t.AppendsTo .empty ∧
      ∃ now result, (e.run (.pure some fun m : Observed Bytes => m.value == [0x31])
          (fun _ => .stored) world none 0 ()).1 = some ⟨now, result⟩ ∧
        now < 140 * millisecond := by
  intro t e world
  have ht : t.AppendsTo .empty := by decide
  obtain ⟨-, -, hprompt⟩ := failure_wins_race some (fun m : Observed Bytes => m.value == [0x31]) e
    (fun _ => .stored) t .empty 0 rfl (fun _ => Order.rearranges_stored) ht
  have hstart : 0 * millisecond = 0 := rfl
  rw [hstart] at hprompt
  obtain ⟨now, result, hrun, hlt⟩ := hprompt (90 * millisecond) (by decide) (by decide) (by decide)
  have hnext : 90 * millisecond + wholeMillisecond (e.pace 0).step = 140 * millisecond := by decide
  exact ⟨rfl, ht, now, result, hrun, hnext ▸ hlt⟩

end TopicWatch.Wait
