import TopicWatch.Proofs.Wait.Settling
import TopicWatch.Proofs.Wait.Timeline
import TopicWatch.Wait.Commit

/-!
# Waiting for records to arrive

Waits over a store that records are filed in while they last. No success is false and no
failure is: a wait succeeds exactly when what it waits for is in the store by its last pass.
-/

namespace TopicWatch.Wait

open Duration Record

variable {t : Timeline} {before : Store}

namespace Expectation

variable {α : Type} (decode : Bytes → Option α) (test : Observed α → Bool) (e : Expectation)
  {order : Nat → Order}

/-- An expectation over a store that only grows settles on a failure that ends it or on enough
messages that count, whichever a pass sees first. -/
theorem settles_of_appends (horder : ∀ now, (order now).Rearranges) (ht : t.AppendsTo before)
    {start : Nat} (htick : millisecond ∣ start) :
    Settles (e.pace start)
      (fun now => e.failing decode test (t.storeAt before now) ≠ [] ∨
        e.Met decode test (t.storeAt before now))
      (fun now result => e.Answers decode test (t.storeAt before now) (some result))
      (fun now => e.timedOut (t.storeAt before now) (now - start))
      (e.run (.pure decode test) order (t.storeAt before) none start ()).1 := by
  have hanswers : ∀ now, e.Answers decode test (t.storeAt before now)
      (e.decision decode test order (t.storeAt before) now) :=
    fun now => answers_evaluate (horder now)
  rw [run_pure]
  apply settles_of_monotone (p := e.pace start) htick
  · intro now later hle
    have hwithin := ht.within hle
    rintro (hfails | hmet)
    · obtain ⟨reason, hreason⟩ := List.exists_mem_of_ne_nil _ hfails
      exact Or.inl (List.ne_nil_of_mem (failing_subset_of_within hwithin hreason))
    · exact Or.inr (hmet.of_within hwithin)
  · intro now
    rw [(hanswers now).eq_none_iff, not_or, not_not]
  · intro now result hresult
    exact hresult ▸ hanswers now

/-- Other messages than delivered ones do not fail instead. -/
theorem failing_of_ne (hkind : e.kind ≠ .consumed) (store : Store) :
    e.failing decode test store = [] :=
  if_neg hkind

theorem settles_of_ne (hkind : e.kind ≠ .consumed) (horder : ∀ now, (order now).Rearranges)
    (ht : t.AppendsTo before) {start : Nat} (htick : millisecond ∣ start) :
    Settles (e.pace start)
      (fun now => e.Met decode test (t.storeAt before now))
      (fun now result => ∃ m ∈ e.matching decode test (t.storeAt before now), result = .ok m)
      (fun now => e.timedOut (t.storeAt before now) (now - start))
      (e.run (.pure decode test) order (t.storeAt before) none start ()).1 := by
  refine (settles_of_appends decode test e horder ht htick).imp ?_ ?_
  · intro now
    simp [failing_of_ne decode test e hkind]
  · intro now result hanswers
    cases hanswers with
    | failed hreason =>
        rw [failing_of_ne decode test e hkind] at hreason
        cases hreason
    | met _ _ hm => exact ⟨_, hm, rfl⟩

end Expectation

/-- A wait for a commit over a store that only grows settles on the commit. -/
theorem CommitExpectation.settles_of_appends (e : CommitExpectation) (ht : t.AppendsTo before)
    {start : Nat} (htick : millisecond ∣ start) :
    Settles ⟨start, e.timeout, e.interval⟩
      (fun now => (t.storeAt before now).isCommitted e.topic e.partition e.offset)
      (fun _ result => result = .ok ())
      (fun now => e.timedOut (t.storeAt before now) (now - start))
      (e.run (t.storeAt before) none start) := by
  have hrun : e.run (t.storeAt before) none start =
      outcome? (fun now => e.timedOut (t.storeAt before now) (now - start))
        ((Pace.mk start e.timeout e.interval).runForgetful
          (fun now => (verdict (.ok (e.evaluate (t.storeAt before now)), ())).1) start) := rfl
  rw [hrun]
  apply settles_of_monotone (p := ⟨start, e.timeout, e.interval⟩) htick
  · intro now later hle
    exact (ht.within hle).committed _ _ _
  · intro now
    rw [evaluate]
    split <;> simp_all [verdict]
  · intro now result
    rw [evaluate]
    split
    · intro h
      exact (Option.some.inj h).symm
    · intro h
      cases h

/-- Neither success nor failure of a wait is false. A wait that begins at a whole millisecond,
over a timeline that only adds records, ends well exactly when enough messages count in the
store of its last pass, which is the first whole millisecond not before its deadline. It then
ends in the first pass that sees them, less than an interval after the last one arrived, and
gives one of them. Otherwise nothing matches in time. The same holds for a place that is to be
committed. -/
theorem arrival_decides_wait {α : Type} (decode : Bytes → Option α) (test : Observed α → Bool)
    (e : Expectation) (order : Nat → Order) (t : Timeline) (before : Store) (tick : Nat)
    (hkind : e.kind ≠ .consumed) (horder : ∀ now, (order now).Rearranges)
    (ht : t.AppendsTo before) :
    let start := tick * millisecond
    let world := t.storeAt before
    Settles (e.pace start)
        (fun now => e.Met decode test (world now))
        (fun now result => ∃ m ∈ e.matching decode test (world now), result = .ok m)
        (fun now => e.timedOut (world now) (now - start))
        (e.run (.pure decode test) order world none start ()).1 ∧
      ∀ c : CommitExpectation,
        Settles ⟨start, c.timeout, c.interval⟩
          (fun now => (world now).isCommitted c.topic c.partition c.offset)
          (fun _ result => result = .ok ())
          (fun now => c.timedOut (world now) (now - start))
          (c.run world none start) := by
  intro start world
  have htick : millisecond ∣ start := Nat.dvd_mul_left millisecond tick
  constructor
  · exact e.settles_of_ne decode test hkind horder ht htick
  · intro c
    exact c.settles_of_appends ht htick

/-- The second of two wanted messages and the commit arrive between the last two passes. -/
theorem arrival_decides_wait_before_deadline :
    let t : Timeline := [
      (30 * millisecond, [.record (.acknowledged ⟨"a1", "orders", [0x31]⟩)]),
      (120 * millisecond, [.record (.acknowledged ⟨"a2", "orders", [0x31]⟩)]),
      (125 * millisecond, [.record (.committed ⟨"c", "orders", 0, 8, ""⟩)])]
    let e : Expectation := ⟨.acknowledged, "order", 127 * millisecond, 50 * millisecond, false, 2⟩
    let c : CommitExpectation := ⟨"orders", 0, 7, 127 * millisecond, 50 * millisecond⟩
    let world := t.storeAt .empty
    e.kind ≠ .consumed ∧ t.AppendsTo .empty ∧
      (∃ now m, (e.run (.pure some fun _ => true) (fun _ => .stored) world none
          (3 * millisecond) ()).1 = some ⟨now, .ok m⟩ ∧ now < 170 * millisecond) ∧
      ∃ now, c.run world none (3 * millisecond) = some ⟨now, .ok ()⟩ := by
  intro t e c world
  have hkind : e.kind ≠ .consumed := by decide
  have ht : t.AppendsTo .empty := by decide
  obtain ⟨hmessage, hcommit⟩ := arrival_decides_wait some (fun _ => true) e (fun _ => .stored) t
    .empty 3 hkind (fun _ => Order.rearranges_stored) ht
  refine ⟨hkind, ht, ?_, ?_⟩
  · obtain ⟨now, _, hrun, hseen, m, -, rfl⟩ := hmessage.decided (by decide)
    have hprompt := hseen.prompt (120 * millisecond) (by decide) (by decide)
    have hnext : 120 * millisecond + wholeMillisecond (e.pace (3 * millisecond)).step =
        170 * millisecond := by decide
    exact ⟨now, m, hrun, hnext ▸ hprompt⟩
  · obtain ⟨now, _, hrun, -, rfl⟩ := (hcommit c).decided (by decide)
    exact ⟨now, hrun⟩

/-- A deadline beyond the end of the clock is not kept: what arrives after the longest wait
there is, and long before the deadline, is not seen. -/
theorem arrival_beyond_clock :
    let e : Expectation := ⟨.published, "order", 18446744073709551615 * second + 999999999,
      946080002 * second, false, 1⟩
    let t : Timeline := [(946080001 * second,
      [.record (.published ⟨"p001", "orders", [0x31], none, .empty⟩)])]
    let world := t.storeAt .empty
    t.AppendsTo .empty ∧
      e.Met some (fun _ => true) (world (wholeMillisecond (0 + e.timeout))) ∧
      (e.run (.pure some fun _ => true) (fun _ => .stored) world none 0 ()).1 =
        some ⟨946080000 * second, .error (e.timedOut .empty (946080000 * second))⟩ := by
  intro e t world
  have ht : t.AppendsTo .empty := by decide
  have hlast : wholeMillisecond (e.pace 0).deadline = 946080000 * second := by decide
  have hworld : world (946080000 * second) = .empty := by decide
  have hsettles := e.settles_of_ne some (fun _ => true) (by decide)
    (fun _ => Order.rearranges_stored) ht (Nat.dvd_zero millisecond)
  refine ⟨ht, by decide, ?_⟩
  have hexpired := hsettles.expired (by rw [hlast]; decide)
  rw [hlast] at hexpired
  exact hworld ▸ hexpired

end TopicWatch.Wait
