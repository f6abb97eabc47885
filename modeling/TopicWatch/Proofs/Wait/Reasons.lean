import TopicWatch.Proofs.Wait.Matching
import TopicWatch.Proofs.Wait.Passes
import TopicWatch.Proofs.Wait.Timeline
import TopicWatch.Wait.FailureExpectation

/-!
# Failures for other reasons

A wait for a failure is over as soon as a pass sees a failure of a wanted message, whatever the
reason of the failure is. Only if none of the reasons that the pass sees is an expected one does
the wait fail, and it then gives all of them.
-/

namespace TopicWatch.Wait

open Duration Record

variable {α : Type} (decode : Bytes → Option α) (test : Observed α → Bool)

/-- A failure of a wanted message, as the wait gives it. -/
def observedFailure? (o : Observation) : Option (ObservedFailure α) :=
  (wanted? decode test o).bind fun m =>
    o.reason?.map fun reason => ⟨m.value, m.metadata, reason⟩

namespace FailureExpectation

/-- The failures of wanted messages in a store. -/
def matching (store : Store) : List (ObservedFailure α) :=
  (store.snapshot .failed).filterMap (observedFailure? decode test)

/-- What a pass may answer. A failure for an expected reason comes first, and the others are an
error of their own. The wait goes on only if there is none of either. -/
inductive Answers (e : FailureExpectation) (store : Store) :
    Option (Except Failure (ObservedFailure α)) → Prop
  | expected {m : ObservedFailure α} (hm : m ∈ matching decode test store)
      (hexpected : e.expects m.reason) : Answers e store (some (.ok m))
  | unexpected {reasons : List String} (hsome : matching decode test store ≠ [])
      (hnone : ∀ m ∈ matching decode test store, ¬e.expects m.reason)
      (hreasons : reasons.Perm ((matching decode test store).map fun m => m.reason.display)) :
      Answers e store
        (some (.error (.unexpectedReason e.settings.subject reasons (store.dump .failed))))
  | waits (hnone : matching decode test store = []) : Answers e store none

variable {decode test} {e : FailureExpectation} {store : Store}

theorem test_of_mem_matching {m : ObservedFailure α} (h : m ∈ matching decode test store) :
    test ⟨m.value, m.metadata⟩ := by
  obtain ⟨o, -, hobserved⟩ := List.mem_filterMap.1 h
  obtain ⟨wanted, hwanted, hmap⟩ := Option.bind_eq_some_iff.1 hobserved
  obtain ⟨reason, -, rfl⟩ := Option.map_eq_some_iff.1 hmap
  exact test_of_wanted? hwanted

theorem search_cons_of_none {o : Observation} (h : observedFailure? decode test o = none)
    (rest : List Observation) (reasons : List String) :
    search e (.pure decode test) store (o :: rest) reasons () =
      search e (.pure decode test) store rest reasons () := by
  rw [observedFailure?, wanted?] at h
  rw [search]
  cases hcandidate : (Criterion.pure decode test).candidate? o with
  | none => rfl
  | some m =>
      cases hreason : o.reason? with
      | none => rfl
      | some reason =>
          have htest : test m = false := by simpa [hcandidate, hreason] using h
          simp [Criterion.pure, htest]

theorem search_cons_of_some {o : Observation} {m : ObservedFailure α}
    (h : observedFailure? decode test o = some m) (rest : List Observation)
    (reasons : List String) :
    search e (.pure decode test) store (o :: rest) reasons () =
      if e.expects m.reason then (.ok (some m), ())
      else search e (.pure decode test) store rest (m.reason.display :: reasons) () := by
  obtain ⟨wanted, hwanted, hmap⟩ := Option.bind_eq_some_iff.1 h
  obtain ⟨reason, hreason, rfl⟩ := Option.map_eq_some_iff.1 hmap
  obtain ⟨hcandidate, htest⟩ := Option.filter_eq_some_iff.1 hwanted
  rw [search, hcandidate, hreason]
  simp [Criterion.pure, htest]

/-- The search stops at the first failure for an expected reason. If there is none it has kept
every reason. -/
theorem search_pure (records : List Observation) (reasons : List String) :
    search e (.pure decode test) store records reasons () =
      (match (records.filterMap (observedFailure? decode test)).find?
          fun m => e.expects m.reason with
        | some m => .ok (some m)
        | none =>
            match reasons.reverse ++ (records.filterMap
                (observedFailure? decode test)).map fun m => m.reason.display with
            | [] => .ok none
            | all => .error (.unexpectedReason e.settings.subject all (store.dump .failed)),
        ()) := by
  induction records generalizing reasons with
  | nil => cases reasons <;> simp [search]
  | cons o rest ih =>
      cases h : observedFailure? decode test o with
      | none => rw [search_cons_of_none h, ih, List.filterMap_cons_none h]
      | some m =>
          rw [search_cons_of_some h, List.filterMap_cons_some h, List.find?_cons]
          cases hexpected : e.expects m.reason with
          | true => rfl
          | false =>
              rw [if_neg Bool.false_ne_true, ih, List.reverse_cons, List.map_cons,
                List.append_assoc, List.singleton_append]

/-- What a pass answers over a store, whatever the order in which it meets the failures. -/
theorem answers_evaluate {order : Order} (horder : order.Rearranges) :
    Answers decode test e store (verdict (e.evaluate (.pure decode test) order store ())).1 := by
  have hperm : ((order .failed (store.snapshot .failed)).filterMap
      (observedFailure? decode test)).Perm (matching decode test store) :=
    (horder .failed _).filterMap _
  rw [evaluate, search_pure, List.reverse_nil, List.nil_append]
  cases hfind : ((order .failed (store.snapshot .failed)).filterMap
      (observedFailure? decode test)).find? fun m => e.expects m.reason with
  | some m =>
      have hm := hperm.mem_iff.1 (List.mem_of_find?_eq_some hfind)
      have hexpected : e.expects m.reason = true := by simpa using List.find?_some hfind
      exact .expected hm hexpected
  | none =>
      have hnone : ∀ m ∈ matching decode test store, ¬e.expects m.reason :=
        fun m hm => List.find?_eq_none.1 hfind m (hperm.mem_iff.2 hm)
      have hreasons := hperm.map fun m => m.reason.display
      -- no reason was kept exactly when there is no failure at all
      generalize ((order .failed (store.snapshot .failed)).filterMap
        (observedFailure? decode test)).map (fun m => m.reason.display) = reasons at hreasons
      cases reasons with
      | nil => exact .waits (List.map_eq_nil_iff.1 (List.nil_perm.1 hreasons))
      | cons reason rest =>
          refine .unexpected (fun hempty => ?_) hnone hreasons
          rw [hempty, List.map_nil, List.perm_nil] at hreasons
          cases hreasons

/-- A pass leaves a wait open exactly when it sees no failure of a wanted message. -/
theorem Answers.eq_none_iff {answer : Option (Except Failure (ObservedFailure α))}
    (h : Answers decode test e store answer) :
    answer = none ↔ matching decode test store = [] := by
  cases h with
  | expected hm _ => simp [List.ne_nil_of_mem hm]
  | unexpected hsome _ _ => simp [hsome]
  | waits hnone => simp [hnone]

/-- No pass decides that nothing matches in time. -/
theorem Answers.isTimeout_eq_false {failure : Failure}
    (h : Answers decode test e store (some (.error failure))) : failure.isTimeout = false := by
  cases h
  rfl

theorem matching_subset_of_within {store' : Store} (h : store.Within store') :
    matching decode test store ⊆ matching decode test store' :=
  List.filterMap_subset _ (h.snapshot .failed).subset

variable (decode test e) (order : Nat → Order) (world : Nat → Store)

/-- What the pass at an instant decides. -/
def decision (now : Nat) : Option (Except Failure (ObservedFailure α)) :=
  (verdict (e.evaluate (.pure decode test) (order now) (world now) ())).1

theorem run_pure (start : Nat) :
    (e.run (.pure decode test) order world none start ()).1 =
      outcome? (fun t => e.settings.timedOut (world t) (t - start))
        ((e.settings.pace start).runForgetful (e.decision decode test order world) start) := rfl

variable {decode test e order} in
/-- A wait is over at once if there is a failure for an expected reason. -/
theorem run_of_expected {start : Nat} (horder : (order start).Rearranges) {m : ObservedFailure α}
    (hm : m ∈ matching decode test (world start)) (hexpected : e.expects m.reason) :
    ∃ found ∈ matching decode test (world start),
      (e.run (.pure decode test) order world none start ()).1 = some ⟨start, .ok found⟩ := by
  have hanswers : Answers decode test e (world start) (e.decision decode test order world start) :=
    answers_evaluate horder
  rw [run_pure]
  generalize hdecision : e.decision decode test order world start = answer at hanswers
  cases hanswers with
  | expected hfound _ =>
      rw [Pace.runForgetful_of_some hdecision]
      exact ⟨_, hfound, rfl⟩
  | unexpected _ hnone _ => exact absurd hexpected (hnone m hm)
  | waits hnone =>
      rw [hnone] at hm
      cases hm

/-- A wait ends in the first pass that sees a failure of a wanted message, or in the last pass
if none sees one. -/
theorem outcome_cases (horder : ∀ now, (order now).Rearranges) (start : Nat) :
    let p := e.settings.pace start
    let outcome := (e.run (.pure decode test) order world none start ()).1
    (∃ now ∈ p.passes, matching decode test (world now) ≠ [] ∧
        (∀ earlier ∈ p.passes, earlier < now → matching decode test (world earlier) = []) ∧
        ∃ result, outcome = some ⟨now, result⟩ ∧
          Answers decode test e (world now) (some result)) ∨
      (∀ now ∈ p.passes, matching decode test (world now) = []) ∧
        outcome = some ⟨p.lastPass,
          .error (e.settings.timedOut (world p.lastPass) (p.lastPass - start))⟩ := by
  intro p outcome
  have hanswers : ∀ now,
      Answers decode test e (world now) (e.decision decode test order world now) :=
    fun now => answers_evaluate (horder now)
  have hrun : outcome = _ := run_pure decode test e order world start
  rw [hrun]
  obtain ⟨now, hpass, result, hresult, hfirst, hended⟩ | ⟨hall, hended⟩ :=
    p.runForgetful_cases (e.decision decode test order world) start
  · refine Or.inl ⟨now, hpass, ?_, ?_, result, ?_, hresult ▸ hanswers now⟩
    · intro hempty
      rw [(hanswers now).eq_none_iff.2 hempty] at hresult
      cases hresult
    · exact fun earlier hmem hlt => (hanswers earlier).eq_none_iff.1 (hfirst earlier hmem hlt)
    · rw [hended]
      rfl
  · refine Or.inr ⟨fun now hpass => (hanswers now).eq_none_iff.1 (hall now hpass), ?_⟩
    rw [hended]
    rfl

end FailureExpectation

open FailureExpectation (matching Answers)

/-- A failure for the wrong reason is never silent. A wait for a failure ends in the first pass
that sees a failure of a wanted message. It ends well if the reason of such a failure is an
expected one, or any reason is, and gives the value, the context and the reason of one such
failure. If none is expected it fails with the reasons of all of them. Nothing matches in time
exactly when no pass sees such a failure at all, and over a timeline that only adds records it
is enough that the last pass sees none. -/
theorem first_failure_decides (e : FailureExpectation) (order : Nat → Order) (world : Nat → Store)
    (start : Nat) (horder : ∀ now, (order now).Rearranges) :
    let p := e.settings.pace start
    let sees := fun now => matching decode test (world now) ≠ []
    let outcome := (e.run (.pure decode test) order world none start ()).1
    (∀ now ∈ p.passes, sees now → (∀ earlier ∈ p.passes, earlier < now → ¬sees earlier) →
        ∃ result, outcome = some ⟨now, result⟩ ∧
          Answers decode test e (world now) (some result)) ∧
      ((∀ now ∈ p.passes, ¬sees now) → outcome = some ⟨p.lastPass,
        .error (e.settings.timedOut (world p.lastPass) (p.lastPass - start))⟩) ∧
      ((∃ now failure, outcome = some ⟨now, .error failure⟩ ∧ failure.isTimeout) ↔
        ∀ now ∈ p.passes, ¬sees now) ∧
      ∀ (t : Timeline) (before : Store), t.AppendsTo before → world = t.storeAt before →
        ((∀ now ∈ p.passes, ¬sees now) ↔ ¬sees p.lastPass) := by
  intro p sees outcome
  have hcases := FailureExpectation.outcome_cases decode test e order world horder start
  refine ⟨?_, ?_, ?_, ?_⟩
  · intro now hpass hsees hfirst
    obtain ⟨first, hmem, hsome, hbefore, hended⟩ | ⟨hall, -⟩ := hcases
    · obtain hlt | rfl | hlt := Nat.lt_trichotomy first now
      · exact absurd hsome (hfirst first hmem hlt)
      · exact hended
      · exact absurd (hbefore now hpass hlt) hsees
    · exact absurd (hall now hpass) hsees
  · intro hnone
    obtain ⟨now, hpass, hsome, -⟩ | ⟨-, hended⟩ := hcases
    · exact absurd hsome (hnone now hpass)
    · exact hended
  · obtain ⟨now, hpass, hsome, -, result, hended, hanswers⟩ | ⟨hall, hended⟩ := hcases
    · refine iff_of_false ?_ fun hnone => hnone now hpass hsome
      rintro ⟨now', failure, hfailed, htimeout⟩
      rw [show outcome = _ from hended] at hfailed
      cases hfailed
      rw [hanswers.isTimeout_eq_false] at htimeout
      cases htimeout
    · exact iff_of_true ⟨_, _, hended, rfl⟩ fun now hpass => not_not.2 (hall now hpass)
  · rintro t before ht rfl
    constructor
    · exact fun hnone => hnone _ (p.lastFrom_mem p.start)
    · intro hlast now hpass hsees
      obtain ⟨m, hm⟩ := List.exists_mem_of_ne_nil _ hsees
      have hwithin := ht.within (Pace.le_lastFrom hpass)
      exact hlast (List.ne_nil_of_mem
        (FailureExpectation.matching_subset_of_within hwithin hm))

/-- A failure for a wrong reason comes a pass before one for the expected reason. -/
theorem first_failure_decides_before_expected :
    let t : Timeline := [
      (60 * millisecond, [.record (.failed ⟨"f1", "orders.DLT", [0x31], none, .empty, none, none,
        ⟨"TimeoutException", "no reply"⟩⟩)]),
      (120 * millisecond, [.record (.failed ⟨"f2", "orders.DLT", [0x31], none, .empty, none, none,
        ⟨"Refused", "no stock"⟩⟩)])]
    let e : FailureExpectation := ⟨⟨.failed, "order", 5 * second, 50 * millisecond, false, 1⟩,
      some fun reason => reason.kind == "Refused"⟩
    let world := t.storeAt .empty
    (e.run (.pure some fun _ : Observed Bytes => true) (fun _ => .stored) world none 0 ()).1 =
      some ⟨100 * millisecond, .error (.unexpectedReason "order" ["TimeoutException: no reply"]
        ((world (100 * millisecond)).dump .failed))⟩ := by
  intro t e world
  let p := e.settings.pace 0
  have hpasses : p.passes = 0 :: 50 * millisecond :: p.passesFrom (100 * millisecond) := by
    have hfirst : p.next? 0 = some (50 * millisecond) := by decide
    have hsecond : p.next? (50 * millisecond) = some (100 * millisecond) := by decide
    rw [Pace.passes, show p.start = 0 from rfl, Pace.passesFrom_of_some hfirst,
      Pace.passesFrom_of_some hsecond]
  have hpass : 100 * millisecond ∈ p.passes := by
    rw [hpasses]
    simp [p.self_mem_passesFrom]
  have hearlier : ∀ earlier ∈ p.passes, earlier < 100 * millisecond →
      ¬matching some (fun _ => true) (world earlier) ≠ [] := by
    rw [hpasses]
    intro earlier hmem hlt
    obtain rfl | rfl | hmem := by simpa only [List.mem_cons] using hmem
    · decide
    · decide
    · exact absurd (Pace.le_of_mem_passesFrom hmem) (Nat.not_le.2 hlt)
  have hseen : matching some (fun _ => true) (world (100 * millisecond)) =
      [⟨[0x31], ⟨"orders.DLT", none, .empty, none, none⟩, ⟨"TimeoutException", "no reply"⟩⟩] := by
    decide
  obtain ⟨hfirst, -⟩ := first_failure_decides some (fun _ : Observed Bytes => true) e
    (fun _ => .stored) world 0 fun _ => Order.rearranges_stored
  obtain ⟨result, hrun, hanswers⟩ := hfirst _ hpass (by simp [hseen]) hearlier
  rw [hrun]
  cases hanswers with
  | expected hm hexpected =>
      rw [hseen, List.mem_singleton] at hm
      subst hm
      exact absurd hexpected (by decide)
  | unexpected _ _ hreasons =>
      rw [hseen, List.map_singleton, List.perm_singleton] at hreasons
      rw [hreasons]
      rfl

end TopicWatch.Wait
