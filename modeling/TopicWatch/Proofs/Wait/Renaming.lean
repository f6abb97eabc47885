import TopicWatch.Proofs.Sink.Renaming
import TopicWatch.Proofs.Wait.Pacing
import TopicWatch.Proofs.Wait.Reasons

/-!
# Waits and ids

What a pass decides depends on what the records are, on how many of them there are and on what
is committed, but not on their ids, and so not on the order that the ids give to the records.
-/

namespace TopicWatch.Wait

open Record Topic Sink

/-- The ways in which a wait ends. -/
inductive Variant where
  | met
  | timeout
  | condition
  | unexpectedReason
  | failedInstead
  deriving DecidableEq

/-- The way in which a wait ends that fails. -/
def Failure.variant : Failure → Variant
  | timeout .. => .timeout
  | condition .. => .condition
  | unexpectedReason .. => .unexpectedReason
  | failedInstead .. => .failedInstead

/-- The way in which a wait ends with a result. -/
def Variant.of {β : Type} : Except Failure β → Variant
  | .ok _ => met
  | .error failure => failure.variant

/-- When a wait ended, and in which way. -/
def Outcome.ended {β : Type} (outcome : Outcome β) : Nat × Variant :=
  (outcome.instant, .of outcome.result)

/-- Waits end alike whose passes decide alike. -/
theorem ended_run {β : Type} {p : Pace} {drop : Option Nat}
    {pass pass' : Nat → Unit → Option (Except Failure β) × Unit} (timedOut timedOut' : Nat → Failure)
    (hpass : ∀ now, (pass' now ()).1.map Variant.of = (pass now ()).1.map Variant.of)
    (htimedOut : ∀ t, (timedOut' t).variant = (timedOut t).variant) (now : Nat) :
    (outcome? timedOut' (p.run drop pass' now ()).1).map Outcome.ended =
      (outcome? timedOut (p.run drop pass now ()).1).map Outcome.ended := by
  have hstep := hpass now
  induction now using p.passesFrom_induction with
  | last now hnext =>
      rw [Pace.run_eq, Pace.run_eq, hnext]
      split
      · revert hstep
        cases (pass' now ()).1 <;> cases (pass now ()).1 <;> intro hstep
        case none.none => exact congrArg (fun v => some (now, v)) (htimedOut now)
        case some.some => exact congrArg (Option.map (now, ·)) hstep
        all_goals cases hstep
      · rfl
  | next now later hnext ih =>
      rw [Pace.run_eq, Pace.run_eq, hnext]
      split
      · revert hstep
        cases (pass' now ()).1 <;> cases (pass now ()).1 <;> intro hstep
        case none.none => exact ih (hpass later)
        case some.some => exact congrArg (Option.map (now, ·)) hstep
        all_goals cases hstep
      · rfl

variable {α : Type} {decode : Bytes → Option α} {test : Observed α → Bool} {f : String → String}
  {s s' : Store}

theorem wanted?_rename (o : Observation) :
    wanted? decode test (o.rename f) = wanted? decode test o := by
  rw [wanted?, wanted?, Criterion.candidate?, Criterion.candidate?, o.payload?_rename,
    o.metadata_rename]

/-- What is looked for in the records of stores that correspond is found alike. -/
theorem perm_filterMap_of_corresponds {β : Type} (h : s.Corresponds f s') (kind : Record.Kind)
    {find find' : Observation → Option β} (hfind : ∀ o, find' (o.rename f) = find o) :
    ((s'.snapshot kind).filterMap find').Perm ((s.snapshot kind).filterMap find) := by
  have hrenamed : ((s.snapshot kind).map (Observation.rename f)).filterMap find' =
      (s.snapshot kind).filterMap find := by
    rw [List.filterMap_map]
    exact List.filterMap_congr fun o _ => hfind o
  exact hrenamed ▸ (h.snapshot kind).filterMap find'

namespace Expectation

variable {e : Expectation}

theorem isCommitted_of_corresponds (h : s.Corresponds f s') (m : Metadata) :
    isCommitted s' m = isCommitted s m := by
  obtain ⟨topic, key, headers, partition, offset⟩ := m
  cases partition with
  | none => rfl
  | some partition =>
      cases offset with
      | none => rfl
      | some offset => exact h.committed topic partition offset

theorem matching_perm (h : s.Corresponds f s') :
    (e.matching decode test s').Perm (e.matching decode test s) := by
  apply perm_filterMap_of_corresponds h
  intro o
  rw [counted?, counted?, wanted?_rename]
  simp only [isCommitted_of_corresponds h]

theorem failing_perm (h : s.Corresponds f s') :
    (e.failing decode test s').Perm (e.failing decode test s) := by
  rw [failing, failing]
  split
  · apply perm_filterMap_of_corresponds h
    intro o
    rw [failure?, failure?, wanted?_rename, o.reason?_rename]
  · exact .nil

/-- The way in which a pass ends a wait, if it does. -/
theorem Answers.variant {answer : Option (Except Failure (Observed α))}
    (h : e.Answers decode test s answer) :
    answer.map Variant.of =
      if e.failing decode test s ≠ [] then some .failedInstead
      else if e.Met decode test s then some .met else none := by
  cases h with
  | failed hreason => rw [if_pos (List.ne_nil_of_mem hreason)]; rfl
  | met hnone hmet _ => rw [if_neg (not_not_intro hnone), if_pos hmet]; rfl
  | waits hnone hmet => rw [if_neg (not_not_intro hnone), if_neg hmet]; rfl

/-- A pass decides alike over stores that correspond, whatever order it meets the records in. -/
theorem variant_evaluate (h : s.Corresponds f s') {order order' : Order}
    (horder : order.Rearranges) (horder' : order'.Rearranges) :
    (verdict (e.evaluate (.pure decode test) order' s' ())).1.map Variant.of =
      (verdict (e.evaluate (.pure decode test) order s ())).1.map Variant.of := by
  have hfailing : e.failing decode test s' = [] ↔ e.failing decode test s = [] := by
    rw [← List.length_eq_zero_iff, (failing_perm h).length_eq, List.length_eq_zero_iff]
  have hmet : e.Met decode test s' ↔ e.Met decode test s := by
    rw [Met, Met, (matching_perm h).length_eq]
  rw [(answers_evaluate horder).variant, (answers_evaluate horder').variant]
  simp only [ne_eq, hfailing, hmet]

end Expectation

namespace FailureExpectation

variable {e : FailureExpectation}

theorem matching_perm (h : s.Corresponds f s') :
    (matching decode test s').Perm (matching decode test s) := by
  apply perm_filterMap_of_corresponds h
  intro o
  rw [observedFailure?, observedFailure?, wanted?_rename, o.reason?_rename]

/-- The way in which a pass ends a wait, if it does. -/
theorem Answers.variant {answer : Option (Except Failure (ObservedFailure α))}
    (h : Answers decode test e s answer) :
    answer.map Variant.of =
      if ∃ m ∈ matching decode test s, e.expects m.reason then some .met
      else if matching decode test s ≠ [] then some .unexpectedReason else none := by
  cases h with
  | expected hm hexpected => rw [if_pos ⟨_, hm, hexpected⟩]; rfl
  | unexpected hsome hnone _ =>
      rw [if_neg fun ⟨m, hm, hexpected⟩ => hnone m hm hexpected, if_pos hsome]
      rfl
  | waits hnone =>
      rw [hnone, if_neg (by simp), if_neg (not_not_intro rfl)]
      rfl

/-- A pass decides alike over stores that correspond, whatever order it meets the failures in. -/
theorem variant_evaluate (h : s.Corresponds f s') {order order' : Order}
    (horder : order.Rearranges) (horder' : order'.Rearranges) :
    (verdict (e.evaluate (.pure decode test) order' s' ())).1.map Variant.of =
      (verdict (e.evaluate (.pure decode test) order s ())).1.map Variant.of := by
  have hperm : (matching decode test s').Perm (matching decode test s) := matching_perm h
  have hempty : matching decode test s' = [] ↔ matching decode test s = [] := by
    rw [← List.length_eq_zero_iff, hperm.length_eq, List.length_eq_zero_iff]
  rw [(answers_evaluate horder).variant, (answers_evaluate horder').variant]
  simp only [ne_eq, hempty, hperm.mem_iff]

end FailureExpectation

/-- The inputs of a store with the instants at which they come. -/
abbrev Schedule := List (Nat × List Input)

namespace Schedule

/-- All inputs of a schedule, in order. -/
def inputs (t : Schedule) : List Input := t.flatMap Prod.snd

/-- A schedule with other ids. -/
def rename (f : String → String) (t : Schedule) : Schedule :=
  t.map fun entry => (entry.1, entry.2.map (Input.rename f))

/-- The part of a schedule that comes at an instant or before. -/
def upTo (t : Schedule) (now : Nat) : Schedule := t.filter fun entry => decide (entry.1 ≤ now)

/-- The store at an instant. -/
def storeAt (suffixes : Suffixes) (t : Schedule) (now : Nat) : Store :=
  Input.enterAll suffixes .empty (t.upTo now).inputs

theorem inputs_rename (t : Schedule) : (t.rename f).inputs = t.inputs.map (Input.rename f) := by
  rw [inputs, inputs, rename, List.flatMap_map, List.map_flatMap]

theorem corresponds_storeAt {suffixes : Suffixes} {t : Schedule}
    (hf : {id | id ∈ t.inputs.flatMap Input.ids}.InjOn f) (now : Nat) :
    (t.storeAt suffixes now).Corresponds f ((t.rename f).storeAt suffixes now) := by
  have hrename : (t.rename f).upTo now = (t.upTo now).rename f := List.filter_map
  rw [storeAt, storeAt, hrename, inputs_rename]
  refine corresponds_enterAll (hf.mono fun id hid => ?_)
  obtain ⟨input, hinput, hid⟩ := List.mem_flatMap.1 hid
  obtain ⟨entry, hentry, hinput⟩ := List.mem_flatMap.1 hinput
  exact List.mem_flatMap.2
    ⟨input, List.mem_flatMap.2 ⟨entry, List.mem_of_mem_filter hentry, hinput⟩, hid⟩

end Schedule

/-- Ids decide nothing. Two stores that were given the same requests, records and clearings,
one of them under other ids of which different ones stayed different, correspond after every
input: they hold the same records up to the ids, as many of each kind, with the same summary,
and the same is committed in both. Waits over the two as they change with time end at the same
instant and in the same way, in whatever orders the two are looked through: waits for records
and for failures whose conditions neither fail nor remember anything, and waits for commits. -/
theorem ids_decide_nothing (suffixes : Suffixes) (f : String → String) (t : Schedule)
    (hf : {id | id ∈ t.inputs.flatMap Input.ids}.InjOn f) :
    let world := t.storeAt suffixes
    let world' := (t.rename f).storeAt suffixes
    (∀ n, (Input.enterAll suffixes .empty (t.inputs.take n)).Corresponds f
        (Input.enterAll suffixes .empty ((t.rename f).inputs.take n))) ∧
      ∀ (drop : Option Nat) (start : Nat) (order order' : Nat → Order),
        (∀ now, (order now).Rearranges) → (∀ now, (order' now).Rearranges) →
        (∀ (α : Type) (e : Expectation) (decode : Bytes → Option α) (test : Observed α → Bool),
            (e.run (.pure decode test) order' world' drop start ()).1.map Outcome.ended =
              (e.run (.pure decode test) order world drop start ()).1.map Outcome.ended) ∧
          (∀ (α : Type) (e : FailureExpectation) (decode : Bytes → Option α)
              (test : Observed α → Bool),
            (e.run (.pure decode test) order' world' drop start ()).1.map Outcome.ended =
              (e.run (.pure decode test) order world drop start ()).1.map Outcome.ended) ∧
          ∀ e : CommitExpectation,
            (e.run world' drop start).map Outcome.ended =
              (e.run world drop start).map Outcome.ended := by
  intro world world'
  have hworld : ∀ now, (world now).Corresponds f (world' now) := Schedule.corresponds_storeAt hf
  refine ⟨fun n => ?_, fun drop start order order' horder horder' => ⟨?_, ?_, ?_⟩⟩
  · rw [Schedule.inputs_rename, ← List.map_take]
    refine corresponds_enterAll (hf.mono fun id hid => ?_)
    obtain ⟨input, hinput, hid⟩ := List.mem_flatMap.1 hid
    exact List.mem_flatMap.2 ⟨input, List.mem_of_mem_take hinput, hid⟩
  · intro α e decode test
    exact ended_run (fun t => e.timedOut (world t) (t - start))
      (fun t => e.timedOut (world' t) (t - start))
      (fun now => Expectation.variant_evaluate (hworld now) (horder now) (horder' now))
      (fun _ => rfl) start
  · intro α e decode test
    exact ended_run (fun t => e.settings.timedOut (world t) (t - start))
      (fun t => e.settings.timedOut (world' t) (t - start))
      (fun now => FailureExpectation.variant_evaluate (hworld now) (horder now) (horder' now))
      (fun _ => rfl) start
  · intro e
    refine ended_run (fun t => e.timedOut (world t) (t - start))
      (fun t => e.timedOut (world' t) (t - start)) (fun now => ?_) (fun _ => rfl) start
    rw [CommitExpectation.evaluate, CommitExpectation.evaluate, (hworld now).committed]

/-- Two messages that change places under their new ids, with one of the ids used three times. -/
theorem ids_decide_nothing_swapped :
    let first : Published := ⟨"a", "orders.DLT", [0x31], none, .empty⟩
    let second : Published := ⟨"b", "orders", [0x32], none, .empty⟩
    let f : String → String := fun id => if id = "a" then "z" else "y"
    let t : Schedule := [(0, [.request (.published first), .record (.published second),
      .request (.committed ⟨"a", "orders", 0, 9, ""⟩)])]
    let world' := (t.rename f).storeAt .standard
    let e : Expectation := ⟨.published, "order", 5 * Duration.second, 50 * Duration.millisecond, false, 2⟩
    {id | id ∈ t.inputs.flatMap Input.ids}.InjOn f ∧
      (t.storeAt .standard 0).snapshot .published = [.published first, .published second] ∧
      (world' 0).snapshot .published =
        [.published { second with id := "y" }, .published { first with id := "z" }] ∧
      ∀ order' : Nat → Order, (∀ now, (order' now).Rearranges) →
        (e.run (.pure some fun _ : Observed Bytes => true) order' world' none 0 ()).1.map
          Outcome.ended = some (0, .met) := by
  intro first second f t world' e
  have hf : {id | id ∈ t.inputs.flatMap Input.ids}.InjOn f := by
    have hids : ∀ x ∈ ["a", "b", "a"], ∀ y ∈ ["a", "b", "a"], f x = f y → x = y := by decide
    exact fun x hx y hy => hids x hx y hy
  refine ⟨hf, by decide +kernel, by decide +kernel, fun order' horder' => ?_⟩
  obtain ⟨hrecords, -⟩ := (ids_decide_nothing .standard f t hf).2 none 0 (fun _ => .stored) order'
    (fun _ => Order.rearranges_stored) horder'
  rw [hrecords Bytes e some fun _ => true, Expectation.run, Pace.run_eq]
  decide +kernel

end TopicWatch.Wait
