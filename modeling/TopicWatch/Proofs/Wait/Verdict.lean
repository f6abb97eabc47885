import TopicWatch.Proofs.Sink.Log
import TopicWatch.Proofs.Wait.Settling

/-!
# The verdict on a log of requests

How an expectation of a delivered message ends over a store that was filled by requests from
the bridge, read off the requests themselves.
-/

namespace TopicWatch.Wait

open Record Topic Bridge

variable {α : Type} (suffixes : Suffixes) (decode : Bytes → Option α) (test : Observed α → Bool)

/-- Whether a message is on a topic of a kind, has a payload of the wanted type and satisfies
a condition. -/
def carries (kind : Topic.Kind) (payload : Bytes) (context : Metadata) : Bool :=
  suffixes.classify context.topic == kind &&
    (decode payload).any fun value => test ⟨value, context⟩

/-- Whether a request is about a wanted message on an error topic, delivered or sent. -/
def reportsFailure : Request → Bool
  | .consumed m => carries suffixes decode test .error m.message m.metadata
  | .published m => carries suffixes decode test .error m.message m.metadata
  | _ => false

/-- Whether a request is about a wanted message that was delivered on a normal topic and, if
it has to be, committed beyond by a request of a log. -/
def reportsDelivery (committed : Bool) (log : List Request) : Request → Bool
  | .consumed m =>
      carries suffixes decode test .normal m.message m.metadata &&
        (!committed || log.any (Sink.commits m.topic m.partition m.offset))
  | _ => false

/-- A request reports a failure when it is about a failed record of a wanted message. -/
theorem any_failure?_observations (r : Request) :
    (Sink.observations suffixes r).any
        (fun o => decide (o.kind = .failed) && (failure? decode test o).isSome) =
      reportsFailure suffixes decode test r := by
  simp only [isSome_failure?, isSome_wanted?]
  cases r with
  | healthCheck => rfl
  | published m =>
      cases hkind : suffixes.classify m.topic <;>
        simp [Sink.observations, Sink.ofPublished, Suffixes.isError, reportsFailure, carries,
          hkind, Observation.kind, Observation.payload?, Observation.metadata,
          Observation.reason?, Published.metadata, Failed.metadata, Failed.ofPublished]
  | consumed m =>
      cases hkind : suffixes.classify m.topic <;>
        simp [Sink.observations, Sink.ofConsumed, reportsFailure, carries, hkind,
          Observation.kind, Observation.payload?, Observation.metadata, Observation.reason?,
          Consumed.metadata, Failed.metadata, Failed.ofConsumed]
  | committed m => rfl
  | acknowledged m => rfl

variable (e : Expectation) (requests : List Request)

/-- A request reports a delivery when it is about a delivered record that counts. -/
theorem countP_counted?_observations (r : Request) :
    (Sink.observations suffixes r).countP
        (fun o => decide (o.kind = .consumed) &&
          (e.counted? decode test (Sink.acceptAll suffixes .empty requests) o).isSome) =
      if reportsDelivery suffixes decode test e.committed requests r then 1 else 0 := by
  simp only [Expectation.isSome_counted?, isSome_wanted?]
  cases r with
  | healthCheck => rfl
  | published m =>
      simp only [Sink.observations, Sink.ofPublished, reportsDelivery]
      split <;> rfl
  | consumed m =>
      cases hkind : suffixes.classify m.topic <;>
        simp [Sink.observations, Sink.ofConsumed, reportsDelivery, carries, hkind,
          Observation.kind, Observation.payload?, Observation.metadata, Consumed.metadata,
          Expectation.isCommitted, Sink.isCommitted_acceptAll]
  | committed m => rfl
  | acknowledged m => rfl

variable {suffixes decode test e requests}

theorem failing_acceptAll (hkind : e.kind = .consumed)
    (hids : (requests.filterMap Request.id?).Nodup) :
    e.failing decode test (Sink.acceptAll suffixes .empty requests) = [] ↔
      ¬∃ r ∈ requests, reportsFailure suffixes decode test r := by
  have hmem : ∀ o, o ∈ (Sink.acceptAll suffixes .empty requests).snapshot .failed ↔
      o ∈ Sink.logged suffixes requests ∧ o.kind = .failed := by
    intro o
    rw [(Sink.snapshot_acceptAll hids .failed).mem_iff, List.mem_filter, decide_eq_true_iff]
  have hlog : (Sink.logged suffixes requests).any
        (fun o => decide (o.kind = .failed) && (failure? decode test o).isSome) =
      requests.any (reportsFailure suffixes decode test) := by
    rw [Sink.logged, List.any_flatMap]
    simp only [any_failure?_observations]
  rw [Expectation.failing, if_pos hkind, failures, List.filterMap_eq_nil_iff,
    ← List.any_eq_true, ← hlog, List.any_eq_true]
  constructor
  · rintro hnone ⟨o, ho, hfails⟩
    rw [Bool.and_eq_true, decide_eq_true_iff] at hfails
    rw [hnone o ((hmem o).2 ⟨ho, hfails.1⟩)] at hfails
    cases hfails.2
  · intro hnot o ho
    obtain ⟨hlogged, hfailed⟩ := (hmem o).1 ho
    rw [← Option.not_isSome_iff_eq_none]
    intro hsome
    exact hnot ⟨o, hlogged, by simp [hfailed, hsome]⟩

theorem length_matching_acceptAll (hkind : e.kind = .consumed)
    (hids : (requests.filterMap Request.id?).Nodup) :
    (e.matching decode test (Sink.acceptAll suffixes .empty requests)).length =
      requests.countP (reportsDelivery suffixes decode test e.committed requests) := by
  rw [Expectation.matching, hkind, List.length_filterMap_eq_countP,
    (Sink.snapshot_acceptAll hids .consumed).countP_eq, List.countP_filter,
    ← Sink.countP_logged (countP_counted?_observations suffixes decode test e requests)]
  congr 1
  funext o
  exact Bool.and_comm _ _

variable (suffixes decode test e requests)

/-- How an expectation of a delivered message ends over a store that does not change: in its
first pass, unless neither a failure ends it nor enough messages count. -/
theorem outcome_of_constant (store : Store) (order : Nat → Order)
    (horder : ∀ now, (order now).Rearranges) (start : Nat) :
    let last := (e.pace start).lastPass
    let outcome := (e.run (.pure decode test) order (fun _ => store) none start ()).1
    (e.failing decode test store ≠ [] ∧ ∃ reason,
        outcome = some ⟨start, .error (.failedInstead e.subject reason (store.dump .failed))⟩) ∨
      (e.failing decode test store = [] ∧ e.Met decode test store ∧
        ∃ m, outcome = some ⟨start, .ok m⟩) ∨
      (e.failing decode test store = [] ∧ ¬e.Met decode test store ∧
        outcome = some ⟨last, .error (e.timedOut store (last - start))⟩) := by
  intro last outcome
  have hanswers : ∀ now, e.Answers decode test store
      (e.decision decode test order (fun _ => store) now) :=
    fun now => Expectation.answers_evaluate (horder now)
  have hfirst : ∀ result, e.decision decode test order (fun _ => store) start = some result →
      outcome = some ⟨start, result⟩ := by
    intro result hresult
    rw [show outcome = _ from e.run_pure decode test order (fun _ => store) start,
      Pace.runForgetful_of_some hresult]
    rfl
  have hstart := hanswers start
  generalize hdecision : e.decision decode test order (fun _ => store) start = answer at hstart
  cases hstart with
  | failed hreason =>
      exact Or.inl ⟨List.ne_nil_of_mem hreason, _, hfirst _ hdecision⟩
  | met hnone hmet hm => exact Or.inr (Or.inl ⟨hnone, hmet, _, hfirst _ hdecision⟩)
  | waits hnone hmet =>
      refine Or.inr (Or.inr ⟨hnone, hmet, ?_⟩)
      obtain ⟨t, -, result, hresult, -⟩ | ⟨-, hrun⟩ := (e.pace start).runForgetful_cases
        (e.decision decode test order fun _ => store) start
      · have hnone' := (hanswers t).eq_none_iff.2 ⟨hnone, hmet⟩
        rw [hresult] at hnone'
        cases hnone'
      · rw [show outcome = _ from e.run_pure decode test order (fun _ => store) start, hrun]
        rfl

/-- How an expectation of a delivered message ends over the store of a log of requests with
ids of their own, with any timeout and so without any. It fails at once if a wanted message is
reported on an error topic. Otherwise it ends well at once if enough wanted messages are
reported on normal topics, and as committed if they have to be. Otherwise it waits for nothing
until its last pass, which without any time to wait is the first one. -/
theorem verdict_of_log (order : Nat → Order) (start : Nat) (hkind : e.kind = .consumed)
    (hids : (requests.filterMap Request.id?).Nodup) (horder : ∀ now, (order now).Rearranges) :
    let store := Sink.acceptAll suffixes .empty requests
    let last := (e.pace start).lastPass
    let outcome := (e.run (.pure decode test) order (fun _ => store) none start ()).1
    let failed := ∃ r ∈ requests, reportsFailure suffixes decode test r
    let enough := max e.wanted 1 ≤
      requests.countP (reportsDelivery suffixes decode test e.committed requests)
    ((∃ reason, outcome =
        some ⟨start, .error (.failedInstead e.subject reason (store.dump .failed))⟩) ↔ failed) ∧
      ((∃ m, outcome = some ⟨start, .ok m⟩) ↔ ¬failed ∧ enough) ∧
      (outcome = some ⟨last, .error (e.timedOut store (last - start))⟩ ↔ ¬failed ∧ ¬enough) ∧
      (e.timeout = 0 → start < clockEnd → last = start) := by
  intro store last outcome failed enough
  have hfailed : e.failing decode test store = [] ↔ ¬failed := failing_acceptAll hkind hids
  have henough : e.Met decode test store ↔ enough := by
    rw [Expectation.Met, length_matching_acceptAll hkind hids]
  have hlast : e.timeout = 0 → start < clockEnd → last = start := by
    intro hzero hclock
    have hdeadline : (e.pace start).deadline = start := by
      simp [Pace.deadline, Expectation.pace, hzero, hclock]
    exact if_pos (Nat.le_of_eq hdeadline)
  rw [← and_assoc, ← and_assoc]
  refine ⟨?_, hlast⟩
  obtain ⟨hsome, reason, houtcome⟩ | ⟨hnone, hmet, m, houtcome⟩ | ⟨hnone, hmet, houtcome⟩ :=
    outcome_of_constant decode test e store order horder start
  · have hfail : failed := not_not.1 (mt hfailed.2 hsome)
    rw [show outcome = _ from houtcome]
    simp [hfail, Expectation.timedOut]
  · have hfail : ¬failed := hfailed.1 hnone
    have hmany : enough := henough.1 hmet
    rw [show outcome = _ from houtcome]
    simp [hfail, hmany]
  · have hfail : ¬failed := hfailed.1 hnone
    have hfew : ¬enough := mt henough.2 hmet
    have hexpired : outcome = some ⟨last, .error (e.timedOut store (last - start))⟩ := houtcome
    rw [hexpired]
    simp [hfail, hfew, Expectation.timedOut]

/-- A delivery that counts and is committed does not help when the same payload was sent to an
error topic. -/
theorem verdict_of_log_dead_lettered :
    let log : List Request :=
      [.committed ⟨"c", "orders", 0, 8, ""⟩, .consumed ⟨"d", "orders", 0, 7, [0x31], none, .empty⟩,
        .published ⟨"p", "orders.DLT", [0x31], none, .empty⟩]
    let e : Expectation := ⟨.consumed, "order", 0, 0, true, 1⟩
    (log.filterMap Request.id?).Nodup ∧
      ∃ reason, (e.run (.pure some fun m : Observed Bytes => m.value == [0x31]) (fun _ => .stored)
          (fun _ => Sink.acceptAll .standard .empty log) none 5 ()).1 =
        some ⟨5, .error (.failedInstead "order" reason
          ((Sink.acceptAll .standard .empty log).dump .failed))⟩ := by
  intro log e
  have hids : (log.filterMap Request.id?).Nodup := by decide
  have hfailed : reportsFailure .standard some (fun m : Observed Bytes => m.value == [0x31])
      (.published ⟨"p", "orders.DLT", [0x31], none, .empty⟩) := by decide
  refine ⟨hids, (verdict_of_log .standard some _ e log (fun _ => .stored) 5 rfl hids
    fun _ => Order.rearranges_stored).1.2 ⟨_, ?_, hfailed⟩⟩
  simp [log]

end TopicWatch.Wait
