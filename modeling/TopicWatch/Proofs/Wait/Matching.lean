import TopicWatch.Proofs.Store.Contents
import TopicWatch.Wait.Expectation

/-!
# What an expectation finds in a store

A pass of an expectation whose condition neither fails nor remembers anything, described by
the records of the store alone: what it answers does not depend on the order in which it
meets them, and what was found once is found in every later store.
-/

namespace TopicWatch.Wait

open Record

variable {α : Type} (decode : Bytes → Option α) (test : Observed α → Bool)

/-- The message of a record whose payload is of the wanted type, if it satisfies the
condition. -/
def wanted? (o : Observation) : Option (Observed α) :=
  ((Criterion.pure decode test).candidate? o).filter test

theorem isSome_wanted? (o : Observation) :
    (wanted? decode test o).isSome =
      o.payload?.any fun payload => (decode payload).any fun value => test ⟨value, o.metadata⟩ := by
  rw [wanted?, Criterion.candidate?, Criterion.pure]
  cases o.payload? with
  | none => rfl
  | some payload =>
      cases h : decode payload with
      | none => simp [h]
      | some value => cases htest : test ⟨value, o.metadata⟩ <;> simp [h, htest]

variable {decode test} in
theorem metadata_of_wanted? {o : Observation} {m : Observed α}
    (h : wanted? decode test o = some m) : m.metadata = o.metadata := by
  obtain ⟨hcandidate, -⟩ := Option.filter_eq_some_iff.1 h
  obtain ⟨payload, -, hread⟩ := Option.bind_eq_some_iff.1 hcandidate
  obtain ⟨value, -, rfl⟩ := Option.map_eq_some_iff.1 hread
  rfl

variable {decode test} in
theorem wanted?_of_payload {o : Observation} {payload : Bytes} {value : α}
    (hpayload : o.payload? = some payload) (hvalue : decode payload = some value)
    (htest : test ⟨value, o.metadata⟩) : wanted? decode test o = some ⟨value, o.metadata⟩ := by
  rw [wanted?, Criterion.candidate?, hpayload]
  simp [Criterion.pure, hvalue, htest]

variable {decode test} in
theorem test_of_wanted? {o : Observation} {m : Observed α} (h : wanted? decode test o = some m) :
    test m :=
  (Option.filter_eq_some_iff.1 h).2

/-- The reason of a failure of a wanted message. -/
def failure? (o : Observation) : Option FailureReason :=
  (wanted? decode test o).bind fun _ => o.reason?

theorem isSome_failure? (o : Observation) :
    (failure? decode test o).isSome = ((wanted? decode test o).isSome && o.reason?.isSome) := by
  rw [failure?]
  cases wanted? decode test o <;> rfl

/-- The reasons of the failures of wanted messages in a store. -/
def failures (store : Store) : List FailureReason :=
  (store.snapshot .failed).filterMap (failure? decode test)

/-- An order that meets every record once. -/
def Order.Rearranges (order : Order) : Prop :=
  ∀ kind records, (order kind records).Perm records

theorem Order.rearranges_stored : Order.stored.Rearranges := fun _ _ => List.Perm.refl _

variable {decode test} in
theorem failures_subset_of_within {store store' : Store} (h : store.Within store') :
    failures decode test store ⊆ failures decode test store' :=
  List.filterMap_subset _ (h.snapshot .failed).subset

namespace Expectation

variable (e : Expectation) (store : Store)

/-- The message of a record that counts: it is wanted, and committed if it has to be. -/
def counted? (o : Observation) : Option (Observed α) :=
  (wanted? decode test o).filter fun m => !e.committed || isCommitted store m.metadata

theorem isSome_counted? (o : Observation) :
    (e.counted? decode test store o).isSome =
      ((wanted? decode test o).isSome &&
        (!e.committed || isCommitted store o.metadata)) := by
  rw [counted?]
  cases h : wanted? decode test o with
  | none => rfl
  | some m =>
      rw [← metadata_of_wanted? h]
      cases hclosed : !e.committed || isCommitted store m.metadata <;>
        simp [Option.filter, hclosed]

/-- The messages in a store that count. -/
def matching : List (Observed α) :=
  (store.snapshot e.kind).filterMap (e.counted? decode test store)

/-- The reasons of the failures in a store that end an expectation of a delivered message. -/
def failing : List FailureReason :=
  if e.kind = .consumed then failures decode test store else []

/-- Whether enough messages in a store count. No wanted number is less than one. -/
def Met : Prop := max e.wanted 1 ≤ (e.matching decode test store).length

instance : Decidable (e.Met decode test store) := inferInstanceAs (Decidable (_ ≤ _))

/-- What a pass may answer: a failure of a wanted message comes first, then a message that
counts if there are enough of them. -/
inductive Answers : Option (Except Failure (Observed α)) → Prop
  | failed {reason : FailureReason} (hreason : reason ∈ e.failing decode test store) :
      Answers (some (.error (.failedInstead e.subject reason (store.dump .failed))))
  | met {m : Observed α} (hnone : e.failing decode test store = [])
      (hmet : e.Met decode test store) (hm : m ∈ e.matching decode test store) :
      Answers (some (.ok m))
  | waits (hnone : e.failing decode test store = []) (hmet : ¬e.Met decode test store) :
      Answers none

variable {decode test e store}

theorem test_of_mem_matching {m : Observed α} (h : m ∈ e.matching decode test store) : test m := by
  obtain ⟨o, -, hcounted⟩ := List.mem_filterMap.1 h
  exact test_of_wanted? (Option.filter_eq_some_iff.1 hcounted).1

theorem count_cons_of_none {o : Observation} (h : e.counted? decode test store o = none)
    (rest : List Observation) (found : Nat) (first : Option (Observed α)) :
    count e (.pure decode test) store (o :: rest) found first () =
      count e (.pure decode test) store rest found first () := by
  rw [counted?, wanted?] at h
  rw [count]
  cases hcandidate : (Criterion.pure decode test).candidate? o with
  | none => rfl
  | some m =>
      cases htest : test m with
      | false => simp [Criterion.pure, htest]
      | true =>
          have hopen : (e.committed && !isCommitted store m.metadata) = true := by
            simpa [hcandidate, htest] using h
          simp [Criterion.pure, htest, hopen]

theorem count_cons_of_some {o : Observation} {m : Observed α}
    (h : e.counted? decode test store o = some m) (rest : List Observation) (found : Nat)
    (first : Option (Observed α)) :
    count e (.pure decode test) store (o :: rest) found first () =
      if e.wanted ≤ found + 1 then (.ok (first <|> some m), ())
      else count e (.pure decode test) store rest (found + 1) (first <|> some m) () := by
  obtain ⟨hwanted, hclosed⟩ := Option.filter_eq_some_iff.1 h
  obtain ⟨hcandidate, htest⟩ := Option.filter_eq_some_iff.1 hwanted
  have hopen : (e.committed && !isCommitted store m.metadata) = false := by
    cases hc : isCommitted store m.metadata <;> simp_all
  rw [count, hcandidate]
  simp [Criterion.pure, htest, hopen]

/-- A count gives the first of the messages that count once there are enough of them. -/
theorem count_pure (records : List Observation) (found : Nat) (first : Option (Observed α)) :
    count e (.pure decode test) store records found first () =
      (.ok (if max e.wanted (found + 1) ≤
            found + (records.filterMap (e.counted? decode test store)).length
          then first <|> (records.filterMap (e.counted? decode test store)).head? else none), ()) := by
  induction records generalizing found first with
  | nil =>
      have hfew : ¬max e.wanted (found + 1) ≤ found := by omega
      simp [count, hfew]
  | cons o rest ih =>
      cases h : e.counted? decode test store o with
      | none => rw [count_cons_of_none h, ih, List.filterMap_cons_none h]
      | some m =>
          rw [count_cons_of_some h, List.filterMap_cons_some h, List.length_cons, List.head?_cons]
          by_cases henough : e.wanted ≤ found + 1
          · have hmany : max e.wanted (found + 1) ≤
                found + ((rest.filterMap (e.counted? decode test store)).length + 1) := by omega
            rw [if_pos henough, if_pos hmany]
          · have hiff : max e.wanted (found + 1 + 1) ≤
                  found + 1 + (rest.filterMap (e.counted? decode test store)).length ↔
                max e.wanted (found + 1) ≤
                  found + ((rest.filterMap (e.counted? decode test store)).length + 1) := by omega
            rw [if_neg henough, ih, if_congr hiff _ rfl]
            cases first <;> rfl

theorem failFast_cons_of_none {o : Observation} (hfailed : o.kind = .failed)
    (h : failure? decode test o = none) (fallback : FailureReason) (rest : List Observation) :
    failFast e (.pure decode test) store fallback (o :: rest) () =
      failFast e (.pure decode test) store fallback rest () := by
  obtain ⟨reason, hreason⟩ := o.exists_reason hfailed
  rw [failure?, wanted?] at h
  rw [failFast]
  cases hcandidate : (Criterion.pure decode test).candidate? o with
  | none => rfl
  | some m =>
      have htest : test m = false := by simpa [hcandidate, hreason] using h
      simp [Criterion.pure, htest]

theorem failFast_cons_of_some {o : Observation} {reason : FailureReason}
    (h : failure? decode test o = some reason) (fallback : FailureReason)
    (rest : List Observation) :
    failFast e (.pure decode test) store fallback (o :: rest) () =
      (.error (.failedInstead e.subject reason (store.dump .failed)), ()) := by
  obtain ⟨m, hwanted, hreason⟩ := Option.bind_eq_some_iff.1 h
  obtain ⟨hcandidate, htest⟩ := Option.filter_eq_some_iff.1 hwanted
  rw [failFast, hcandidate, hreason]
  simp [Criterion.pure, htest]

/-- The search for failures stops at the first failure of a wanted message. -/
theorem failFast_pure {records : List Observation} (hfailed : ∀ o ∈ records, o.kind = .failed)
    (fallback : FailureReason) :
    failFast e (.pure decode test) store fallback records () =
      (match (records.filterMap (failure? decode test)).head? with
        | some reason => .error (.failedInstead e.subject reason (store.dump .failed))
        | none => .ok (), ()) := by
  induction records with
  | nil => rfl
  | cons o rest ih =>
      obtain ⟨hhead, hrest⟩ := List.forall_mem_cons.1 hfailed
      cases h : failure? decode test o with
      | none => rw [failFast_cons_of_none hhead h, ih hrest, List.filterMap_cons_none h]
      | some reason => rw [failFast_cons_of_some h, List.filterMap_cons_some h, List.head?_cons]

/-- Every failure gives a reason of its own, whatever the condition does. -/
theorem failFast_fallback {σ : Type} {records : List Observation}
    (hfailed : ∀ o ∈ records, o.kind = .failed) (c : Criterion α σ)
    (fallback fallback' : FailureReason) (state : σ) :
    failFast e c store fallback records state = failFast e c store fallback' records state := by
  induction records generalizing state with
  | nil => rfl
  | cons o rest ih =>
      obtain ⟨hhead, hrest⟩ := List.forall_mem_cons.1 hfailed
      obtain ⟨reason, hreason⟩ := o.exists_reason hhead
      rw [failFast, failFast]
      split
      · exact ih hrest state
      · split
        · rfl
        · exact ih hrest _
        · rw [hreason]
          rfl

theorem answers_count (hnone : e.failing decode test store = []) {records : List Observation}
    (hperm : records.Perm (store.snapshot e.kind)) :
    e.Answers decode test store
      (verdict (count e (.pure decode test) store records 0 none ())).1 := by
  have hmatching : (records.filterMap (e.counted? decode test store)).Perm
      (e.matching decode test store) := hperm.filterMap _
  rw [count_pure, Nat.zero_add, Nat.zero_add, hmatching.length_eq]
  by_cases hmet : max e.wanted 1 ≤ (e.matching decode test store).length
  · rw [if_pos hmet]
    cases hhead : (records.filterMap (e.counted? decode test store)).head? with
    | none =>
        have hnil := hmatching.symm.trans (.of_eq (List.head?_eq_none_iff.1 hhead))
        rw [hnil.length_eq, List.length_nil] at hmet
        omega
    | some m => exact .met hnone hmet (hmatching.mem_iff.1 (List.mem_of_head? hhead))
  · rw [if_neg hmet]
    exact .waits hnone hmet

/-- What a pass answers over a store, whatever the order in which it meets the records. -/
theorem answers_evaluate {order : Order} (horder : order.Rearranges) :
    e.Answers decode test store
      (verdict (e.evaluate (.pure decode test) order store ())).1 := by
  rw [evaluate]
  split
  · next hkind =>
      have hperm : ((order .failed (store.snapshot .failed)).filterMap
          (failure? decode test)).Perm (e.failing decode test store) := by
        rw [failing, if_pos hkind]
        exact (horder .failed _).filterMap _
      have hfailed : ∀ o ∈ order .failed (store.snapshot .failed), o.kind = .failed :=
        fun o ho => Store.kind_of_mem_snapshot ((horder .failed _).mem_iff.1 ho)
      rw [failFast_pure hfailed]
      cases hhead : ((order .failed (store.snapshot .failed)).filterMap
          (failure? decode test)).head? with
      | none =>
          apply answers_count _ (horder e.kind _)
          exact List.nil_perm.1 ((List.head?_eq_none_iff.1 hhead) ▸ hperm)
      | some reason => exact .failed (hperm.mem_iff.1 (List.mem_of_head? hhead))
  · next hkind => exact answers_count (if_neg hkind) (horder e.kind _)

/-- A pass leaves a wait open exactly when there are neither failures that end it nor enough
messages that count. -/
theorem Answers.eq_none_iff {answer : Option (Except Failure (Observed α))}
    (h : e.Answers decode test store answer) :
    answer = none ↔ e.failing decode test store = [] ∧ ¬e.Met decode test store := by
  cases h with
  | failed hreason => simp [List.ne_nil_of_mem hreason]
  | met _ hmet _ => simp [hmet]
  | waits hnone hmet => simp [hnone, hmet]

section Growing

variable {store' : Store}

theorem isCommitted_of_within (h : store.Within store') {m : Metadata}
    (hm : isCommitted store m) : isCommitted store' m := by
  obtain ⟨topic, key, headers, partition, offset⟩ := m
  cases partition with
  | none => exact hm
  | some partition =>
      cases offset with
      | none => exact hm
      | some offset => exact h.committed topic partition offset hm

theorem isSome_counted?_of_within (h : store.Within store') {o : Observation}
    (ho : (e.counted? decode test store o).isSome) :
    (e.counted? decode test store' o).isSome := by
  obtain ⟨m, hm⟩ := Option.isSome_iff_exists.1 ho
  obtain ⟨hwanted, hclosed⟩ := Option.filter_eq_some_iff.1 hm
  have hlater : (!e.committed || isCommitted store' m.metadata) = true := by
    rw [Bool.or_eq_true] at hclosed ⊢
    exact hclosed.imp id (isCommitted_of_within h)
  exact Option.isSome_iff_exists.2 ⟨m, Option.filter_eq_some_iff.2 ⟨hwanted, hlater⟩⟩

/-- Messages that count in a store count in every later one. -/
theorem Met.of_within (h : store.Within store') (hmet : e.Met decode test store) :
    e.Met decode test store' := by
  apply Nat.le_trans hmet
  rw [matching, matching, List.length_filterMap_eq_countP, List.length_filterMap_eq_countP]
  calc (store.snapshot e.kind).countP (fun o => (e.counted? decode test store o).isSome)
      ≤ (store.snapshot e.kind).countP (fun o => (e.counted? decode test store' o).isSome) :=
        List.countP_mono_left fun o _ ho => isSome_counted?_of_within h ho
    _ ≤ (store'.snapshot e.kind).countP (fun o => (e.counted? decode test store' o).isSome) :=
        (h.snapshot e.kind).countP_le _

/-- A failure that ends an expectation does so in every later store. -/
theorem failing_subset_of_within (h : store.Within store') :
    e.failing decode test store ⊆ e.failing decode test store' := by
  rw [failing, failing]
  split
  · exact failures_subset_of_within h
  · exact List.Subset.refl _

end Growing

end Expectation

end TopicWatch.Wait
