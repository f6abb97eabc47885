import TopicWatch.Proofs.Wait.Matching
import TopicWatch.Proofs.Wait.Pacing

/-!
# Conditions that fail

A condition may remember its calls and may fail. The calls of a wait are recorded pass by pass,
which changes nothing about the wait. The first call that fails is the last one, and the wait
ends in its pass. A wait that nothing matches in time has asked in every pass about every record
that it could match.
-/

namespace TopicWatch.Wait

open Record Duration

variable {α σ : Type}

/-- A call of a condition: the message it was asked about, and what it answered. -/
structure Call (α : Type) where
  message : Observed α
  answer : Except String Bool

/-- The condition did not fail. -/
def Call.Answered (call : Call α) : Prop := ∃ b, call.answer = .ok b

/-- A criterion that remembers its calls, in order, beside what it remembers anyway. -/
def Criterion.recorded (c : Criterion α σ) : Criterion α (σ × List (Call α)) where
  decode := c.decode
  test m s :=
    let called := c.test m s.1
    (called.1, called.2, s.2 ++ [⟨m, called.1⟩])

/-- A pass of a wait, with the calls that were made in it. -/
structure Visit (α : Type) where
  instant : Nat
  calls : List (Call α)

/-! ## Scans -/

theorem Criterion.test_recorded (c : Criterion α σ) (m : Observed α) (s : σ × List (Call α)) :
    c.recorded.test m s =
      ((c.test m s.1).1, (c.test m s.1).2, s.2 ++ [⟨m, (c.test m s.1).1⟩]) := rfl

theorem Criterion.candidate?_recorded (c : Criterion α σ) (o : Observation) :
    c.recorded.candidate? o = c.candidate? o := rfl

/-- The calls of a scan over messages, and what it found. A scan goes on as long as the condition
answers and nothing is found; the first failure of the condition ends it. -/
inductive Scan {β : Type} (subject : String) (idle : List (Call α) → Prop) (nothing : β)
    (found : Except Failure β → Prop) : List (Call α) → Except Failure β → Prop
  | idle {calls : List (Call α)} (h : idle calls) : Scan subject idle nothing found calls (.ok nothing)
  | found {calls : List (Call α)} {result : Except Failure β}
      (hanswered : ∀ call ∈ calls, call.Answered) (h : found result) :
      Scan subject idle nothing found calls result
  | broken {calls : List (Call α)} {m : Observed α} {source : String}
      (hanswered : ∀ call ∈ calls, call.Answered) :
      Scan subject idle nothing found (calls ++ [⟨m, .error source⟩])
        (.error (.condition subject source))

/-- A scan after calls that were answered. -/
theorem Scan.append {β : Type} {subject : String} {idle idle' : List (Call α) → Prop} {nothing : β}
    {found found' : Except Failure β → Prop} {calls : List (Call α)} {result : Except Failure β}
    (h : Scan subject idle nothing found calls result) {earlier : List (Call α)}
    (hearlier : ∀ call ∈ earlier, call.Answered) (hidle : idle calls → idle' (earlier ++ calls))
    (hfound : ∀ result, found result → found' result) :
    Scan subject idle' nothing found' (earlier ++ calls) result := by
  cases h with
  | idle h => exact .idle (hidle h)
  | found hanswered h =>
      exact .found (List.forall_mem_append.2 ⟨hearlier, hanswered⟩) (hfound _ h)
  | broken hanswered =>
      rw [← List.append_assoc]
      exact .broken (List.forall_mem_append.2 ⟨hearlier, hanswered⟩)

/-- A scan after one call that was answered. -/
theorem Scan.cons {β : Type} {subject : String} {idle idle' : List (Call α) → Prop} {nothing : β}
    {found : Except Failure β → Prop} {calls : List (Call α)} {result : Except Failure β}
    (h : Scan subject idle nothing found calls result) {call : Call α} (hcall : call.Answered)
    (hidle : idle calls → idle' (call :: calls)) :
    Scan subject idle' nothing found (call :: calls) result :=
  h.append (List.forall_mem_singleton.2 hcall) hidle fun _ => id

namespace Expectation

variable (e : Expectation) (c : Criterion α σ) (store : Store)

/-- Whether a call was about a record that counts. -/
def counts (call : Call α) : Bool :=
  match call.answer with
  | .ok true => !e.committed || isCommitted store call.message.metadata
  | _ => false

/-- The calls of a search for failures that finds none: every message was asked about, and none
was wanted. -/
structure Searched (messages : List (Observed α)) (calls : List (Call α)) : Prop where
  asked : (calls.map Call.message).Perm messages
  unwanted : ∀ call ∈ calls, call.answer = .ok false

/-- The calls of a count that does not find enough: every message was asked about, and together
with those that were counted before too few of them count. -/
structure Counted (messages : List (Observed α)) (before : Nat) (calls : List (Call α)) : Prop where
  asked : (calls.map Call.message).Perm messages
  answered : ∀ call ∈ calls, call.Answered
  few : before + calls.countP (e.counts store) < max e.wanted (before + 1)

theorem scan_failFast (fallback : FailureReason) (records : List Observation)
    (state : σ × List (Call α)) :
    ∃ made, (failFast e c.recorded store fallback records state).2.2 = state.2 ++ made ∧
      Scan e.subject (Searched (records.filterMap c.candidate?)) ()
        (fun result => ∃ reason,
          result = .error (.failedInstead e.subject reason (store.dump .failed)))
        made (failFast e c.recorded store fallback records state).1 := by
  induction records generalizing state with
  | nil => exact ⟨[], (List.append_nil _).symm, .idle ⟨.refl _, by simp⟩⟩
  | cons o rest ih =>
      rw [failFast, c.candidate?_recorded]
      cases hm : c.candidate? o with
      | none =>
          rw [List.filterMap_cons_none hm]
          exact ih state
      | some m =>
          rw [List.filterMap_cons_some hm]
          simp only [c.test_recorded]
          generalize (c.test m state.1).2 = after
          cases (c.test m state.1).1 with
          | error source => exact ⟨_, rfl, .broken (List.forall_mem_nil _)⟩
          | ok wanted =>
              cases wanted with
              | true =>
                  refine ⟨_, rfl, .found ?_ ⟨_, rfl⟩⟩
                  exact List.forall_mem_singleton.2 ⟨true, rfl⟩
              | false =>
                  obtain ⟨made, hlog, hscan⟩ := ih (after, state.2 ++ [⟨m, .ok false⟩])
                  refine ⟨⟨m, .ok false⟩ :: made, ?_, hscan.cons ⟨false, rfl⟩ fun hcalls => ?_⟩
                  · rw [hlog, List.append_assoc, List.singleton_append]
                  · exact ⟨hcalls.asked.cons m,
                      List.forall_mem_cons.2 ⟨rfl, hcalls.unwanted⟩⟩

variable {e store} in
/-- A count that goes on after a call, which counted or did not. -/
theorem Counted.cons {messages : List (Observed α)} {calls : List (Call α)} {call : Call α}
    {before found : Nat} (h : e.Counted store messages found calls) (hcall : call.Answered)
    (hfound : found = before + if e.counts store call then 1 else 0)
    (hfew : found < max e.wanted (before + 1)) :
    e.Counted store (call.message :: messages) before (call :: calls) := by
  have hlater := h.few
  refine ⟨h.asked.cons call.message, List.forall_mem_cons.2 ⟨hcall, h.answered⟩, ?_⟩
  rw [List.countP_cons]
  omega

/-- The calls of a count: it breaks off, it finds enough, or it asks about every message. -/
theorem scan_count (records : List Observation) (before : Nat) (first : Option (Observed α))
    (state : σ × List (Call α)) :
    ∃ made, (count e c.recorded store records before first state).2.2 = state.2 ++ made ∧
      Scan e.subject (e.Counted store (records.filterMap c.candidate?) before) none
        (fun result => ∃ m, result = .ok (some m))
        made (count e c.recorded store records before first state).1 := by
  induction records generalizing before first state with
  | nil =>
      refine ⟨[], (List.append_nil _).symm, .idle ⟨.refl _, by simp, ?_⟩⟩
      rw [List.countP_nil]
      omega
  | cons o rest ih =>
      rw [count, c.candidate?_recorded]
      cases hm : c.candidate? o with
      | none =>
          rw [List.filterMap_cons_none hm]
          exact ih before first state
      | some m =>
          rw [List.filterMap_cons_some hm]
          simp only [c.test_recorded]
          generalize (c.test m state.1).2 = after
          -- the call comes before those of the rest of the count
          have hnext : ∀ (wanted : Bool) (found : Nat) (first' : Option (Observed α)),
              (found = before + if e.counts store ⟨m, .ok wanted⟩ then 1 else 0) →
              found < max e.wanted (before + 1) →
              ∃ made, (count e c.recorded store rest found first'
                  (after, state.2 ++ [⟨m, .ok wanted⟩])).2.2 = state.2 ++ made ∧
                Scan e.subject (e.Counted store (m :: rest.filterMap c.candidate?) before) none
                  (fun result => ∃ m, result = .ok (some m)) made
                  (count e c.recorded store rest found first'
                    (after, state.2 ++ [⟨m, .ok wanted⟩])).1 := by
            intro wanted found first' hfound hfew
            obtain ⟨made, hlog, hscan⟩ := ih found first' (after, state.2 ++ [⟨m, .ok wanted⟩])
            refine ⟨⟨m, .ok wanted⟩ :: made, ?_, hscan.cons ⟨wanted, rfl⟩ fun hcalls => ?_⟩
            · rw [hlog, List.append_assoc, List.singleton_append]
            · exact hcalls.cons ⟨wanted, rfl⟩ hfound hfew
          cases (c.test m state.1).1 with
          | error source => exact ⟨_, rfl, .broken (List.forall_mem_nil _)⟩
          | ok wanted =>
              cases wanted with
              | false => exact hnext false before first rfl (by omega)
              | true =>
                  cases hopen : e.committed && !isCommitted store m.metadata with
                  | true =>
                      have hcounts : e.counts store ⟨m, .ok true⟩ = false := by
                        rw [counts, ← Bool.not_inj_iff, Bool.not_or, Bool.not_not, hopen]
                        rfl
                      simp only [if_true]
                      exact hnext true before first (by rw [hcounts]; rfl) (by omega)
                  | false =>
                      have hcounts : e.counts store ⟨m, .ok true⟩ = true := by
                        rw [counts, ← Bool.not_inj_iff, Bool.not_or, Bool.not_not, hopen]
                        rfl
                      simp only [Bool.false_eq_true, if_false]
                      split
                      · refine ⟨_, rfl, .found ?_ ?_⟩
                        · exact List.forall_mem_singleton.2 ⟨true, rfl⟩
                        · cases first with
                          | none => exact ⟨m, rfl⟩
                          | some m' => exact ⟨m', rfl⟩
                      · exact hnext true (before + 1) _ (by rw [hcounts]; rfl) (by omega)

/-- The messages whose failure a pass looks for. -/
def guarded : List (Observed α) :=
  if e.kind = .consumed then (store.snapshot .failed).filterMap c.candidate? else []

/-- The calls of a pass that decides nothing: none of the messages that have failed is wanted,
and of the messages of the kind too few count. -/
inductive Exhausted : List (Call α) → Prop
  | intro {searched counted : List (Call α)} (hsearched : Searched (e.guarded c store) searched)
      (hcounted : e.Counted store ((store.snapshot e.kind).filterMap c.candidate?) 0 counted) :
      Exhausted (searched ++ counted)

/-- What a pass ends a wait with when the condition does not fail. -/
inductive Decides : Except Failure (Option (Observed α)) → Prop
  | met (m : Observed α) : Decides (.ok (some m))
  | failed (reason : FailureReason) (dump : String) :
      Decides (.error (.failedInstead e.subject reason dump))

/-- The calls of a pass: it breaks off, it decides, or it has asked about every message. -/
abbrev Passed : List (Call α) → Except Failure (Option (Observed α)) → Prop :=
  Scan e.subject (e.Exhausted c store) none e.Decides

variable {c store} in
theorem Counted.passed {records : List Observation} (hrecords : records.Perm (store.snapshot e.kind))
    {calls : List (Call α)} (h : e.Counted store (records.filterMap c.candidate?) 0 calls) :
    e.Counted store ((store.snapshot e.kind).filterMap c.candidate?) 0 calls :=
  ⟨h.asked.trans (hrecords.filterMap _), h.answered, h.few⟩

theorem passed_count {records : List Observation} (hrecords : records.Perm (store.snapshot e.kind))
    {searched : List (Call α)} (hsearched : Searched (e.guarded c store) searched)
    (state : σ × List (Call α)) :
    ∃ made, (count e c.recorded store records 0 none state).2.2 = state.2 ++ made ∧
      e.Passed c store (searched ++ made) (count e c.recorded store records 0 none state).1 := by
  obtain ⟨made, hlog, hscan⟩ := e.scan_count c store records 0 none state
  refine ⟨made, hlog, hscan.append ?_ ?_ ?_⟩
  · exact fun call hcall => ⟨false, hsearched.unwanted call hcall⟩
  · exact fun hcounted => .intro hsearched (hcounted.passed e hrecords)
  · rintro _ ⟨m, rfl⟩
    exact .met m

/-- What a pass asks. -/
theorem passed_evaluate {order : Order} (horder : order.Rearranges) (state : σ × List (Call α)) :
    ∃ made, (e.evaluate c.recorded order store state).2.2 = state.2 ++ made ∧
      e.Passed c store made (e.evaluate c.recorded order store state).1 := by
  have hkind := horder e.kind (store.snapshot e.kind)
  rw [evaluate]
  split
  · next hconsumed =>
      have hguarded : ((order .failed (store.snapshot .failed)).filterMap c.candidate?).Perm
          (e.guarded c store) := by
        rw [guarded, if_pos hconsumed]
        exact (horder .failed _).filterMap _
      obtain ⟨searched, hlog, hscan⟩ :=
        e.scan_failFast c store unexplained (order .failed (store.snapshot .failed)) state
      generalize failFast e c.recorded store unexplained (order .failed (store.snapshot .failed))
        state = searching at hlog hscan
      obtain ⟨result, after⟩ := searching
      cases hscan with
      | idle hidle =>
          have hsearched : Searched (e.guarded c store) searched :=
            ⟨hidle.asked.trans hguarded, hidle.unwanted⟩
          obtain ⟨counted, hlater, hpassed⟩ := e.passed_count c store hkind hsearched after
          refine ⟨searched ++ counted, ?_, hpassed⟩
          rw [hlater, hlog, List.append_assoc]
      | found hanswered h =>
          obtain ⟨reason, rfl⟩ := h
          exact ⟨searched, hlog, .found hanswered (.failed _ _)⟩
      | broken hanswered => exact ⟨_, hlog, .broken hanswered⟩
  · next hconsumed =>
      have hguarded : e.guarded c store = [] := if_neg hconsumed
      have hsearched : Searched (e.guarded c store) ([] : List (Call α)) := by
        rw [hguarded]
        exact ⟨.nil, by simp⟩
      exact e.passed_count c store hkind hsearched state

/-! ## Recording changes nothing -/

theorem failFast_recorded (fallback : FailureReason) (records : List Observation)
    (state : σ × List (Call α)) :
    (failFast e c.recorded store fallback records state).map id Prod.fst =
      failFast e c store fallback records state.1 := by
  induction records generalizing state with
  | nil => rfl
  | cons o rest ih =>
      rw [failFast, failFast, c.candidate?_recorded]
      cases c.candidate? o with
      | none => exact ih state
      | some m =>
          simp only [c.test_recorded]
          obtain ⟨answer, after⟩ := c.test m state.1
          cases answer with
          | error source => rfl
          | ok wanted =>
              cases wanted with
              | false => exact ih _
              | true => rfl

theorem count_recorded (records : List Observation) (before : Nat) (first : Option (Observed α))
    (state : σ × List (Call α)) :
    (count e c.recorded store records before first state).map id Prod.fst =
      count e c store records before first state.1 := by
  induction records generalizing before first state with
  | nil => rfl
  | cons o rest ih =>
      rw [count, count, c.candidate?_recorded]
      cases c.candidate? o with
      | none => exact ih before first state
      | some m =>
          simp only [c.test_recorded]
          obtain ⟨answer, after⟩ := c.test m state.1
          cases answer with
          | error source => rfl
          | ok wanted =>
              cases wanted with
              | false => exact ih _ _ _
              | true =>
                  simp only [apply_ite (Prod.map id Prod.fst), ih]
                  rfl

theorem evaluate_recorded (order : Order) (state : σ × List (Call α)) :
    (e.evaluate c.recorded order store state).map id Prod.fst =
      e.evaluate c order store state.1 := by
  rw [evaluate, evaluate]
  split
  · rw [← failFast_recorded]
    obtain ⟨result, after⟩ :=
      failFast e c.recorded store unexplained (order .failed (store.snapshot .failed)) state
    cases result with
    | error failure => rfl
    | ok _ => exact count_recorded e c store _ 0 none after
  · exact count_recorded e c store _ 0 none state

/-! ## Waits -/

variable {e c} in
theorem Exhausted.answered {calls : List (Call α)} (h : e.Exhausted c store calls) :
    ∀ call ∈ calls, call.Answered := by
  obtain ⟨hsearched, hcounted⟩ := h
  refine List.forall_mem_append.2 ⟨fun call hcall => ?_, hcounted.answered⟩
  exact ⟨false, hsearched.unwanted call hcall⟩

variable (order : Nat → Order) (world : Nat → Store)

/-- One pass, which is kept with its calls. -/
def visit (now : Nat) (state : σ × List (Visit α)) :
    Option (Except Failure (Observed α)) × σ × List (Visit α) :=
  let passed := e.pass c.recorded order world now (state.1, [])
  (passed.1, passed.2.1, state.2 ++ [⟨now, passed.2.2⟩])

/-- Waits for an expectation and keeps every pass with its calls. -/
def watch (drop : Option Nat) (start : Nat) (state : σ) :
    Option (Outcome (Observed α)) × σ × List (Visit α) :=
  let ended := (e.pace start).run drop (e.visit c order world) start (state, [])
  (outcome? (fun t => e.timedOut (world t) (t - start)) ended.1, ended.2)

/-- What the passes of a wait from an instant on ask, and how it ends. A failing call is the last
one of the last pass, and it alone is what such a wait ends with. A wait that nothing matches in
time makes all of its passes, and each of them asks about everything in vain. -/
structure Unmasked (p : Pace) (now : Nat) (visits : List (Visit α))
    (outcome : Option (Outcome (Observed α))) : Prop where
  paced : visits.map Visit.instant <+: p.passesFrom now
  failed : ∀ earlier visit later asked m source after,
    visits = earlier ++ visit :: later → visit.calls = asked ++ ⟨m, .error source⟩ :: after →
      later = [] ∧ after = [] ∧
        outcome = some ⟨visit.instant, .error (.condition e.subject source)⟩
  blamed : ∀ t subject source, outcome = some ⟨t, .error (.condition subject source)⟩ →
    subject = e.subject ∧
      ∃ earlier asked m, visits = earlier ++ [⟨t, asked ++ [⟨m, .error source⟩]⟩]
  timeout : ∀ t failure, outcome = some ⟨t, .error failure⟩ → failure.isTimeout →
    visits.map Visit.instant = p.passesFrom now ∧ t = p.lastFrom now ∧
      ∀ visit ∈ visits, e.Exhausted c (world visit.instant) visit.calls

section Steps

variable {e c order world} {p : Pace} {now later : Nat} {calls : List (Call α)}

/-- Where every call was answered, none failed. -/
theorem not_failed_of_answered (h : ∀ call ∈ calls, call.Answered) {asked after : List (Call α)}
    {m : Observed α} {source : String} : calls ≠ asked ++ ⟨m, .error source⟩ :: after := by
  rintro rfl
  obtain ⟨b, hb⟩ := h ⟨m, .error source⟩ (by simp)
  cases hb

theorem unmasked_dropped : e.Unmasked c world p now [] none := by
  constructor
  case paced => exact List.nil_prefix
  case failed =>
    intro earlier visit later _ _ _ _ hvisits
    cases earlier <;> cases hvisits
  case blamed => exact fun _ _ _ h => nomatch h
  case timeout => exact fun _ _ h => nomatch h

theorem of_singleton_eq {β : Type} {earlier later : List β} {first next : β}
    (h : [first] = earlier ++ next :: later) : earlier = [] ∧ next = first ∧ later = [] := by
  cases earlier with
  | nil => cases h; exact ⟨rfl, rfl, rfl⟩
  | cons _ _ => simp at h

theorem singleton_prefix_passesFrom (p : Pace) (now : Nat) : [now] <+: p.passesFrom now :=
  List.singleton_prefix_iff_head?_eq_some.2 (p.head?_passesFrom now)

theorem unmasked_decided (hcalls : ∀ call ∈ calls, call.Answered)
    {result : Except Failure (Observed α)}
    (hblamed : ∀ subject source, result ≠ .error (.condition subject source))
    (htimeout : ∀ failure, result = .error failure → ¬failure.isTimeout) :
    e.Unmasked c world p now [⟨now, calls⟩] (some ⟨now, result⟩) := by
  constructor
  case paced => exact singleton_prefix_passesFrom p now
  case failed =>
    intro earlier visit later _ _ _ _ hvisits hfailed
    obtain ⟨rfl, rfl, rfl⟩ := of_singleton_eq hvisits
    exact absurd hfailed (not_failed_of_answered hcalls)
  case blamed =>
    rintro _ subject source ⟨⟩
    exact absurd rfl (hblamed subject source)
  case timeout =>
    rintro _ failure ⟨⟩ h
    exact absurd h (htimeout failure rfl)

theorem unmasked_broken (hcalls : ∀ call ∈ calls, call.Answered) (m : Observed α)
    (source : String) :
    e.Unmasked c world p now [⟨now, calls ++ [⟨m, .error source⟩]⟩]
      (some ⟨now, .error (.condition e.subject source)⟩) := by
  constructor
  case paced => exact singleton_prefix_passesFrom p now
  case failed =>
    intro earlier visit later asked m' source' after hvisits hfailed
    obtain ⟨rfl, rfl, rfl⟩ := of_singleton_eq hvisits
    -- a call that fails before the last one would be among those that were answered
    rcases List.eq_nil_or_concat after with rfl | ⟨between, last, rfl⟩
    · obtain ⟨-, hlast⟩ := List.append_inj' hfailed rfl
      cases hlast
      exact ⟨rfl, rfl, rfl⟩
    · rw [List.concat_eq_append, ← List.cons_append, ← List.append_assoc] at hfailed
      exact absurd (List.append_inj' hfailed rfl).1 (not_failed_of_answered hcalls)
  case blamed =>
    rintro _ _ _ ⟨⟩
    exact ⟨rfl, [], calls, m, rfl⟩
  case timeout =>
    rintro _ _ ⟨⟩ h
    cases h

theorem unmasked_expired (hnext : p.next? now = none)
    (hcalls : e.Exhausted c (world now) calls) {failure : Failure} (hfailure : failure.isTimeout) :
    e.Unmasked c world p now [⟨now, calls⟩] (some ⟨now, .error failure⟩) := by
  constructor
  case paced => exact singleton_prefix_passesFrom p now
  case failed =>
    intro earlier visit later _ _ _ _ hvisits hfailed
    obtain ⟨rfl, rfl, rfl⟩ := of_singleton_eq hvisits
    exact absurd hfailed (not_failed_of_answered hcalls.answered)
  case blamed =>
    rintro _ _ _ ⟨⟩
    cases hfailure
  case timeout =>
    rintro _ _ ⟨⟩ -
    refine ⟨(Pace.passesFrom_of_none hnext).symm, (Pace.lastFrom_of_none hnext).symm, ?_⟩
    exact List.forall_mem_singleton.2 hcalls

theorem Unmasked.cons {visits : List (Visit α)} {outcome : Option (Outcome (Observed α))}
    (h : e.Unmasked c world p later visits outcome) (hnext : p.next? now = some later)
    (hcalls : e.Exhausted c (world now) calls) :
    e.Unmasked c world p now (⟨now, calls⟩ :: visits) outcome := by
  constructor
  case paced =>
    rw [Pace.passesFrom_of_some hnext]
    exact (List.prefix_cons_inj now).2 h.paced
  case failed =>
    intro earlier visit after asked m source rest hvisits hfailed
    cases earlier with
    | nil =>
        cases hvisits
        exact absurd hfailed (not_failed_of_answered hcalls.answered)
    | cons first earlier =>
        exact h.failed earlier visit after asked m source rest (List.cons.inj hvisits).2 hfailed
  case blamed =>
    intro t subject source houtcome
    obtain ⟨hsubject, earlier, asked, m, rfl⟩ := h.blamed t subject source houtcome
    exact ⟨hsubject, ⟨now, calls⟩ :: earlier, asked, m, rfl⟩
  case timeout =>
    intro t failure houtcome hfailure
    obtain ⟨hpasses, hlast, hvisits⟩ := h.timeout t failure houtcome hfailure
    rw [Pace.passesFrom_of_some hnext, ← Pace.lastFrom_of_some hnext]
    exact ⟨congrArg (now :: ·) hpasses, hlast, List.forall_mem_cons.2 ⟨hcalls, hvisits⟩⟩

variable (e c world) in
/-- A pass leaves a wait open after it has asked about everything, or it ends the wait. -/
theorem visit_cases (horder : ∀ now, (order now).Rearranges) (p : Pace) (now : Nat)
    (kept : σ × List (Visit α)) :
    ∃ calls, (e.visit c order world now kept).2.2 = kept.2 ++ [⟨now, calls⟩] ∧
      ((e.visit c order world now kept).1 = none ∧ e.Exhausted c (world now) calls ∨
        ∃ result, (e.visit c order world now kept).1 = some result ∧
          e.Unmasked c world p now [⟨now, calls⟩] (some ⟨now, result⟩)) := by
  obtain ⟨calls, hlog, hpassed⟩ := e.passed_evaluate c (world now) (horder now) (kept.1, [])
  rw [visit, pass]
  generalize e.evaluate c.recorded (order now) (world now) (kept.1, []) = passed at hlog hpassed ⊢
  obtain ⟨result, after, made⟩ := passed
  obtain rfl : made = calls := hlog
  cases hpassed with
  | idle h => exact ⟨_, rfl, Or.inl ⟨rfl, h⟩⟩
  | found hanswered h =>
      cases h with
      | met m =>
          refine ⟨_, rfl, Or.inr ⟨_, rfl, unmasked_decided hanswered ?_ ?_⟩⟩
          · exact fun _ _ h => nomatch h
          · exact fun _ h => nomatch h
      | failed reason dump =>
          refine ⟨_, rfl, Or.inr ⟨_, rfl, unmasked_decided hanswered ?_ ?_⟩⟩
          · exact fun _ _ h => nomatch h
          · rintro _ ⟨⟩ h
            cases h
  | broken hanswered => exact ⟨_, rfl, Or.inr ⟨_, rfl, unmasked_broken hanswered _ _⟩⟩

variable (e c world p) in
/-- The passes of a wait from an instant on, as they were kept, and what it ends with. -/
theorem unmasked_run (horder : ∀ now, (order now).Rearranges) (timedOut : Nat → Failure)
    (htimedOut : ∀ t, (timedOut t).isTimeout) (drop : Option Nat) (now : Nat)
    (kept : σ × List (Visit α)) :
    ∃ made, (p.run drop (e.visit c order world) now kept).2.2 = kept.2 ++ made ∧
      e.Unmasked c world p now made
        (outcome? timedOut (p.run drop (e.visit c order world) now kept).1) := by
  induction now using p.passesFrom_induction generalizing kept with
  | last now hnext =>
      rw [Pace.run_eq, hnext]
      split
      · obtain ⟨calls, hlog, ⟨hnone, hcalls⟩ | ⟨result, hsome, hpassed⟩⟩ :=
          visit_cases e c world horder p now kept
        · rw [hnone]
          exact ⟨_, hlog, unmasked_expired hnext hcalls (htimedOut now)⟩
        · rw [hsome]
          exact ⟨_, hlog, hpassed⟩
      · exact ⟨[], (List.append_nil _).symm, unmasked_dropped⟩
  | next now later hnext ih =>
      rw [Pace.run_eq, hnext]
      split
      · obtain ⟨calls, hlog, ⟨hnone, hcalls⟩ | ⟨result, hsome, hpassed⟩⟩ :=
          visit_cases e c world horder p now kept
        · rw [hnone]
          obtain ⟨made, hlater, hunmasked⟩ := ih (e.visit c order world now kept).2
          refine ⟨⟨now, calls⟩ :: made, ?_, hunmasked.cons hnext hcalls⟩
          rw [hlater, hlog, List.append_assoc, List.singleton_append]
        · rw [hsome]
          exact ⟨_, hlog, hpassed⟩
      · exact ⟨[], (List.append_nil _).symm, unmasked_dropped⟩

end Steps

variable {order} in
/-- Keeping the passes of a wait changes nothing about it. -/
theorem watch_eq_run (drop : Option Nat) (start : Nat) (state : σ) :
    (e.watch c order world drop start state).map id Prod.fst =
      e.run c order world drop start state := by
  have hpass : ∀ now (kept : σ × List (Visit α)),
      (e.visit c order world now kept).map id Prod.fst = e.pass c order world now kept.1 := by
    intro now kept
    rw [pass, ← e.evaluate_recorded c (world now) (order now) (kept.1, []), visit, pass]
    obtain ⟨result, after, made⟩ := e.evaluate c.recorded (order now) (world now) (kept.1, [])
    rcases result with failure | _ | m <;> rfl
  have hrun : ((e.pace start).run drop (e.visit c order world) start (state, [])).map id Prod.fst =
      (e.pace start).run drop (e.pass c order world) start state :=
    Pace.map_run hpass start (state, [])
  exact congrArg
    (fun ended => (outcome? (fun t => e.timedOut (world t) (t - start)) ended.1, ended.2)) hrun

end Expectation

/-- A condition that fails is not masked by waiting. Whatever a condition remembers, and
whatever order every pass meets the records in, keeping the calls of a wait changes nothing about
it. The first call that fails is the last call of the last pass, and the wait ends in that pass
with what the call failed with; it ends so for no other reason. A wait that nothing matches in
time has made all of its passes, and every one of them has asked about each message of the kind,
and about each message that has failed if a delivered one is expected. No call of it failed, no
message that has failed was wanted, and of the messages of the kind fewer counted than are
wanted. -/
theorem condition_error_ends_wait (e : Expectation) (c : Criterion α σ) (order : Nat → Order)
    (world : Nat → Store) (drop : Option Nat) (start : Nat) (state : σ)
    (horder : ∀ now, (order now).Rearranges) :
    let watched := e.watch c order world drop start state
    (watched.1, watched.2.1) = e.run c order world drop start state ∧
      e.Unmasked c world (e.pace start) start watched.2.2 watched.1 := by
  intro watched
  refine ⟨e.watch_eq_run c world drop start state, ?_⟩
  obtain ⟨made, hlog, hunmasked⟩ := e.unmasked_run c world (e.pace start) horder
    (fun t => e.timedOut (world t) (t - start)) (fun _ => rfl) drop start (state, [])
  obtain rfl : watched.2.2 = made := hlog
  exact hunmasked

/-- A condition that fails when it is asked a second time ends a wait for one message in its
second pass. -/
theorem condition_error_ends_wait_second_pass :
    let e : Expectation := ⟨.published, "order", 5 * second, 50 * millisecond, false, 1⟩
    let c : Criterion Bytes Nat :=
      ⟨some, fun _ n => (if n = 0 then .ok false else .error "asked again", n + 1)⟩
    let store := Store.empty.record (.published ⟨"p1", "orders", [0x31], none, .empty⟩)
    let outcome : Outcome (Observed Bytes) :=
      ⟨50 * millisecond, .error (.condition "order" "asked again")⟩
    Order.stored.Rearranges ∧
      e.run c (fun _ => .stored) (fun _ => store) none 0 0 = (some outcome, 2) ∧
      ∃ earlier asked m, (e.watch c (fun _ => .stored) (fun _ => store) none 0 0).2.2 =
        earlier ++ [⟨50 * millisecond, asked ++ [⟨m, .error "asked again"⟩]⟩] := by
  intro e c store outcome
  have hrun : e.run c (fun _ => .stored) (fun _ => store) none 0 0 = (some outcome, 2) := by
    have hnext : (e.pace 0).next? 0 = some (50 * millisecond) := by decide
    rw [Expectation.run, Pace.run_of_next rfl hnext, Pace.run_eq]
    rfl
  obtain ⟨hsame, hunmasked⟩ := condition_error_ends_wait e c (fun _ => .stored) (fun _ => store)
    none 0 0 fun _ => Order.rearranges_stored
  have houtcome : (e.watch c (fun _ => .stored) (fun _ => store) none 0 0).1 = some outcome :=
    congrArg Prod.fst (hsame.trans hrun)
  obtain ⟨-, hlast⟩ := hunmasked.blamed _ _ _ houtcome
  exact ⟨Order.rearranges_stored, hrun, hlast⟩

end TopicWatch.Wait
