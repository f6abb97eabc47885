import TopicWatch.Proofs.Wait.Matching
import TopicWatch.Proofs.Wait.Passes

/-!
# How a wait settles

A wait for a condition that stays once it holds, such as one on a store that only grows: it
ends in the first pass that sees the condition, or in its last pass.
-/

namespace TopicWatch.Wait

open Duration Record

/-- The first pass of a wait that sees a condition. It comes less than an interval, rounded up
to whole milliseconds, after the condition came true. -/
structure Pace.FirstSeen (p : Pace) (holds : Nat → Prop) (now : Nat) : Prop where
  pass : now ∈ p.passes
  seen : holds now
  first : ∀ earlier ∈ p.passes, earlier < now → ¬holds earlier
  prompt : ∀ since, p.start ≤ since → holds since → now < since + wholeMillisecond p.step

/-- How a wait for a condition ends. If the condition holds in the pass at the first whole
millisecond not before the deadline, the wait ends in the first pass that sees it, with a
result that this pass admits. If not, it ends in that last pass with a timeout. -/
structure Settles {β : Type} (p : Pace) (holds : Nat → Prop)
    (admits : Nat → Except Failure β → Prop) (timedOut : Nat → Failure)
    (outcome : Option (Outcome β)) : Prop where
  decided : holds (wholeMillisecond p.deadline) →
    ∃ now result, outcome = some ⟨now, result⟩ ∧ p.FirstSeen holds now ∧ admits now result
  expired : ¬holds (wholeMillisecond p.deadline) →
    outcome = some ⟨wholeMillisecond p.deadline, .error (timedOut (wholeMillisecond p.deadline))⟩

theorem Settles.imp {β : Type} {p : Pace} {holds holds' : Nat → Prop}
    {admits admits' : Nat → Except Failure β → Prop} {timedOut : Nat → Failure}
    {outcome : Option (Outcome β)} (h : Settles p holds admits timedOut outcome)
    (hholds : ∀ now, holds now ↔ holds' now)
    (hadmits : ∀ now result, admits now result → admits' now result) :
    Settles p holds' admits' timedOut outcome := by
  have heq : holds = holds' := funext fun now => propext (hholds now)
  subst heq
  constructor
  · intro hlast
    obtain ⟨now, result, houtcome, hseen, hadmitted⟩ := h.decided hlast
    exact ⟨now, result, houtcome, hseen, hadmits now result hadmitted⟩
  · exact h.expired

/-- A condition that stays once it holds is seen promptly: the next pass after it came true
sees it. -/
theorem Pace.FirstSeen.of_first {p : Pace} {holds : Nat → Prop} (htick : millisecond ∣ p.start)
    (hmono : ∀ now later, now ≤ later → holds now → holds later) {now : Nat}
    (hpass : now ∈ p.passes) (hseen : holds now)
    (hfirst : ∀ earlier ∈ p.passes, earlier < now → ¬holds earlier) : p.FirstSeen holds now := by
  refine ⟨hpass, hseen, hfirst, ?_⟩
  intro since hstart hsince
  have hend : now ≤ p.lastFrom p.start := Pace.le_lastFrom hpass
  by_cases hlate : since ≤ p.lastFrom p.start
  · obtain ⟨next, hnext, hle, hlt⟩ := Pace.exists_pass_after htick hstart hlate
    have hnot : ¬next < now := fun h => hfirst next hnext h (hmono since next hle hsince)
    omega
  · omega

/-- A wait settles when its passes decide exactly where a condition holds, and the condition
stays once it holds. -/
theorem settles_of_monotone {β : Type} {p : Pace} {holds : Nat → Prop}
    {admits : Nat → Except Failure β → Prop} {timedOut : Nat → Failure}
    {decision : Nat → Option (Except Failure β)} (htick : millisecond ∣ p.start)
    (hmono : ∀ now later, now ≤ later → holds now → holds later)
    (hnone : ∀ now, decision now = none ↔ ¬holds now)
    (hsome : ∀ now result, decision now = some result → admits now result) :
    Settles p holds admits timedOut (outcome? timedOut (p.runForgetful decision p.start)) := by
  have hlast : p.lastFrom p.start = wholeMillisecond p.deadline := Pace.lastPass_of_dvd htick
  obtain ⟨now, hpass, result, hresult, hfirst, hrun⟩ | ⟨hall, hrun⟩ :=
    p.runForgetful_cases decision p.start
  · have hholds : holds now := by
      by_contra hnot
      rw [(hnone now).2 hnot] at hresult
      cases hresult
    have hseen : p.FirstSeen holds now := by
      apply Pace.FirstSeen.of_first htick hmono hpass hholds
      intro earlier hmem hlt
      exact (hnone earlier).1 (hfirst earlier hmem hlt)
    constructor
    · intro _
      exact ⟨now, result, by rw [hrun]; rfl, hseen, hsome now result hresult⟩
    · intro hnot
      have hend : now ≤ wholeMillisecond p.deadline := hlast ▸ Pace.le_lastFrom hpass
      exact absurd (hmono now _ hend hholds) hnot
  · have hnot : ¬holds (wholeMillisecond p.deadline) :=
      (hnone _).1 (hlast ▸ hall _ (p.lastFrom_mem p.start))
    constructor
    · intro h
      exact absurd h hnot
    · intro _
      rw [hrun, hlast]
      rfl

namespace Expectation

variable {α : Type} (e : Expectation) (decode : Bytes → Option α) (test : Observed α → Bool)
  (order : Nat → Order) (world : Nat → Store)

/-- What the pass at an instant decides. -/
def decision (now : Nat) : Option (Except Failure (Observed α)) :=
  (verdict (e.evaluate (.pure decode test) (order now) (world now) ())).1

/-- A wait with a condition that neither fails nor remembers anything is one whose passes
remember nothing. -/
theorem run_pure (start : Nat) :
    (e.run (.pure decode test) order world none start ()).1 =
      outcome? (fun t => e.timedOut (world t) (t - start))
        ((e.pace start).runForgetful (e.decision decode test order world) start) := rfl

variable {e decode test order}

/-- An expectation of other messages than delivered ones is over at once if enough messages
count. -/
theorem run_of_met {start : Nat} (hkind : e.kind ≠ .consumed) (horder : (order start).Rearranges)
    (hmet : e.Met decode test (world start)) :
    ∃ m ∈ e.matching decode test (world start),
      (e.run (.pure decode test) order world none start ()).1 = some ⟨start, .ok m⟩ := by
  have hanswers : e.Answers decode test (world start) (e.decision decode test order world start) :=
    answers_evaluate horder
  rw [run_pure]
  generalize hdecision : e.decision decode test order world start = answer at hanswers
  cases hanswers with
  | failed hreason =>
      rw [failing, if_neg hkind] at hreason
      cases hreason
  | met _ _ hm =>
      rw [Pace.runForgetful_of_some hdecision]
      exact ⟨_, hm, rfl⟩
  | waits _ hnot => exact absurd hmet hnot

end Expectation

end TopicWatch.Wait
