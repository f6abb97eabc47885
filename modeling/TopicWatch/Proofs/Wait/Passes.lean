import Mathlib.Tactic.Common
import TopicWatch.Wait.Pace

/-!
# The passes of a wait

A wait that no pass decides makes its passes at increasing instants until the first one at or
after its deadline. A wait whose passes remember nothing ends in the first pass that decides.
-/

namespace TopicWatch.Wait

open Duration

theorem dvd_wholeMillisecond (t : Nat) : millisecond ∣ wholeMillisecond t :=
  Nat.dvd_mul_left millisecond _

/-- Of the whole milliseconds not before an instant the first one is taken. -/
theorem wholeMillisecond_le {t tick : Nat} (htick : millisecond ∣ tick) (h : t ≤ tick) :
    wholeMillisecond t ≤ tick := by
  obtain ⟨n, rfl⟩ := htick
  simp only [wholeMillisecond, millisecond] at h ⊢
  omega

theorem wholeMillisecond_of_dvd {tick : Nat} (htick : millisecond ∣ tick) :
    wholeMillisecond tick = tick :=
  Nat.le_antisymm (wholeMillisecond_le htick (Nat.le_refl _)) (Pace.le_wholeMillisecond _)

theorem wholeMillisecond_mono {s t : Nat} (h : s ≤ t) : wholeMillisecond s ≤ wholeMillisecond t :=
  wholeMillisecond_le (dvd_wholeMillisecond t) (Nat.le_trans h (Pace.le_wholeMillisecond t))

theorem wholeMillisecond_add {tick : Nat} (htick : millisecond ∣ tick) (t : Nat) :
    wholeMillisecond (tick + t) ≤ tick + wholeMillisecond t :=
  wholeMillisecond_le (Nat.dvd_add htick (dvd_wholeMillisecond t))
    (Nat.add_le_add_left (Pace.le_wholeMillisecond t) tick)

namespace Pace

variable {p : Pace} {now later : Nat}

theorem start_le_deadline (p : Pace) : p.start ≤ p.deadline := by
  rw [deadline]
  split <;> exact Nat.le_add_right _ _

theorem deadline_le_of_next? (h : p.next? now = none) : p.deadline ≤ now := by
  rw [next?] at h
  split at h
  · assumption
  · cases h

theorem of_next? (h : p.next? now = some later) :
    ∃ slept, now < now + slept ∧ slept ≤ p.step ∧ now + slept ≤ p.deadline ∧
      later = wholeMillisecond (now + slept) := by
  rw [next?] at h
  split at h
  · cases h
  · next hlt =>
      have hstep := p.step_pos
      exact ⟨min p.step (p.deadline - now), by omega, by omega, by omega, (Option.some.inj h).symm⟩

theorem le_wholeDeadline_of_next? (h : p.next? now = some later) :
    later ≤ wholeMillisecond p.deadline := by
  obtain ⟨slept, -, -, hle, rfl⟩ := of_next? h
  exact wholeMillisecond_mono hle

theorem dvd_of_next? (h : p.next? now = some later) : millisecond ∣ later := by
  obtain ⟨slept, -, -, -, rfl⟩ := of_next? h
  exact dvd_wholeMillisecond _

/-- From one whole millisecond the next pass is at most an interval away. -/
theorem le_add_step_of_next? (h : p.next? now = some later) (htick : millisecond ∣ now) :
    later ≤ now + wholeMillisecond p.step := by
  obtain ⟨slept, -, hstep, -, rfl⟩ := of_next? h
  calc wholeMillisecond (now + slept)
      ≤ now + wholeMillisecond slept := wholeMillisecond_add htick slept
    _ ≤ now + wholeMillisecond p.step := Nat.add_le_add_left (wholeMillisecond_mono hstep) now

/-- The instants of the passes from one on, as long as no pass decides. -/
def passesFrom (p : Pace) (now : Nat) : List Nat :=
  match _h : p.next? now with
  | none => [now]
  | some later => now :: p.passesFrom later
termination_by p.deadline - now
decreasing_by
  have := lt_of_next? _h
  omega

/-- The instants of the passes of a wait that no pass decides. -/
def passes (p : Pace) : List Nat := p.passesFrom p.start

/-- The last of the passes from one on. -/
def lastFrom (p : Pace) (now : Nat) : Nat :=
  if p.deadline ≤ now then now else wholeMillisecond p.deadline

/-- The last pass of a wait that no pass decides. -/
def lastPass (p : Pace) : Nat := p.lastFrom p.start

theorem passesFrom_of_none (h : p.next? now = none) : p.passesFrom now = [now] := by
  rw [passesFrom]
  split
  · rfl
  · next h' => rw [h] at h'; cases h'

theorem passesFrom_of_some (h : p.next? now = some later) :
    p.passesFrom now = now :: p.passesFrom later := by
  rw [passesFrom]
  split
  · next h' => rw [h] at h'; cases h'
  · next h' => rw [h] at h'; cases h'; rfl

theorem lastFrom_of_none (h : p.next? now = none) : p.lastFrom now = now :=
  if_pos (deadline_le_of_next? h)

theorem lastFrom_of_some (h : p.next? now = some later) :
    p.lastFrom later = p.lastFrom now := by
  have hnow : p.lastFrom now = wholeMillisecond p.deadline :=
    if_neg (Nat.not_le.2 (lt_of_next? h).2)
  rw [hnow, lastFrom]
  split
  · next hle =>
      exact Nat.le_antisymm (le_wholeDeadline_of_next? h) (wholeMillisecond_le (dvd_of_next? h) hle)
  · rfl

/-- A wait that begins at a whole millisecond makes its last pass at the first one not before
its deadline. -/
theorem lastPass_of_dvd (htick : millisecond ∣ p.start) :
    p.lastPass = wholeMillisecond p.deadline := by
  rw [lastPass, lastFrom]
  split
  · next hle =>
      have heq : p.deadline = p.start := Nat.le_antisymm hle p.start_le_deadline
      rw [heq, wholeMillisecond_of_dvd htick]
  · rfl

/-- The passes of a wait, one after the other. -/
theorem passesFrom_induction (p : Pace) {motive : Nat → Prop}
    (last : ∀ now, p.next? now = none → motive now)
    (next : ∀ now later, p.next? now = some later → motive later → motive now) (now : Nat) :
    motive now := by
  induction now using passesFrom.induct p with
  | case1 now h => exact last now h
  | case2 now later h ih => exact next now later h ih

theorem self_mem_passesFrom (p : Pace) (now : Nat) : now ∈ p.passesFrom now := by
  cases h : p.next? now with
  | none => simp [passesFrom_of_none h]
  | some later => simp [passesFrom_of_some h]

theorem le_of_mem_passesFrom {t : Nat} (ht : t ∈ p.passesFrom now) : now ≤ t := by
  induction now using p.passesFrom_induction with
  | last now h =>
      rw [passesFrom_of_none h, List.mem_singleton] at ht
      exact Nat.le_of_eq ht.symm
  | next now later h ih =>
      rw [passesFrom_of_some h, List.mem_cons] at ht
      obtain rfl | ht := ht
      · exact Nat.le_refl _
      · calc now ≤ later := Nat.le_of_lt (lt_of_next? h).1
          _ ≤ t := ih ht

theorem lastFrom_mem (p : Pace) (now : Nat) : p.lastFrom now ∈ p.passesFrom now := by
  induction now using p.passesFrom_induction with
  | last now h =>
      rw [passesFrom_of_none h, lastFrom_of_none h]
      exact List.mem_singleton_self now
  | next now later h ih =>
      rw [passesFrom_of_some h, ← lastFrom_of_some h]
      exact List.mem_cons_of_mem now ih

theorem le_lastFrom {t : Nat} (ht : t ∈ p.passesFrom now) : t ≤ p.lastFrom now := by
  induction now using p.passesFrom_induction with
  | last now h =>
      rw [passesFrom_of_none h, List.mem_singleton] at ht
      exact Nat.le_of_eq (ht.trans (lastFrom_of_none h).symm)
  | next now later h ih =>
      rw [passesFrom_of_some h, List.mem_cons] at ht
      rw [← lastFrom_of_some h]
      obtain rfl | ht := ht
      · calc t ≤ later := Nat.le_of_lt (lt_of_next? h).1
          _ ≤ p.lastFrom later := le_of_mem_passesFrom (p.lastFrom_mem later)
      · exact ih ht

/-- Whatever happens up to the last pass is seen by a pass less than an interval later. -/
theorem exists_pass_after (htick : millisecond ∣ now) {since : Nat} (hsince : now ≤ since)
    (hlast : since ≤ p.lastFrom now) :
    ∃ t ∈ p.passesFrom now, since ≤ t ∧ t < since + wholeMillisecond p.step := by
  have hstep : 0 < wholeMillisecond p.step := Nat.lt_of_lt_of_le p.step_pos (le_wholeMillisecond _)
  induction now using p.passesFrom_induction with
  | last now h =>
      rw [lastFrom_of_none h] at hlast
      exact ⟨now, p.self_mem_passesFrom now, hlast, by omega⟩
  | next now later h ih =>
      rw [← lastFrom_of_some h] at hlast
      rw [passesFrom_of_some h]
      -- the change comes with this pass, after the next one, or between the two
      obtain heq | hlt := Nat.eq_or_lt_of_le hsince
      · exact ⟨now, List.mem_cons_self, by omega, by omega⟩
      · by_cases hlater : later ≤ since
        · obtain ⟨t, ht, hle⟩ := ih (dvd_of_next? h) hlater hlast
          exact ⟨t, List.mem_cons_of_mem now ht, hle⟩
        · have hnear := le_add_step_of_next? h htick
          exact ⟨later, List.mem_cons_of_mem now (p.self_mem_passesFrom later), by omega, by omega⟩

section Steps

variable {σ β : Type} {pass : Nat → σ → Option β × σ} {state : σ} {drop : Option Nat}

/-- What is made of a pass: the end of the wait, or a later pass. -/
theorem run_eq :
    p.run drop pass now state =
      if p.stillWaits drop now then
        match (pass now state).1, p.next? now with
        | some result, _ => (.decided now result, (pass now state).2)
        | none, none => (.expired now, (pass now state).2)
        | none, some later => p.run drop pass later (pass now state).2
      else (.dropped, state) := by
  rw [run]
  obtain ⟨decided, remembered⟩ := pass now state
  cases decided with
  | some result => rfl
  | none =>
      simp only
      split
      · split <;> next h => rw [h]
      · rfl

/-- A last pass that decides nothing ends the wait. -/
theorem run_of_last (h : (pass now state).1 = none) (hnext : p.next? now = none) :
    p.run none pass now state = (.expired now, (pass now state).2) := by
  rw [run_eq, h, hnext]
  rfl

/-- A pass that decides nothing leaves it to the next one. -/
theorem run_of_next (h : (pass now state).1 = none) (hnext : p.next? now = some later) :
    p.run none pass now state = p.run none pass later (pass now state).2 := by
  rw [run_eq, h, hnext]
  rfl

/-- A wait whose passes keep more in mind than they need ends the same. -/
theorem map_run {τ : Type} {pass' : Nat → τ → Option β × τ} {forget : τ → σ}
    (hpass : ∀ now kept, (pass' now kept).map id forget = pass now (forget kept)) (now : Nat)
    (kept : τ) :
    (p.run drop pass' now kept).map id forget = p.run drop pass now (forget kept) := by
  induction now using p.passesFrom_induction generalizing kept with
  | last now h =>
      rw [run_eq, run_eq, ← hpass, h]
      obtain ⟨decided, after⟩ := pass' now kept
      split
      · cases decided <;> rfl
      · rfl
  | next now later h ih =>
      rw [run_eq, run_eq, ← hpass, h]
      obtain ⟨decided, after⟩ := pass' now kept
      split
      · cases decided with
        | some result => rfl
        | none => exact ih after
      · rfl

end Steps

section Forgetful

variable {β : Type} (p : Pace) (decision : Nat → Option β)

/-- A wait whose passes remember nothing and that is not dropped. -/
def runForgetful (now : Nat) : Ending β :=
  (p.run none (fun t (_ : Unit) => (decision t, ())) now ()).1

variable {p decision}

theorem runForgetful_of_some {result : β} (h : decision now = some result) :
    p.runForgetful decision now = .decided now result := by
  rw [runForgetful, run]
  simp [stillWaits, h]

theorem runForgetful_of_last (h : decision now = none) (hnext : p.next? now = none) :
    p.runForgetful decision now = .expired now :=
  congrArg Prod.fst (run_of_last h hnext)

theorem runForgetful_of_next (h : decision now = none) (hnext : p.next? now = some later) :
    p.runForgetful decision now = p.runForgetful decision later :=
  congrArg Prod.fst (run_of_next h hnext)

variable (p decision)

/-- A wait whose passes remember nothing is decided in the first pass that decides, or makes
all of its passes. -/
theorem runForgetful_cases (now : Nat) :
    (∃ t ∈ p.passesFrom now, ∃ result, decision t = some result ∧
        (∀ earlier ∈ p.passesFrom now, earlier < t → decision earlier = none) ∧
        p.runForgetful decision now = .decided t result) ∨
      (∀ t ∈ p.passesFrom now, decision t = none) ∧
        p.runForgetful decision now = .expired (p.lastFrom now) := by
  induction now using p.passesFrom_induction with
  | last now hnext =>
      rw [passesFrom_of_none hnext, lastFrom_of_none hnext]
      cases h : decision now with
      | none => exact Or.inr ⟨by simpa using h, runForgetful_of_last h hnext⟩
      | some result =>
          refine Or.inl ⟨now, List.mem_singleton_self now, result, h, ?_, runForgetful_of_some h⟩
          intro earlier hmem hlt
          exact absurd (List.mem_singleton.1 hmem) (Nat.ne_of_lt hlt)
  | next now later hnext ih =>
      rw [passesFrom_of_some hnext, ← lastFrom_of_some hnext]
      cases h : decision now with
      | none =>
          rw [runForgetful_of_next h hnext]
          obtain ⟨t, ht, result, hresult, hfirst, hrun⟩ | ⟨hnone, hrun⟩ := ih
          · refine Or.inl ⟨t, List.mem_cons_of_mem now ht, result, hresult, ?_, hrun⟩
            intro earlier hmem hlt
            obtain rfl | hmem := List.mem_cons.1 hmem
            · exact h
            · exact hfirst earlier hmem hlt
          · exact Or.inr ⟨List.forall_mem_cons.2 ⟨h, hnone⟩, hrun⟩
      | some result =>
          refine Or.inl ⟨now, List.mem_cons_self, result, h, ?_, runForgetful_of_some h⟩
          intro earlier hmem hlt
          obtain rfl | hmem := List.mem_cons.1 hmem
          · exact absurd hlt (Nat.lt_irrefl _)
          · have hle := le_of_mem_passesFrom hmem
            have hlater := (lt_of_next? hnext).1
            omega

end Forgetful

end Pace

end TopicWatch.Wait
