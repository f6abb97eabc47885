import Mathlib.Data.List.Basic
import Mathlib.Data.List.Flatten
import TopicWatch.Proofs.Store.Records
import TopicWatch.Wait.Timeline

/-!
# Timelines of records

A timeline that only files records, each under an id that is new in its bucket: the store only
grows with time, in whatever order the timeline lists its changes.
-/

namespace TopicWatch.Wait.Timeline

open Record

/-- The records that changes file, in order. -/
def recorded (changes : List Store.Change) : List Observation :=
  changes.filterMap fun
    | .record o => some o
    | .clear => none

/-- A timeline that forgets nothing, and whose records never take the place of another one of
their kind, in the store before it or among themselves. -/
structure AppendsTo (t : Timeline) (before : Store) : Prop where
  keeps : Store.Change.clear ∉ t.flatMap Prod.snd
  fresh : before.Fresh (recorded (t.flatMap Prod.snd))

instance (t : Timeline) (before : Store) : Decidable (t.AppendsTo before) :=
  decidable_of_iff (Store.Change.clear ∉ t.flatMap Prod.snd ∧
      before.Fresh (recorded (t.flatMap Prod.snd)))
    ⟨fun h => ⟨h.1, h.2⟩, fun h => ⟨h.keeps, h.fresh⟩⟩

theorem run_eq_foldl_record {changes : List Store.Change}
    (h : Store.Change.clear ∉ changes) (s : Store) :
    s.run changes = (recorded changes).foldl Store.record s := by
  induction changes generalizing s with
  | nil => rfl
  | cons c changes ih =>
      rw [List.mem_cons, not_or] at h
      cases c with
      | clear => exact absurd rfl h.1
      | record o => exact ih h.2 (s.record o)

variable {t : Timeline} {before : Store}

theorem upTo_sublist_changes (t : Timeline) (now : Nat) :
    (t.upTo now).Sublist (t.flatMap Prod.snd) :=
  List.Sublist.flatMap List.filter_sublist _

theorem upTo_sublist_upTo (t : Timeline) {now later : Nat} (h : now ≤ later) :
    (t.upTo now).Sublist (t.upTo later) := by
  apply List.Sublist.flatMap
  apply List.monotone_filter_right
  intro entry hentry
  rw [decide_eq_true_iff] at hentry ⊢
  exact Nat.le_trans hentry h

theorem AppendsTo.storeAt_eq (h : t.AppendsTo before) (now : Nat) :
    t.storeAt before now = (recorded (t.upTo now)).foldl Store.record before := by
  apply run_eq_foldl_record
  intro hclear
  exact h.keeps ((upTo_sublist_changes t now).subset hclear)

/-- What is in the store at an instant is there at every later one. -/
theorem AppendsTo.within (h : t.AppendsTo before) {now later : Nat} (hle : now ≤ later) :
    (t.storeAt before now).Within (t.storeAt before later) := by
  rw [h.storeAt_eq, h.storeAt_eq]
  apply Store.within_foldl_record
  · exact h.fresh.sublist ((upTo_sublist_changes t later).filterMap _)
  · exact (upTo_sublist_upTo t hle).filterMap _

end TopicWatch.Wait.Timeline
