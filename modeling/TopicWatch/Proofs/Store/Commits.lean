import Mathlib.Data.List.Nodup
import TopicWatch.Proofs.Store.Contents

/-!
# What is committed

The watermarks stand beside the bucket of commits and are never looked up there. They tell
what was committed since the store was last cleared, whatever was filed in between, and the
bucket tells the same as long as no commit took the place of another one.
-/

namespace TopicWatch

open Record

/-- A commit covers what lies at least one below its own offset, as integers without bound. -/
theorem Record.Committed.covers_iff (c : Committed) (offset : Offset) :
    c.covers offset ↔ offset.toInt + 1 ≤ c.offset.toInt := by
  rw [covers, decide_eq_true_iff, Int64.lt_iff_toInt_lt, Int.add_one_le_iff]

namespace Store

theorem commits_iff {topic : String} {partition : Partition} {offset : Offset}
    {o : Observation} :
    commits topic partition offset o ↔
      ∃ c, o = .committed c ∧ c.topic = topic ∧ c.partition = partition ∧ c.covers offset := by
  cases o with
  | committed c =>
      rw [commits, decide_eq_true_iff, Prod.mk.injEq]
      constructor
      · rintro ⟨⟨rfl, rfl⟩, hlt⟩
        exact ⟨c, rfl, rfl, rfl, decide_eq_true hlt⟩
      · rintro ⟨c', heq, rfl, rfl, hcovers⟩
        obtain rfl := Observation.committed.inj heq
        exact ⟨⟨rfl, rfl⟩, of_decide_eq_true hcovers⟩
  | _ => simp [commits]

/-- What is committed in a store that was filled from the beginning. -/
theorem isCommitted_foldl_record_empty (os : List Observation) (topic : String)
    (partition : Partition) (offset : Offset) :
    (os.foldl record empty).isCommitted topic partition offset ↔
      ∃ c, .committed c ∈ os ∧ c.topic = topic ∧ c.partition = partition ∧ c.covers offset := by
  have hempty : empty.isCommitted topic partition offset = false := rfl
  rw [isCommitted_foldl_record, hempty, Bool.or_false, List.any_eq_true]
  constructor
  · rintro ⟨o, ho, hcommits⟩
    obtain ⟨c, rfl, hc⟩ := commits_iff.1 hcommits
    exact ⟨c, ho, hc⟩
  · rintro ⟨c, ho, hc⟩
    exact ⟨_, ho, commits_iff.2 ⟨c, rfl, hc⟩⟩

/-- Only clearing makes undone what was committed. -/
theorem isCommitted_run_of_not_clear {s : Store} {topic : String} {partition : Partition}
    {offset : Offset} (h : s.isCommitted topic partition offset) {changes : List Change}
    (hkeeps : .clear ∉ changes) : (s.run changes).isCommitted topic partition offset := by
  rw [run_eq_foldl_sinceClear, if_neg hkeeps, isCommitted_foldl_record, h, Bool.or_true]

/-- The watermarks of a run of records and clearings tell its history: an offset is committed
exactly if a commit beyond it was filed since the store was last cleared. So what is committed
stays so until the store is cleared, whatever else is filed. Every commit that is listed tells
what is committed, and nothing else is committed when no two commits since the last clearing
have the same id. -/
theorem watermark_of_history (changes : List Change) (topic : String) (partition : Partition)
    (offset : Offset) :
    let s := empty.run changes
    (s.isCommitted topic partition offset ↔
        ∃ c, .committed c ∈ sinceClear changes ∧ c.topic = topic ∧ c.partition = partition ∧
          offset.toInt + 1 ≤ c.offset.toInt) ∧
      (∀ c : Committed, c.covers offset ↔ offset.toInt + 1 ≤ c.offset.toInt) ∧
      (∀ later, s.isCommitted topic partition offset → .clear ∉ later →
        (s.run later).isCommitted topic partition offset) ∧
      (∀ c, .committed c ∈ s.snapshot .committed → c.topic = topic → c.partition = partition →
        c.covers offset → s.isCommitted topic partition offset) ∧
      ((((sinceClear changes).filter fun o => o.kind = .committed).map Observation.id).Nodup →
        s.isCommitted topic partition offset →
          ∃ c, .committed c ∈ s.snapshot .committed ∧ c.topic = topic ∧
            c.partition = partition ∧ c.covers offset) := by
  intro s
  have hs : s = (sinceClear changes).foldl record empty := by
    rw [show s = _ from run_eq_foldl_sinceClear empty changes, ite_self]
  have hhistory : s.isCommitted topic partition offset ↔
      ∃ c, .committed c ∈ sinceClear changes ∧ c.topic = topic ∧ c.partition = partition ∧
        c.covers offset := by
    rw [hs]
    exact isCommitted_foldl_record_empty _ topic partition offset
  refine ⟨?_, fun c => c.covers_iff offset, fun later h => isCommitted_run_of_not_clear h, ?_, ?_⟩
  · simpa only [Committed.covers_iff] using hhistory
  · intro c hc htopic hpartition hcovers
    rw [hs] at hc
    exact hhistory.2 ⟨c, (mem_of_mem_snapshot hc).1, htopic, hpartition, hcovers⟩
  · intro hids hcommitted
    have hunambiguous : Unambiguous ((sinceClear changes).filter fun o => o.kind = .committed) :=
      fun o ho o' ho' hplace =>
        List.inj_on_of_nodup_map hids ho ho' (congrArg Prod.snd hplace)
    obtain ⟨c, hc, hrest⟩ := hhistory.1 hcommitted
    refine ⟨c, ?_, hrest⟩
    rw [hs]
    exact (mem_snapshot_of_unambiguous hunambiguous).2 ⟨hc, rfl⟩

/-- A lower commit after a higher one takes nothing back. What came before the clearing does
not count. -/
theorem watermark_of_history_regressed :
    let changes : List Change :=
      [.record (.committed ⟨"a", "orders", 0, 90, ""⟩), .clear,
        .record (.committed ⟨"b", "orders", 0, 8, ""⟩),
        .record (.committed ⟨"c", "orders", 0, 3, ""⟩)]
    let s := empty.run changes
    (((sinceClear changes).filter fun o => o.kind = .committed).map Observation.id).Nodup ∧
      s.isCommitted "orders" 0 7 ∧ ¬s.isCommitted "orders" 0 8 ∧
      ∃ c, .committed c ∈ s.snapshot .committed ∧ c.topic = "orders" ∧ c.partition = 0 ∧
        c.covers 7 := by
  intro changes s
  have hids : (((sinceClear changes).filter fun o => o.kind = .committed).map
      Observation.id).Nodup := by decide
  have hcommitted : s.isCommitted "orders" 0 7 := by decide
  exact ⟨hids, hcommitted, by decide,
    (watermark_of_history changes "orders" 0 7).2.2.2.2 hids hcommitted⟩

end Store

end TopicWatch
