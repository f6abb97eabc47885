import Mathlib.Data.List.Perm.Subperm
import TopicWatch.Proofs.Keyed
import TopicWatch.Store.Basic

/-!
# Filing records

What a list of records does to a store: records under ids that are new in their bucket are
added to the snapshots, and commits are covered by what was committed before or among them.
-/

namespace TopicWatch

open Record Keyed

namespace Store

namespace Watermarks

/-- An advanced watermark covers what it covered before and what lies below the new offset. -/
theorem covers_advance (marks : Watermarks) (place : String × Partition) (beyond : Offset)
    (topic : String) (partition : Partition) (offset : Offset) :
    (marks.advance place beyond).covers topic partition offset =
      (decide ((topic, partition) = place ∧ offset < beyond) ||
        marks.covers topic partition offset) := by
  rw [covers, covers, get?_advance]
  by_cases hplace : (topic, partition) = place
  · rw [if_pos hplace, hplace]
    cases hfound : marks.get? place with
    | none => simp
    | some highest =>
        by_cases hlt : highest < beyond
        · have himp : offset < highest → offset < beyond := fun h => Int64.lt_trans h hlt
          simpa [hlt] using himp
        · have himp : offset < beyond → offset < highest := fun h =>
            Int64.lt_of_lt_of_le h (Int64.not_lt.1 hlt)
          simpa [hlt] using himp
  · rw [if_neg hplace]
    simp [hplace]

end Watermarks

/-- Whether a record is a commit beyond an offset of a partition. -/
def commits (topic : String) (partition : Partition) (offset : Offset) : Observation → Bool
  | .committed m => decide ((topic, partition) = (m.topic, m.partition) ∧ offset < m.offset)
  | _ => false

theorem isCommitted_record (s : Store) (o : Observation) (topic : String)
    (partition : Partition) (offset : Offset) :
    (s.record o).isCommitted topic partition offset =
      (commits topic partition offset o || s.isCommitted topic partition offset) := by
  cases o with
  | committed m => exact Watermarks.covers_advance _ _ _ _ _ _
  | _ => rfl

/-- An offset is committed after a list of records when it was before or one of them commits
beyond it. -/
theorem isCommitted_foldl_record (s : Store) (os : List Observation) (topic : String)
    (partition : Partition) (offset : Offset) :
    (os.foldl record s).isCommitted topic partition offset =
      (os.any (commits topic partition offset) || s.isCommitted topic partition offset) := by
  induction os generalizing s with
  | nil => rfl
  | cons o os ih =>
      rw [List.foldl_cons, ih, isCommitted_record, List.any_cons, ← Bool.or_assoc,
        Bool.or_comm (os.any _)]

/-- The bucket of a record and its id in it. -/
def place (o : Observation) : Record.Kind × String := (o.kind, o.id)

/-- Filing leaves the other kinds as they were. -/
theorem snapshot_record_of_ne {o : Observation} {kind : Record.Kind} (h : kind ≠ o.kind)
    (s : Store) : (s.record o).snapshot kind = s.snapshot kind := by
  rw [snapshot, bucket_record, if_neg h, snapshot]

/-- Filing a record under a new id adds it to the snapshot of its kind and leaves the others
as they were. -/
theorem snapshot_record {s : Store} {o : Observation} (h : s.get? o.id o.kind = none)
    (kind : Record.Kind) :
    ((s.record o).snapshot kind).Perm
      (([o].filter fun x => x.kind = kind) ++ s.snapshot kind) := by
  by_cases hkind : o.kind = kind
  · subst hkind
    have hnew : ((s.record o).snapshot o.kind).Perm (o :: s.snapshot o.kind) := by
      rw [snapshot, bucket_record, if_pos rfl]
      exact Map.values_insert_perm h o
    simpa using hnew
  · rw [snapshot_record_of_ne fun heq => hkind heq.symm]
    simp [hkind]

/-- Records that do not take one another's place in a store, nor that of a record in it. -/
structure Fresh (s : Store) (os : List Observation) : Prop where
  unused : ∀ o ∈ os, s.get? o.id o.kind = none
  distinct : (os.map place).Nodup

instance (s : Store) (os : List Observation) : Decidable (s.Fresh os) :=
  decidable_of_iff ((∀ o ∈ os, s.get? o.id o.kind = none) ∧ (os.map place).Nodup)
    ⟨fun h => ⟨h.1, h.2⟩, fun h => ⟨h.unused, h.distinct⟩⟩

theorem Fresh.sublist {s : Store} {os os' : List Observation} (h : s.Fresh os)
    (hsub : os'.Sublist os) : s.Fresh os' :=
  ⟨fun o ho => h.unused o (hsub.subset ho), h.distinct.sublist (hsub.map place)⟩

/-- Fresh records are added to the snapshots of their kinds, and nothing else is. -/
theorem snapshot_foldl_record {s : Store} {os : List Observation} (h : s.Fresh os)
    (kind : Record.Kind) :
    ((os.foldl record s).snapshot kind).Perm
      ((os.filter fun o => o.kind = kind) ++ s.snapshot kind) := by
  induction os generalizing s with
  | nil => exact List.Perm.refl _
  | cons o os ih =>
      obtain ⟨hout, hdistinct⟩ := List.nodup_cons.1 h.distinct
      obtain ⟨hunused, hrest⟩ := List.forall_mem_cons.1 h.unused
      have hfresh : (s.record o).Fresh os := by
        refine ⟨fun x hx => ?_, hdistinct⟩
        rw [get?_record, if_neg]
        · exact hrest x hx
        · rintro ⟨hkind, hid⟩
          apply hout
          rw [place, ← hkind, ← hid]
          exact List.mem_map_of_mem hx
      have hsplit : (o :: os).filter (fun x => x.kind = kind) =
          ([o].filter fun x => x.kind = kind) ++ os.filter fun x => x.kind = kind :=
        List.filter_append [o] os
      rw [hsplit, List.append_assoc, List.foldl_cons]
      calc List.Perm ((os.foldl record (s.record o)).snapshot kind)
            ((os.filter fun x => x.kind = kind) ++ (s.record o).snapshot kind) := ih hfresh
        List.Perm _ ((os.filter fun x => x.kind = kind) ++
            (([o].filter fun x => x.kind = kind) ++ s.snapshot kind)) :=
          (snapshot_record hunused kind).append_left _
        List.Perm _ (([o].filter fun x => x.kind = kind) ++
            ((os.filter fun x => x.kind = kind) ++ s.snapshot kind)) :=
          List.perm_append_comm_assoc _ _ _

/-- Everything that is filed or committed in one store is so in another one too. -/
structure Within (s s' : Store) : Prop where
  snapshot : ∀ kind, (s.snapshot kind).Subperm (s'.snapshot kind)
  committed : ∀ topic partition offset,
    s.isCommitted topic partition offset → s'.isCommitted topic partition offset

/-- Of fresh records the more are filed, the more is in the store. -/
theorem within_foldl_record {s : Store} {os os' : List Observation} (h : s.Fresh os')
    (hsub : os.Sublist os') : Within (os.foldl record s) (os'.foldl record s) := by
  constructor
  · intro kind
    apply (snapshot_foldl_record (h.sublist hsub) kind).subperm_right.2
    apply (snapshot_foldl_record h kind).subperm_left.2
    exact ((hsub.filter _).append_right _).subperm
  · intro topic partition offset
    simp only [isCommitted_foldl_record, Bool.or_eq_true, List.any_eq_true]
    rintro (⟨o, ho, hcommits⟩ | hbefore)
    · exact Or.inl ⟨o, hsub.subset ho, hcommits⟩
    · exact Or.inr hbefore

end Store

end TopicWatch
