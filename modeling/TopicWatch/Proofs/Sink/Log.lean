import Mathlib.Data.List.Nodup
import Mathlib.Data.List.Pairwise
import TopicWatch.Proofs.Store.Contents
import TopicWatch.Sink

/-!
# The log of requests

A store that was filled by requests, described by the observations that the requests stand
for. Requests with ids of their own stand for records that never take one another's place.
-/

namespace TopicWatch.Sink

open Record Topic Bridge

variable {suffixes : Suffixes}

/-- The observations that a log of requests stands for, in the order in which they are
filed. -/
def logged (suffixes : Suffixes) (requests : List Request) : List Observation :=
  requests.flatMap (observations suffixes)

theorem acceptAll_eq_foldl (store : Store) (requests : List Request) :
    acceptAll suffixes store requests = (logged suffixes requests).foldl Store.record store := by
  rw [logged, List.foldl_flatMap]
  rfl

/-- What a request stands for stands under its id. -/
theorem id_of_mem_observations {r : Request} {o : Observation}
    (h : o ∈ observations suffixes r) : r.id? = some o.id := by
  cases r with
  | healthCheck => cases h
  | published m =>
      rw [observations, ofPublished] at h
      split at h
      · simp only [List.mem_cons, List.not_mem_nil, or_false] at h
        obtain rfl | rfl := h <;> rfl
      · rw [List.mem_singleton.1 h]
        rfl
  | consumed m =>
      rw [List.mem_singleton.1 h, ofConsumed]
      split <;> rfl
  | committed m =>
      rw [List.mem_singleton.1 h]
      rfl
  | acknowledged m =>
      rw [List.mem_singleton.1 h]
      rfl

/-- What a request stands for goes to different buckets. -/
theorem nodup_place_observations (suffixes : Suffixes) (r : Request) :
    ((observations suffixes r).map Store.place).Nodup := by
  cases r with
  | published m =>
      rw [observations, ofPublished]
      split
      · simp [Store.place, Observation.kind]
      · exact List.nodup_singleton _
  | healthCheck => exact List.nodup_nil
  | _ => exact List.nodup_singleton _

/-- Everything in a store that was filled by requests is what one of them stands for. -/
theorem exists_of_mem_snapshot {requests : List Request} {kind : Record.Kind} {o : Observation}
    (h : o ∈ (acceptAll suffixes .empty requests).snapshot kind) :
    o.kind = kind ∧ ∃ r ∈ requests, o ∈ observations suffixes r := by
  rw [acceptAll_eq_foldl] at h
  obtain ⟨hlogged, hkind⟩ := Store.mem_of_mem_snapshot h
  exact ⟨hkind, List.mem_flatMap.1 hlogged⟩

/-- Requests of which no two different ones have the same id. -/
def Consistent (requests : List Request) : Prop :=
  ∀ r ∈ requests, ∀ r' ∈ requests, ∀ id, r.id? = some id → r'.id? = some id → r = r'

theorem consistent_of_nodup {requests : List Request}
    (hids : (requests.filterMap Request.id?).Nodup) : Consistent requests := by
  have hdiffer : requests.Pairwise fun a b => ∀ x ∈ a.id?, ∀ y ∈ b.id?, x ≠ y :=
    List.pairwise_filterMap.1 hids
  have hsymm : Std.Symm fun a b : Request => ∀ x ∈ a.id?, ∀ y ∈ b.id?, x ≠ y :=
    ⟨fun _ _ h x hx y hy heq => h y hy x hx heq.symm⟩
  intro r hr r' hr' id hid hid'
  by_contra hne
  exact hdiffer.forall hr hr' hne id hid id hid' rfl

theorem nodup_place_logged {requests : List Request}
    (hids : (requests.filterMap Request.id?).Nodup) :
    ((logged suffixes requests).map Store.place).Nodup := by
  induction requests with
  | nil => exact List.nodup_nil
  | cons r requests ih =>
      have hrest : (requests.filterMap Request.id?).Nodup :=
        hids.sublist ((List.sublist_cons_self r requests).filterMap _)
      rw [logged, List.flatMap_cons, List.map_append, List.nodup_append]
      refine ⟨nodup_place_observations suffixes r, ih hrest, ?_⟩
      intro a ha b hb heq
      obtain ⟨o, ho, rfl⟩ := List.mem_map.1 ha
      obtain ⟨o', ho', rfl⟩ := List.mem_map.1 hb
      obtain ⟨r', hr', ho'⟩ := List.mem_flatMap.1 ho'
      have hid : r.id? = some o'.id :=
        (id_of_mem_observations ho).trans (congrArg some (congrArg Prod.snd heq))
      rw [List.filterMap_cons_some hid] at hids
      exact (List.nodup_cons.1 hids).1
        (List.mem_filterMap.2 ⟨r', hr', id_of_mem_observations ho'⟩)

/-- Requests with ids of their own stand for records that are new to an empty store. -/
theorem fresh_logged {requests : List Request} (hids : (requests.filterMap Request.id?).Nodup) :
    Store.empty.Fresh (logged suffixes requests) := by
  refine ⟨?_, nodup_place_logged hids⟩
  intro o _
  cases o <;> rfl

/-- The snapshots of a store that was filled by requests with ids of their own. -/
theorem snapshot_acceptAll {requests : List Request}
    (hids : (requests.filterMap Request.id?).Nodup) (kind : Record.Kind) :
    ((acceptAll suffixes .empty requests).snapshot kind).Perm
      ((logged suffixes requests).filter fun o => o.kind = kind) := by
  rw [acceptAll_eq_foldl]
  exact (Store.snapshot_foldl_record (fresh_logged hids) kind).trans
    (.of_eq (by rw [Store.snapshot_empty, List.append_nil]))

/-- A property that one record of a request has, and of some requests none, is counted by
counting the requests. -/
theorem countP_logged {p : Observation → Bool} {q : Request → Bool}
    (h : ∀ r, (observations suffixes r).countP p = if q r then 1 else 0)
    (requests : List Request) : (logged suffixes requests).countP p = requests.countP q := by
  induction requests with
  | nil => rfl
  | cons r requests ih =>
      rw [logged, List.flatMap_cons, List.countP_append, h, ← logged, ih, List.countP_cons]
      exact Nat.add_comm _ _

/-- Whether a request is a commit beyond an offset of a partition. -/
def commits (topic : String) (partition : Partition) (offset : Offset) : Request → Bool
  | .committed m => decide ((topic, partition) = (m.topic, m.partition) ∧ offset < m.offset)
  | _ => false

theorem any_commits_observations (topic : String) (partition : Partition) (offset : Offset)
    (r : Request) :
    (observations suffixes r).any (Store.commits topic partition offset) =
      commits topic partition offset r := by
  cases r with
  | healthCheck => rfl
  | published m =>
      rw [observations, ofPublished]
      split <;> rfl
  | consumed m =>
      rw [observations, ofConsumed]
      split <;> rfl
  | committed m => exact Bool.or_false _
  | acknowledged m => rfl

/-- What is committed after a list of requests: what was before, and what they commit. -/
theorem isCommitted_acceptAll_of (store : Store) (requests : List Request) (topic : String)
    (partition : Partition) (offset : Offset) :
    (acceptAll suffixes store requests).isCommitted topic partition offset =
      (requests.any (commits topic partition offset) ||
        store.isCommitted topic partition offset) := by
  rw [acceptAll_eq_foldl, Store.isCommitted_foldl_record, logged, List.any_flatMap]
  simp only [any_commits_observations]

/-- What is committed in a store that was filled by requests. -/
theorem isCommitted_acceptAll (requests : List Request) (topic : String) (partition : Partition)
    (offset : Offset) :
    (acceptAll suffixes .empty requests).isCommitted topic partition offset =
      requests.any (commits topic partition offset) := by
  rw [isCommitted_acceptAll_of]
  exact Bool.or_false _

end TopicWatch.Sink
