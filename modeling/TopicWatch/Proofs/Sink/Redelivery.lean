import Mathlib.Data.List.Dedup
import TopicWatch.Proofs.Sink.Log
import TopicWatch.Proofs.Wait.Matching

/-!
# Requests that come again

A store that was filled by requests depends on which requests came and not on how often or in
which order, as long as an id always stands for the same request. So a request that is
delivered again changes nothing, and requests of several connections may arrive in any order.
-/

namespace TopicWatch

open Record Topic Bridge

/-- Two stores that answer every question alike. -/
structure Store.Alike (s s' : Store) : Prop where
  snapshot : ∀ kind, (s.snapshot kind).Perm (s'.snapshot kind)
  count : ∀ kind, s.count kind = s'.count kind
  committed : ∀ topic partition offset,
    s.isCommitted topic partition offset = s'.isCommitted topic partition offset

namespace Store.Alike

variable {s s' : Store}

theorem symm (h : s.Alike s') : s'.Alike s :=
  ⟨fun kind => (h.snapshot kind).symm, fun kind => (h.count kind).symm,
    fun topic partition offset => (h.committed topic partition offset).symm⟩

theorem within (h : s.Alike s') : s.Within s' := by
  refine ⟨fun kind => (h.snapshot kind).subperm, ?_⟩
  intro topic partition offset hcommitted
  rwa [← h.committed]

/-- Enough messages count in both of two stores that are alike, or in none of them. -/
theorem met_iff (h : s.Alike s') {α : Type} {decode : Bytes → Option α}
    {test : Wait.Observed α → Bool} {e : Wait.Expectation} :
    e.Met decode test s ↔ e.Met decode test s' :=
  ⟨.of_within h.within, .of_within h.symm.within⟩

end Store.Alike

namespace Sink

variable {suffixes : Suffixes} {requests requests' : List Request}

/-- What stands for consistent requests does not compete for places. -/
theorem Consistent.unambiguous (h : Consistent requests) :
    Store.Unambiguous (logged suffixes requests) := by
  intro o ho o' ho' hplace
  obtain ⟨r, hr, ho⟩ := List.mem_flatMap.1 ho
  obtain ⟨r', hr', ho'⟩ := List.mem_flatMap.1 ho'
  have hid : o.id = o'.id := congrArg Prod.snd hplace
  obtain rfl : r = r' :=
    h r hr r' hr' o.id (id_of_mem_observations ho) (hid ▸ id_of_mem_observations ho')
  exact List.inj_on_of_nodup_map (nodup_place_observations suffixes r) ho ho' hplace

theorem Consistent.mem_snapshot_iff (h : Consistent requests) {kind : Record.Kind}
    {o : Observation} :
    o ∈ (acceptAll suffixes .empty requests).snapshot kind ↔
      o ∈ logged suffixes requests ∧ o.kind = kind := by
  rw [acceptAll_eq_foldl]
  exact Store.mem_snapshot_of_unambiguous (h.unambiguous.subset List.filter_sublist.subset)

/-- Only which requests were filed matters. -/
theorem Consistent.alike (h : Consistent requests) (hsame : ∀ r, r ∈ requests ↔ r ∈ requests') :
    (acceptAll suffixes .empty requests).Alike (acceptAll suffixes .empty requests') := by
  have h' : Consistent requests' := fun r hr r' hr' =>
    h r ((hsame r).2 hr) r' ((hsame r').2 hr')
  have hsnapshot : ∀ kind, ((acceptAll suffixes .empty requests).snapshot kind).Perm
      ((acceptAll suffixes .empty requests').snapshot kind) := by
    intro kind
    have hnodup : ∀ rs, ((acceptAll suffixes .empty rs).snapshot kind).Nodup :=
      fun rs => (Store.nodup_ids _ kind).of_map
    -- lists without repetition are compared by what is in them
    rw [List.perm_ext_iff_of_nodup (hnodup requests) (hnodup requests')]
    intro o
    simp only [h.mem_snapshot_iff, h'.mem_snapshot_iff, logged, List.mem_flatMap, hsame]
  refine ⟨hsnapshot, ?_, ?_⟩
  · intro kind
    rw [← Store.length_snapshot, ← Store.length_snapshot, (hsnapshot kind).length_eq]
  · intro topic partition offset
    rw [isCommitted_acceptAll, isCommitted_acceptAll, Bool.eq_iff_iff]
    simp only [List.any_eq_true, hsame]

/-- No more messages count than there are ids. -/
theorem length_matching_le {α : Type} (decode : Bytes → Option α)
    (test : Wait.Observed α → Bool) (e : Wait.Expectation) (requests : List Request) :
    (e.matching decode test (acceptAll suffixes .empty requests)).length ≤
      (requests.filterMap Request.id?).dedup.length := by
  have hsub : ((acceptAll suffixes .empty requests).snapshot e.kind).map Observation.id ⊆
      (requests.filterMap Request.id?).dedup := by
    intro id hid
    obtain ⟨o, ho, rfl⟩ := List.mem_map.1 hid
    obtain ⟨-, r, hr, hfiled⟩ := exists_of_mem_snapshot ho
    exact List.mem_dedup.2 (List.mem_filterMap.2 ⟨r, hr, id_of_mem_observations hfiled⟩)
  have hnodup := (acceptAll suffixes .empty requests).nodup_ids e.kind
  calc (e.matching decode test (acceptAll suffixes .empty requests)).length
      ≤ ((acceptAll suffixes .empty requests).snapshot e.kind).length :=
        List.length_filterMap_le _ _
    _ = (((acceptAll suffixes .empty requests).snapshot e.kind).map Observation.id).length :=
        (List.length_map _).symm
    _ ≤ (requests.filterMap Request.id?).dedup.length :=
        (List.subperm_of_subset hnodup hsub).length_le

/-- The orders in which the requests of several connections can arrive: each connection keeps
its own order. -/
inductive Interleaves : List (List Request) → List Request → Prop
  | done {queues : List (List Request)} (h : ∀ queue ∈ queues, queue = []) :
      Interleaves queues []
  | next {before after : List (List Request)} {queue : List Request} {r : Request}
      {arrived : List Request} (h : Interleaves (before ++ queue :: after) arrived) :
      Interleaves (before ++ (r :: queue) :: after) (r :: arrived)

theorem Interleaves.perm {queues : List (List Request)} {arrived : List Request}
    (h : Interleaves queues arrived) : arrived.Perm queues.flatten := by
  induction h with
  | done h => rw [List.flatten_eq_nil_iff.2 h]
  | next h ih =>
      simp only [List.flatten_append, List.flatten_cons, List.cons_append] at ih ⊢
      exact (ih.cons _).trans List.perm_middle.symm

/-- Neither the order of consistent requests nor how often each of them comes matters. Two
stores that were filled by the same requests are alike. So a request that comes again changes
nothing, no id is listed twice in a bucket or counted twice by an expectation, and requests
from several connections fill the store alike in every order of arrival. -/
theorem redelivery_changes_nothing (suffixes : Suffixes) {requests requests' : List Request}
    (hids : Consistent requests) (hsame : ∀ r, r ∈ requests ↔ r ∈ requests') :
    let s := acceptAll suffixes .empty requests
    let s' := acceptAll suffixes .empty requests'
    s.Alike s' ∧
      (∀ r ∈ requests, (accept suffixes s r).1.Alike s) ∧
      (∀ kind, ((s.snapshot kind).map Observation.id).Nodup) ∧
      (∀ (α : Type) (decode : Bytes → Option α) (test : Wait.Observed α → Bool)
        (e : Wait.Expectation), (e.Met decode test s ↔ e.Met decode test s') ∧
          (e.matching decode test s).length ≤ (requests.filterMap Request.id?).dedup.length) ∧
      ∀ queues, Interleaves queues requests → ∀ arrived, Interleaves queues arrived →
        (acceptAll suffixes .empty arrived).Alike s := by
  intro s s'
  have halike : s.Alike s' := hids.alike hsame
  refine ⟨halike, ?_, s.nodup_ids, ?_, ?_⟩
  · intro r hr
    have hagain : (accept suffixes s r).1 = acceptAll suffixes .empty (requests ++ [r]) := by
      rw [acceptAll, List.foldl_append]
      rfl
    rw [hagain]
    refine (hids.alike fun x => ?_).symm
    simp only [List.mem_append, List.mem_singleton]
    constructor
    · exact Or.inl
    · rintro (hx | rfl)
      · exact hx
      · exact hr
  · intro α decode test e
    exact ⟨halike.met_iff, length_matching_le decode test e requests⟩
  · intro queues hqueues arrived harrived
    exact (hids.alike fun _ => (hqueues.perm.trans harrived.perm.symm).mem_iff).symm

/-- A message that was sent to a topic for failures and delivered again after another one. -/
theorem redelivery_changes_nothing_twice :
    let sent : Request := .published ⟨"p", "orders.DLT", [0x31], none, .empty⟩
    let commit : Request := .committed ⟨"c", "orders", 0, 8, ""⟩
    Consistent [sent, commit] ∧ (∀ r, r ∈ [sent, commit] ↔ r ∈ [commit, sent, commit, sent]) ∧
      (acceptAll .standard .empty [sent, commit]).Alike
        (acceptAll .standard .empty [commit, sent, commit, sent]) := by
  intro sent commit
  have hids : Consistent [sent, commit] := consistent_of_nodup (by decide)
  have hsame : ∀ r, r ∈ [sent, commit] ↔ r ∈ [commit, sent, commit, sent] := by
    intro r
    simp only [List.mem_cons, List.not_mem_nil, or_false]
    tauto
  exact ⟨hids, hsame, (redelivery_changes_nothing .standard hids hsame).1⟩

end Sink

end TopicWatch
