import TopicWatch.Intercept.Broker
import TopicWatch.Intercept.Callback
import TopicWatch.Proofs.Bridge.Transparency
import TopicWatch.Proofs.Sink.Log

/-!
# From a finished commit to what is committed

The broker client lists what it was asked to commit, also offsets that are symbols. Only the
elements with numbers become entries, every entry becomes a request, and what is committed grows
by what they cover and by nothing else.
-/

namespace TopicWatch.Intercept

open Record Topic Bridge

/-- The element that an entry was made from. -/
def CommitEntry.element (e : CommitEntry) : CommitElement :=
  ⟨e.topic, e.partition, .at e.offset, e.metadata⟩

namespace CommitElement

/-- Whether the offset of an element is a number and no symbol. -/
def isNumbered (e : CommitElement) : Bool :=
  match e.offset with
  | .at _ => true
  | _ => false

/-- An element with a number is the one that its entry was made from, and others have none. -/
theorem map_element_entry? (e : CommitElement) :
    e.entry?.map CommitEntry.element = Option.guard isNumbered e := by
  obtain ⟨topic, partition, offset, metadata⟩ := e
  cases offset <;> rfl

/-- No element with a number is lost, and none is changed. -/
theorem map_element_entries (elements : List CommitElement) :
    (elements.filterMap entry?).map CommitEntry.element = elements.filter isNumbered := by
  rw [List.map_filterMap, ← List.filterMap_eq_filter]
  exact List.filterMap_congr fun e _ => e.map_element_entry?

theorem entries_eq_nil_iff {elements : List CommitElement} :
    elements.filterMap entry? = [] ↔ ∀ e ∈ elements, ¬e.isNumbered := by
  rw [← List.map_eq_nil_iff, map_element_entries, List.filter_eq_nil_iff]

theorem eq_element_of_entry? {e : CommitElement} {entry : CommitEntry}
    (h : e.entry? = some entry) : e = entry.element := by
  have hguard := e.map_element_entry?
  rw [h, Option.map_some] at hguard
  exact (Option.guard_eq_some_iff.1 hguard.symm).1

/-- An entry reaches beyond an offset of a partition exactly if an element with a number does. -/
theorem exists_entry_iff {elements : List CommitElement} {topic : String} {partition : Partition}
    {offset : Offset} :
    (∃ entry ∈ elements.filterMap entry?, entry.topic = topic ∧ entry.partition = partition ∧
        offset.toInt < entry.offset.toInt) ↔
      ∃ e ∈ elements, e.topic = topic ∧ e.partition = partition ∧
        ∃ n, e.offset = .at n ∧ offset.toInt < n.toInt := by
  constructor
  · rintro ⟨entry, hentry, htopic, hpartition, hbeyond⟩
    obtain ⟨e, he, hsome⟩ := List.mem_filterMap.1 hentry
    obtain rfl := eq_element_of_entry? hsome
    exact ⟨_, he, htopic, hpartition, _, rfl, hbeyond⟩
  · rintro ⟨⟨topic, partition, _, metadata⟩, he, rfl, rfl, n, rfl, hbeyond⟩
    exact ⟨⟨topic, partition, n, metadata⟩, List.mem_filterMap.2 ⟨_, he, rfl⟩, rfl, rfl, hbeyond⟩

end CommitElement

section Calls

variable {failed : Bool} {elements : List CommitElement}

theorem commitCalls_eq_nil (h : failed ∨ ∀ e ∈ elements, ¬e.isNumbered) :
    commitCalls failed elements = [] := by
  rw [← CommitElement.entries_eq_nil_iff] at h
  simp only [commitCalls, List.isEmpty_iff, Bool.or_eq_true]
  exact if_pos h

theorem commitCalls_eq_singleton (hdone : ¬failed) (h : ∃ e ∈ elements, e.isNumbered) :
    commitCalls failed elements = [elements.filterMap CommitElement.entry?] := by
  have hentries : elements.filterMap CommitElement.entry? ≠ [] := by
    rw [ne_eq, CommitElement.entries_eq_nil_iff]
    rintro hnone
    obtain ⟨e, he, hnumbered⟩ := h
    exact hnone e he hnumbered
  simp only [commitCalls, List.isEmpty_iff, Bool.or_eq_true]
  exact if_neg (not_or.2 ⟨hdone, hentries⟩)

/-- The entries of all calls of a commit are those of its elements, unless it failed. -/
theorem flatten_commitCalls :
    (commitCalls failed elements).flatten =
      if failed then [] else elements.filterMap CommitElement.entry? := by
  rw [commitCalls]
  cases failed with
  | true => rfl
  | false =>
      cases h : elements.filterMap CommitElement.entry? with
      | nil => rfl
      | cons entry entries => exact List.append_nil _

end Calls

/-- The requests of calls that report commits: one for each entry, in order. -/
theorem requests_committed (ids : Nat → String) (first : Nat) (calls : List (List CommitEntry)) :
    requests ids first (calls.map .committed) =
      (calls.flatten.zipIdx first).map fun e => .committed (e.1.toCommitted (ids e.2)) := by
  have hevents : (calls.map Callback.committed).flatMap Callback.events =
      calls.flatten.map .committed := by
    rw [List.flatMap_map, List.map_flatten]
    rfl
  rw [requests, hevents, List.zipIdx_map, List.map_map]
  rfl

/-- What such requests commit is what one of the entries commits, whatever their ids. -/
theorem any_commits_requests (ids : Nat → String) (first : Nat) (calls : List (List CommitEntry))
    (topic : String) (partition : Partition) (offset : Offset) :
    (requests ids first (calls.map .committed)).any (Sink.commits topic partition offset) ↔
      ∃ e ∈ calls.flatten, e.topic = topic ∧ e.partition = partition ∧
        offset.toInt < e.offset.toInt := by
  have hids : (Sink.commits topic partition offset ∘
      fun e : CommitEntry × Nat => .committed (e.1.toCommitted (ids e.2))) =
        (fun e => Sink.commits topic partition offset (.committed (e.toCommitted ""))) ∘
          Prod.fst := rfl
  have hcommits : ∀ e : CommitEntry,
      Sink.commits topic partition offset (.committed (e.toCommitted "")) ↔
        e.topic = topic ∧ e.partition = partition ∧ offset.toInt < e.offset.toInt := by
    intro e
    rw [Sink.commits, decide_eq_true_iff, Prod.mk.injEq, and_assoc, Int64.lt_iff_toInt_lt]
    exact and_congr eq_comm (and_congr eq_comm Iff.rfl)
  rw [requests_committed, List.any_map, hids, ← List.any_map, List.zipIdx_map_fst,
    List.any_eq_true]
  simp only [hcommits]

/-- Only commits that were made count. A commit that failed, or of which no element has a number
for its offset, makes no call; any other makes one, with the elements that have numbers, in
order and unchanged. When the entries were sent over the bridge an offset is committed exactly
if it was before, or the commit was made and one of its elements for that partition has a number
beyond the offset. That is so for every store, and for the store behind a bridge whose two sides
take in the requests. -/
theorem real_commits_count (suffixes : Suffixes) (store : Store) (ids : Nat → String)
    (first : Nat) (failed : Bool) (elements : List CommitElement) :
    let calls := commitCalls failed elements
    let sent := requests ids first (calls.map .committed)
    let after := Sink.acceptAll suffixes store sent
    ((failed ∨ ∀ e ∈ elements, ¬e.isNumbered) → calls = []) ∧
      (¬failed → (∃ e ∈ elements, e.isNumbered) → ∃ entries, calls = [entries] ∧
        entries.map CommitEntry.element = elements.filter CommitElement.isNumbered) ∧
      (∀ topic partition offset, after.isCommitted topic partition offset ↔
        store.isCommitted topic partition offset ∨
          ¬failed ∧ ∃ e ∈ elements, e.topic = topic ∧ e.partition = partition ∧
            ∃ n, e.offset = .at n ∧ offset.toInt < n.toInt) ∧
      ∀ address client server, (∀ r ∈ sent, Fits client server r) →
        (Forwarder.run ⟨address, client, false⟩ (Peer.server (Sink.accept suffixes) server)
          (store, false) sent).2.2.1 = after := by
  intro calls sent after
  refine ⟨commitCalls_eq_nil, ?_, ?_, ?_⟩
  · intro hdone hnumbered
    exact ⟨_, commitCalls_eq_singleton hdone hnumbered, CommitElement.map_element_entries elements⟩
  · intro topic partition offset
    rw [Sink.isCommitted_acceptAll_of, Bool.or_eq_true, or_comm, any_commits_requests,
      flatten_commitCalls]
    cases failed with
    | true => simp
    | false => simp only [Bool.false_eq_true, if_false, CommitElement.exists_entry_iff,
        not_false_eq_true, true_and]
  · intro address client server hfits
    obtain ⟨connected, alive, hrun⟩ := Forwarder.run_server suffixes server sent store
      (Client.inStep_of_not_connected (c := ⟨address, client, false⟩) rfl)
    have hall : sent.filter (Fits client server ·) = sent :=
      List.filter_eq_self.2 fun r hr => decide_eq_true (hfits r hr)
    rw [hrun, hall]

/-- A commit with symbols between its numbers, in which a lower number for a partition follows a
higher one. -/
theorem real_commits_count_mixed :
    let elements : List CommitElement :=
      [⟨"orders", 0, .stored, ""⟩, ⟨"orders", 0, .at 5, "a"⟩, ⟨"orders", 1, .tail 9, ""⟩,
        ⟨"orders", 0, .at 3, "b"⟩]
    let ids (n : Nat) := n.repr
    let store := Sink.acceptAll .standard .empty [.committed ⟨"c", "audit", 0, 2, ""⟩]
    let sent := requests ids 0 ((commitCalls false elements).map .committed)
    let after := Sink.acceptAll .standard store sent
    commitCalls true elements = [] ∧ (∃ e ∈ elements, e.isNumbered) ∧
      (∃ entries, commitCalls false elements = [entries] ∧
        entries.map CommitEntry.element = elements.filter CommitElement.isNumbered) ∧
      after.isCommitted "orders" 0 4 ∧ after.isCommitted "audit" 0 1 ∧
      ¬after.isCommitted "orders" 1 0 ∧ (∀ r ∈ sent, Fits .standard .standard r) ∧
      (Forwarder.run ⟨"bridge", .standard, false⟩
        (Peer.server (Sink.accept .standard) .standard) (store, false) sent).2.2.1 = after := by
  intro elements ids store sent after
  have hlaw (failed : Bool) := real_commits_count .standard store ids 0 failed elements
  have hnumbered : ∃ e ∈ elements, e.isNumbered :=
    ⟨⟨"orders", 0, .at 5, "a"⟩, by simp [elements], rfl⟩
  have horders : after.isCommitted "orders" 0 4 := by
    apply ((hlaw false).2.2.1 "orders" 0 4).2
    exact Or.inr ⟨by simp, ⟨"orders", 0, .at 5, "a"⟩, by simp [elements], rfl, rfl, 5, rfl,
      by decide⟩
  have haudit : after.isCommitted "audit" 0 1 :=
    ((hlaw false).2.2.1 "audit" 0 1).2 (Or.inl (by decide))
  have hfits : ∀ r ∈ sent, Fits .standard .standard r := by decide +kernel
  exact ⟨(hlaw true).1 (Or.inl rfl), hnumbered, (hlaw false).2.1 (by simp) hnumbered, horders,
    haudit, by decide +kernel, hfits, (hlaw false).2.2.2 "bridge" .standard .standard hfits⟩

end TopicWatch.Intercept
