import TopicWatch.Proofs.Sink.Redelivery
import TopicWatch.Proofs.Store.Log

/-!
# What stays in a store

Records are never taken out of a store while requests are filed, but one can take the place of
another: two that belong to one bucket and have one id. So everything that was ever in a store
stays there exactly when no place is disputed. Ids and commits stay in any case.
-/

namespace TopicWatch

open Record Topic Bridge

namespace Store

variable {s : Store} {os : List Observation}

theorem mem_snapshot_foldl_record {kind : Record.Kind} {o : Observation}
    (h : o ∈ (os.foldl record s).snapshot kind) : o ∈ os ∨ o ∈ s.snapshot kind := by
  obtain ⟨id, hfound⟩ := mem_snapshot.1 h
  rw [get?_foldl_record] at hfound
  obtain hlast | ⟨-, hbefore⟩ := Option.or_eq_some_iff.1 hfound
  · exact Or.inl (List.mem_of_mem_filter (List.mem_of_getLast? hlast))
  · exact Or.inr (mem_snapshot.2 ⟨id, hbefore⟩)

/-- A record stays in a store exactly when no other one is the latest in its place. -/
theorem mem_snapshot_foldl_record_iff {kind : Record.Kind} {o : Observation}
    (h : o ∈ s.snapshot kind) :
    o ∈ (os.foldl record s).snapshot kind ↔ ∀ x, Latest os x → place x = place o → x = o := by
  obtain rfl := kind_of_mem_snapshot h
  rw [mem_snapshot_iff] at h
  rw [mem_snapshot_iff, get?_foldl_record, h, ← show place o = (o.kind, o.id) from rfl]
  cases hlast : (os.filter fun x => place x = place o).getLast? with
  | none =>
      refine iff_of_true rfl fun x hx hplace => ?_
      rw [latest_iff, hplace, hlast] at hx
      cases hx
  | some last =>
      have hplace : place last = place o :=
        of_decide_eq_true (List.mem_filter.1 (List.mem_of_getLast? hlast)).2
      have hlatest : Latest os last := by rw [latest_iff, hplace, hlast]
      rw [Option.some_or, Option.some_inj]
      constructor
      · rintro rfl x hx hsame
        rw [latest_iff, hsame, hlast] at hx
        exact (Option.some.inj hx).symm
      · exact fun hall => hall last hlatest hplace

/-- What is the latest in its place is there. -/
theorem Latest.mem_snapshot {o : Observation} (h : Latest os o) :
    o ∈ (os.foldl record s).snapshot o.kind := by
  rw [mem_snapshot_iff, get?_foldl_record, ← show place o = (o.kind, o.id) from rfl,
    latest_iff.1 h]
  rfl

/-- No id leaves its bucket. -/
theorem ids_subset_foldl_record (s : Store) (os : List Observation) (kind : Record.Kind) :
    (s.snapshot kind).map Observation.id ⊆
      ((os.foldl record s).snapshot kind).map Observation.id := by
  intro id hid
  obtain ⟨o, ho, rfl⟩ := List.mem_map.1 hid
  obtain rfl := kind_of_mem_snapshot ho
  have hfound : ∃ x, (os.foldl record s).get? o.id o.kind = some x := by
    rw [get?_foldl_record, mem_snapshot_iff.1 ho, ← Option.isSome_iff_exists]
    simp
  obtain ⟨x, hx⟩ := hfound
  exact List.mem_map.2 ⟨x, mem_snapshot.2 ⟨_, hx⟩, congrArg Prod.snd (place_of_get? hx)⟩

theorem count_le_foldl_record (s : Store) (os : List Observation) (kind : Record.Kind) :
    s.count kind ≤ (os.foldl record s).count kind := by
  have hids := List.subperm_of_subset (s.nodup_ids kind) (s.ids_subset_foldl_record os kind)
  rw [← length_snapshot, ← length_snapshot, ← List.length_map (f := Observation.id),
    ← List.length_map (f := Observation.id)]
  exact hids.length_le

theorem isCommitted_foldl_record_of {topic : String} {partition : Partition} {offset : Offset}
    (h : s.isCommitted topic partition offset) (os : List Observation) :
    (os.foldl record s).isCommitted topic partition offset := by
  rw [isCommitted_foldl_record, h, Bool.or_true]

/-- No record of a list has to share its place with another one, be it of the list or in a
store. -/
def Undisputed (s : Store) (os : List Observation) : Prop :=
  ∀ o ∈ os, ∀ o', o' ∈ os ∨ o' ∈ s.snapshot o'.kind → place o' = place o → o' = o

end Store

namespace Sink

variable {suffixes : Suffixes} {s : Store} {requests : List Request}

/-- Whatever is in a store after some of the requests is still there, unchanged, after any more
of them. -/
def Keeps (suffixes : Suffixes) (s : Store) (requests : List Request) : Prop :=
  ∀ earlier between later, requests = earlier ++ between ++ later → ∀ kind,
    (acceptAll suffixes s earlier).snapshot kind ⊆
      (acceptAll suffixes s (earlier ++ between)).snapshot kind

theorem logged_append (suffixes : Suffixes) (requests requests' : List Request) :
    logged suffixes (requests ++ requests') =
      logged suffixes requests ++ logged suffixes requests' :=
  List.flatMap_append

theorem acceptAll_append (suffixes : Suffixes) (s : Store) (requests requests' : List Request) :
    acceptAll suffixes s (requests ++ requests') =
      (logged suffixes requests').foldl Store.record (acceptAll suffixes s requests) := by
  rw [acceptAll_eq_foldl, acceptAll_eq_foldl s requests, logged_append, List.foldl_append]

/-- Every record that a request stands for is in the store right after the request. -/
theorem mem_snapshot_accept {r : Request} {o : Observation} (h : o ∈ observations suffixes r)
    (s : Store) : o ∈ (accept suffixes s r).1.snapshot o.kind := by
  have hlatest : Store.Latest (observations suffixes r) o := by
    obtain ⟨front, back, hsplit⟩ := List.append_of_mem h
    have hnodup := nodup_place_observations suffixes r
    rw [hsplit, List.map_append, List.map_cons] at hnodup
    refine ⟨front, back, hsplit, fun x hx hplace => ?_⟩
    apply (List.nodup_cons.1 (List.nodup_append.1 hnodup).2.1).1
    exact List.mem_map.2 ⟨x, hx, hplace⟩
  exact hlatest.mem_snapshot

theorem Keeps.mem_snapshot_of_logged (h : Keeps suffixes s requests) {o : Observation}
    (ho : o ∈ logged suffixes requests) : o ∈ (acceptAll suffixes s requests).snapshot o.kind := by
  obtain ⟨r, hr, hobserved⟩ := List.mem_flatMap.1 ho
  obtain ⟨earlier, later, rfl⟩ := List.append_of_mem hr
  have hfiled : o ∈ (acceptAll suffixes s (earlier ++ [r])).snapshot o.kind := by
    rw [acceptAll, List.foldl_append]
    exact mem_snapshot_accept hobserved _
  have hkept := h (earlier ++ [r]) later [] (by simp) o.kind hfiled
  rwa [List.append_assoc, List.singleton_append] at hkept

theorem Keeps.mem_snapshot_of_before (h : Keeps suffixes s requests) {kind : Record.Kind}
    {o : Observation} (ho : o ∈ s.snapshot kind) :
    o ∈ (acceptAll suffixes s requests).snapshot kind :=
  h [] requests [] (by simp) kind ho

/-- Everything stays exactly when no place is disputed. -/
theorem keeps_iff_undisputed :
    Keeps suffixes s requests ↔ s.Undisputed (logged suffixes requests) := by
  constructor
  · -- in the end both records are in the store, which has one record for each place
    intro h o ho o' ho' hplace
    have hend := Store.mem_snapshot_iff.1 (h.mem_snapshot_of_logged ho)
    have hend' : o' ∈ (acceptAll suffixes s requests).snapshot o'.kind :=
      ho'.elim h.mem_snapshot_of_logged h.mem_snapshot_of_before
    have hfound' := Store.mem_snapshot_iff.1 hend'
    obtain ⟨hkind, hid⟩ := Prod.mk.inj hplace
    rw [hkind, hid, hend] at hfound'
    exact (Option.some.inj hfound').symm
  · rintro h earlier between later rfl kind o ho
    rw [logged_append, logged_append] at h
    rw [acceptAll_append, Store.mem_snapshot_foldl_record_iff ho]
    intro x hx hplace
    obtain rfl := Store.kind_of_mem_snapshot ho
    obtain ⟨front, back, hsplit, -⟩ := hx
    have hlogged : x ∈ logged suffixes between := by simp [hsplit]
    rw [acceptAll_eq_foldl] at ho
    refine (h x (by simp [hlogged]) o ?_ hplace.symm).symm
    obtain hearlier | hbefore := Store.mem_snapshot_foldl_record ho
    · exact Or.inl (by simp [hearlier])
    · exact Or.inr hbefore

/-- Consistent requests dispute no place of a new store. -/
theorem Consistent.undisputed (h : Consistent requests) :
    Store.empty.Undisputed (logged suffixes requests) := by
  intro o ho o' ho' hplace
  obtain hlogged | hbefore := ho'
  · exact h.unambiguous o' hlogged o ho hplace
  · rw [Store.snapshot_empty] at hbefore
    cases hbefore

/-- Requests never take anything out of a store, but a record can take the place of another
one. All that was in the store at some point of a run of requests stays there unchanged exactly
when no place is disputed: no record that a request stands for has the kind and the id of
another such record, or of one that was there before. In particular all stays in a new store if
an id always stands for the same request. For a single record it depends on the requests after
it: it stays unless the latest of the records that they put into its place is another one. The
ids of each kind and the commits stay in any case, so no count falls. -/
theorem kept_iff_undisputed (suffixes : Suffixes) (s : Store) (requests : List Request) :
    (Keeps suffixes s requests ↔ s.Undisputed (logged suffixes requests)) ∧
      (Consistent requests → Keeps suffixes .empty requests) ∧
      ∀ earlier between later, requests = earlier ++ between ++ later →
        let before := acceptAll suffixes s earlier
        let after := acceptAll suffixes s (earlier ++ between)
        (∀ kind, ∀ o ∈ before.snapshot kind, o ∈ after.snapshot kind ↔
            ∀ x, Store.Latest (logged suffixes between) x → Store.place x = Store.place o → x = o) ∧
          (∀ kind, (before.snapshot kind).map Observation.id ⊆
              (after.snapshot kind).map Observation.id ∧ before.count kind ≤ after.count kind) ∧
          ∀ topic partition offset, before.isCommitted topic partition offset →
            after.isCommitted topic partition offset := by
  refine ⟨keeps_iff_undisputed, fun h => keeps_iff_undisputed.2 h.undisputed, ?_⟩
  rintro earlier between later -
  rw [acceptAll_append]
  refine ⟨fun kind o ho => Store.mem_snapshot_foldl_record_iff ho, fun kind => ?_,
    fun topic partition offset h => Store.isCommitted_foldl_record_of h _⟩
  exact ⟨Store.ids_subset_foldl_record _ _ kind, Store.count_le_foldl_record _ _ kind⟩

/-- A request under the id of an earlier one of its kind takes the record of that away. -/
theorem replaced_under_same_id :
    let sent : Published := ⟨"p001", "orders", [0x31], none, .empty⟩
    let again : Published := ⟨"p001", "payments", [0x32], none, .empty⟩
    let before := acceptAll .standard .empty [.published sent]
    let after := acceptAll .standard .empty [.published sent, .published again]
    before.snapshot .published = [.published sent] ∧
      after.snapshot .published = [.published again] ∧
      ¬Keeps .standard .empty [.published sent, .published again] := by
  intro sent again before after
  have hbefore : before.snapshot .published = [.published sent] := by decide +kernel
  have hafter : after.snapshot .published = [.published again] := by decide +kernel
  refine ⟨hbefore, hafter, fun h => ?_⟩
  have hkept := h [.published sent] [.published again] [] rfl .published
  have hmem : Observation.published sent ∈ after.snapshot .published :=
    hkept (hbefore ▸ List.mem_singleton_self _)
  rw [hafter, List.mem_singleton] at hmem
  exact absurd hmem (by decide)

end Sink

end TopicWatch
