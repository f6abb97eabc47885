import TopicWatch.Proofs.Wait.Matching
import TopicWatch.Store.Messages

/-!
# The store and its log

A store answers every question as the list of what was filed since it was last cleared does.
A record stands under its kind and its id until another one takes its place there.
-/

namespace TopicWatch

open Record

namespace Store

/-- A record of a log after which none was filed under its place. -/
def Latest (log : List Observation) (o : Observation) : Prop :=
  ∃ before after, log = before ++ o :: after ∧ ∀ x ∈ after, place x ≠ place o

/-- The last record of a log that stands under its own place is the latest there. -/
theorem latest_iff {log : List Observation} {o : Observation} :
    Latest log o ↔ (log.filter fun x => place x = place o).getLast? = some o := by
  constructor
  · rintro ⟨before, after, rfl, hafter⟩
    have hnone : (after.filter fun x => place x = place o) = [] :=
      List.filter_eq_nil_iff.2 fun x hx => by simpa using hafter x hx
    rw [List.filter_append, List.filter_cons_of_pos (by simp), hnone, List.getLast?_concat]
  · intro hlast
    obtain ⟨earlier, hfilter⟩ := List.getLast?_eq_some_iff.1 hlast
    obtain ⟨front, back, rfl, -, hback⟩ := List.filter_eq_append_iff.1 hfilter
    obtain ⟨between, after, rfl, -, -, hafter⟩ := List.filter_eq_cons_iff.1 hback
    refine ⟨front ++ between, after, (List.append_assoc ..).symm, fun x hx hplace => ?_⟩
    exact List.filter_eq_nil_iff.1 hafter x hx (decide_eq_true hplace)

variable (log : List Observation)

/-- A bucket holds what is the latest under its place. -/
theorem mem_snapshot_iff_latest {kind : Record.Kind} {o : Observation} :
    o ∈ (log.foldl record empty).snapshot kind ↔ o.kind = kind ∧ Latest log o := by
  rw [mem_snapshot_iff, get?_foldl_record, get?_empty, Option.or_none, latest_iff]
  constructor
  · intro hlast
    obtain ⟨-, hplace⟩ := List.mem_filter.1 (List.mem_of_getLast? hlast)
    have hkind : o.kind = kind := congrArg Prod.fst (of_decide_eq_true hplace)
    subst hkind
    exact ⟨rfl, hlast⟩
  · rintro ⟨rfl, hlast⟩
    exact hlast

/-- Every id that was filed under a kind is in its bucket. -/
theorem mem_ids_iff {kind : Record.Kind} {id : String} :
    id ∈ ((log.foldl record empty).snapshot kind).map Observation.id ↔
      ∃ o ∈ log, o.kind = kind ∧ o.id = id := by
  constructor
  · intro hid
    obtain ⟨o, ho, rfl⟩ := List.mem_map.1 hid
    obtain ⟨hmem, hkind⟩ := mem_of_mem_snapshot ho
    exact ⟨o, hmem, hkind, rfl⟩
  · rintro ⟨o, ho, rfl, rfl⟩
    have hmem : o ∈ log.filter fun x => place x = (o.kind, o.id) :=
      List.mem_filter.2 ⟨ho, decide_eq_true rfl⟩
    have hlast := List.getLast?_eq_some_getLast (List.ne_nil_of_mem hmem)
    have hfound := get?_foldl_record empty log o.id o.kind
    rw [hlast, Option.some_or] at hfound
    exact List.mem_map.2 ⟨_, mem_snapshot.2 ⟨_, hfound⟩, congrArg Prod.snd (place_of_get? hfound)⟩

variable (s : Store)

/-- Nothing is lost when the records of a kind are listed without their wrapping. -/
theorem map_ofMessage_messages (kind : Record.Kind) :
    (s.messages kind).map (Observation.ofMessage kind) = s.snapshot kind := by
  have hall : ∀ o ∈ s.snapshot kind,
      (o.message? kind).map (Observation.ofMessage kind) = some o := by
    intro o ho
    obtain ⟨m, hm, ho⟩ := Observation.exists_message (kind_of_mem_snapshot ho)
    rw [hm, Option.map_some, ho]
  rw [messages, List.map_filterMap, List.filterMap_congr hall, List.filterMap_some]

theorem length_messages (kind : Record.Kind) : (s.messages kind).length = s.count kind := by
  rw [← length_snapshot, ← map_ofMessage_messages, List.length_map]

theorem isEmpty_iff : s.isEmpty ↔ ∀ kind, s.snapshot kind = [] := by
  have hbucket : ∀ m : Keyed.Map Observation, m.isEmpty ↔ m.values = [] := by
    intro m
    rw [Keyed.Map.isEmpty, List.isEmpty_iff, Keyed.Map.values, List.map_eq_nil_iff]
  rw [isEmpty, Vector.all_eq_true]
  constructor
  · intro hall kind
    exact (hbucket _).1 (hall kind.slot kind.slot.isLt)
  · intro hall i hi
    obtain ⟨kind, hkind⟩ := Kind.exists_slot ⟨i, hi⟩
    have hi : i = kind.slot := congrArg Fin.val hkind.symm
    subst hi
    exact (hbucket _).2 (hall kind)

/-- The summary counts the observations of each kind. -/
theorem entries_summary :
    s.summary.entries = Kind.all.map fun kind => (kind.name, (s.snapshot kind).length) := by
  simp only [length_snapshot]
  rfl

/-- What came before a clearing makes no difference. -/
theorem performAll_clear (before after : List Operation) :
    s.performAll (before ++ .clear :: after) = empty.performAll after := by
  rw [performAll, List.foldl_append, List.foldl_cons, ← performAll, ← performAll]
  exact congrArg (fun s => performAll s after) (clear_eq_empty _)

/-- A store refines its log. After any operations a bucket holds, for each id that was filed
under its kind since the last clearing, the observation that was filed there last, once, and
nothing else. So every observation stands in the bucket of its kind under its own id; listing
the records of a kind loses none; the counts, the summary and whether the store is empty agree
with the snapshots; every failure gives a reason of its own to an expectation; filing under one
kind leaves the other buckets as they were; and a store that was cleared is one to which only
the later operations happened. -/
theorem contents_of_log (operations : List Operation) :
    let s := empty.performAll operations
    let log := sinceClear (operations.map Operation.change)
    (∀ kind, (∀ o, o ∈ s.snapshot kind ↔ o.kind = kind ∧ Latest log o) ∧
        ((s.snapshot kind).map Observation.id).Nodup ∧
        ∀ id, id ∈ (s.snapshot kind).map Observation.id ↔
          ∃ o ∈ log, o.kind = kind ∧ o.id = id) ∧
      (∀ kind id o, (s.bucket kind).get? id = some o → o.kind = kind ∧ o.id = id) ∧
      (∀ kind, (s.messages kind).map (Observation.ofMessage kind) = s.snapshot kind ∧
        (s.messages kind).length = s.count kind ∧ (s.snapshot kind).length = s.count kind) ∧
      (s.summary.entries = Kind.all.map (fun kind => (kind.name, (s.snapshot kind).length)) ∧
        (s.isEmpty ↔ ∀ kind, s.snapshot kind = [])) ∧
      (∀ (α σ : Type) (e : Wait.Expectation) (c : Wait.Criterion α σ) (state : σ)
        (records : List Observation), records.Perm (s.snapshot .failed) →
          ∀ fallback fallback', e.failFast c s fallback records state =
            e.failFast c s fallback' records state) ∧
      (∀ kind (m : kind.Message) (other : Record.Kind), other ≠ kind →
        (s.recordAs kind m).bucket other = s.bucket other) ∧
      (∀ o kind, kind ≠ o.kind → (s.record o).bucket kind = s.bucket kind) ∧
      ∀ before after, operations = before ++ .clear :: after → s = empty.performAll after := by
  intro s log
  have hs : s = log.foldl record empty := by
    rw [show s = _ from performAll_eq_run empty operations, run_eq_foldl_sinceClear, ite_self]
  have hother : ∀ o kind, kind ≠ o.kind → (s.record o).bucket kind = s.bucket kind := by
    intro o kind hne
    rw [bucket_record, if_neg hne]
  refine ⟨fun kind => ⟨fun o => ?_, s.nodup_ids kind, fun id => ?_⟩, s.placed, fun kind => ?_,
    ⟨s.entries_summary, s.isEmpty_iff⟩, ?_, fun kind m other hne => ?_, hother, ?_⟩
  · rw [hs]
    exact mem_snapshot_iff_latest log
  · rw [hs]
    exact mem_ids_iff log
  · exact ⟨s.map_ofMessage_messages kind, s.length_messages kind, s.length_snapshot kind⟩
  · intro α σ e c state records hperm fallback fallback'
    apply Wait.Expectation.failFast_fallback
    exact fun o ho => kind_of_mem_snapshot (hperm.mem_iff.1 ho)
  · exact hother _ other (by rwa [Observation.kind_ofMessage])
  · rintro before after rfl
    exact empty.performAll_clear before after

/-- Two records of one id take one another's place only within a kind, and the first one was
cleared away. -/
example :
    let m : Published := ⟨"a", "orders", [1], none, Keyed.Map.empty⟩
    let later : Published := ⟨"a", "orders", [2], none, Keyed.Map.empty⟩
    let c : Committed := ⟨"a", "orders", 0, 3, ""⟩
    let s := empty.performAll [.record (.committed ⟨"b", "orders", 0, 9, ""⟩), .clear,
      .recordAs .published m, .recordAs .committed c, .record (.published later)]
    s.snapshot .published = [.published later] ∧ s.snapshot .committed = [.committed c] ∧
      ¬s.isCommitted "orders" 0 5 := by
  decide +kernel

end Store

end TopicWatch
