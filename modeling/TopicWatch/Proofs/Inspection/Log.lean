import Mathlib.Data.List.Dedup
import TopicWatch.Inspection.Response
import TopicWatch.Proofs.Inspection.Route
import TopicWatch.Proofs.Record.Observation
import TopicWatch.Proofs.Store.Log
import TopicWatch.Sink

/-!
# What the inspection interface tells

A store is filled by requests of the bridge and inspected and cleared by requests of the
inspection interface, in any order. Every answer is that of the log: it depends on what was
filed since the store was last cleared, and on no other request.
-/

namespace TopicWatch.Inspection

open Json Record

/-! ## Responses -/

/-- The different ids that were filed under a kind. -/
def ids (log : List Observation) (kind : Kind) : List String :=
  ((log.filter fun o => o.kind = kind).map Observation.id).dedup

/-- The number of different ids of each kind, by the names of the kinds. -/
def counts (log : List Observation) : Value :=
  .object (Kind.all.map fun kind => (kind.name, .number (.integer (ids log kind).length)))

/-- What the interface tells about a store that was filled with a log. The counts are those of
the different ids. The list of a kind, by its name in letters of either case, is read back as
the latest observation for each id of the kind, once, and is as long as the count says. Other
names are not found. Deleting all observations leaves no list with anything in it and nothing
committed. -/
structure Reports (s : Store) (log : List Observation) : Prop where
  summary : ∀ target, OfAll target →
    respond s .get target = (s, .carrying 200 (.json (counts log)))
  list : ∀ target name kind, OfName target name → name.toLower = kind.name →
    ∃ items os, respond s .get target = (s, .carrying 200 (.json (.array items))) ∧
      (Form.list Observation.form).decode (Value.array items).write = .ok os ∧
      (∀ o, o ∈ os ↔ o.kind = kind ∧ Store.Latest log o) ∧ (os.map Observation.id).Nodup ∧
      os.length = (ids log kind).length ∧ items.length = (ids log kind).length
  unknown : ∀ target name, OfName target name → (∀ kind : Kind, name.toLower ≠ kind.name) →
    respond s .get target = (s, .carrying 404 (.text (Kind.unknownMessage name)))
  cleared : ∀ target, OfAll target →
    let deleted := respond s .delete target
    deleted.2 = .carrying 204 .empty ∧
      (∀ target name kind, OfName target name → name.toLower = Kind.name kind →
        (respond deleted.1 .get target).2 = .carrying 200 (.json (.array []))) ∧
      ∀ topic partition offset, ¬deleted.1.isCommitted topic partition offset

variable {s : Store} {target name : String}

theorem respond_summary (h : OfAll target) :
    respond s .get target = (s, .carrying 200 (.json s.summary.toValue)) := by
  rw [respond, h.ofRequest]
  rfl

theorem respond_list (h : OfName target name) {kind : Kind} (hkind : name.toLower = kind.name) :
    respond s .get target = (s, .carrying 200 (.json (listing s kind))) := by
  rw [respond, h.ofRequest]
  simp only [answer, Kind.ofName?_eq_some_iff.2 hkind]
  rfl

theorem respond_unknown (h : OfName target name) (hkind : ∀ kind : Kind, name.toLower ≠ kind.name) :
    respond s .get target = (s, .carrying 404 (.text (Kind.unknownMessage name))) := by
  have hnone : Kind.ofName? name = none :=
    Option.eq_none_iff_forall_ne_some.2 fun kind hfound =>
      hkind kind (Kind.ofName?_eq_some_iff.1 hfound)
  rw [respond, h.ofRequest]
  simp only [answer, hnone]
  rfl

theorem respond_clear (h : OfAll target) :
    respond s .delete target = (.empty, .carrying 204 .empty) := by
  rw [respond, h.ofRequest, ← s.clear_eq_empty]
  rfl

/-- Only deleting all observations changes a store. -/
theorem respond_fst (s : Store) (method : Method) (target : String) :
    (respond s method target).1 = if method = .delete ∧ OfAll target then s.clear else s := by
  by_cases hclear : method = .delete ∧ OfAll target
  · obtain ⟨rfl, htarget⟩ := hclear
    rw [if_pos ⟨rfl, htarget⟩, respond_clear htarget, s.clear_eq_empty]
  · rw [if_neg hclear, respond]
    cases hquery : Query.ofRequest method target with
    | error denial => rfl
    | ok query =>
        cases query with
        | summary | list => rfl
        | clear => exact absurd (ofRequest_eq_clear_iff.1 hquery) hclear

/-- As many observations of a kind stand in a store as different ids were filed under it. -/
theorem length_snapshot_eq (log : List Observation) (kind : Kind) :
    ((log.foldl Store.record .empty).snapshot kind).length = (ids log kind).length := by
  have hperm : (((log.foldl Store.record .empty).snapshot kind).map Observation.id).Perm
      (ids log kind) := by
    rw [ids, List.perm_ext_iff_of_nodup (Store.nodup_ids _ kind) (List.nodup_dedup _)]
    intro id
    rw [Store.mem_ids_iff, List.mem_dedup, List.mem_map]
    simp only [List.mem_filter, decide_eq_true_iff, and_assoc]
  rw [← hperm.length_eq, List.length_map]

theorem reports_of_log (log : List Observation) :
    Reports (log.foldl Store.record .empty) log where
  summary target h := by
    rw [respond_summary h, Store.Summary.toValue, Store.entries_summary, List.map_map, counts]
    congr
    funext kind
    rw [Function.comp_apply, length_snapshot_eq]
  list target name kind h hkind := by
    have hlength := length_snapshot_eq log kind
    refine ⟨_, _, respond_list h hkind, Observation.decode_encode_list _, fun o => ?_,
      Store.nodup_ids _ kind, hlength, (List.length_map _).trans hlength⟩
    exact Store.mem_snapshot_iff_latest log
  unknown target name h hkind := respond_unknown h hkind
  cleared target h := by
    rw [respond_clear h]
    refine ⟨rfl, fun target name kind h hkind => ?_, fun _ _ _ => Bool.false_ne_true⟩
    rw [respond_list h hkind, listing, Store.snapshot_empty]
    rfl

/-! ## Runs of requests -/

/-- What happens to a store: a request of the bridge is filed, or one of the interface asks. -/
inductive Event where
  | filed (request : Bridge.Request)
  | asked (method : Method) (target : String)

/-- The answer to an event. -/
inductive Answer where
  | ack (a : Bridge.Ack)
  | response (r : Response)

/-- Whether an event only reads. -/
def Event.reads : Event → Bool
  | asked .get _ | asked .head _ => true
  | _ => false

variable (suffixes : Topic.Suffixes)

/-- Answers an event. -/
def serve (s : Store) : Event → Store × Answer
  | .filed request =>
      let accepted := Sink.accept suffixes s request
      (accepted.1, .ack accepted.2)
  | .asked method target =>
      let answered := respond s method target
      (answered.1, .response answered.2)

/-- The store after events in a row. -/
def storeAfter (s : Store) (events : List Event) : Store :=
  events.foldl (fun s e => (serve suffixes s e).1) s

/-- Events in a row with their answers. -/
def transcript (s : Store) : List Event → List (Event × Answer)
  | [] => []
  | e :: events => (e, (serve suffixes s e).2) :: transcript (serve suffixes s e).1 events

/-- The changes that an event stands for. -/
def Event.changes : Event → List Store.Change
  | filed request => (Sink.observations suffixes request).map .record
  | asked method target => if method = .delete ∧ OfAll target then [.clear] else []

/-- What was filed since all observations were last deleted, in order. -/
def filedSince (events : List Event) : List Observation :=
  Store.sinceClear (events.flatMap (Event.changes suffixes))

theorem serve_fst (s : Store) (e : Event) : (serve suffixes s e).1 = s.run (e.changes suffixes) := by
  cases e with
  | filed request =>
      rw [Event.changes, Store.run, List.foldl_map]
      rfl
  | asked method target =>
      rw [Event.changes]
      refine (respond_fst s method target).trans ?_
      split <;> rfl

theorem serve_of_reads (s : Store) {e : Event} (h : e.reads) : (serve suffixes s e).1 = s := by
  cases e with
  | filed request => cases h
  | asked method target =>
      refine (respond_fst s method target).trans (if_neg ?_)
      rintro ⟨rfl, -⟩
      cases h

theorem storeAfter_eq_foldl (events : List Event) :
    storeAfter suffixes .empty events =
      (filedSince suffixes events).foldl Store.record .empty := by
  have hrun : storeAfter suffixes .empty events =
      Store.empty.run (events.flatMap (Event.changes suffixes)) := by
    rw [Store.run, List.foldl_flatMap, storeAfter]
    congr 1
    funext s e
    exact serve_fst suffixes s e
  rw [hrun, Store.run_eq_foldl_sinceClear, ite_self, filedSince]

/-- The answer to an event is that of the store after the events before it. -/
theorem getElem?_transcript (s : Store) (events : List Event) (e : Event) (later : List Event) :
    (transcript suffixes s (events ++ e :: later))[events.length]? =
      some (e, (serve suffixes (storeAfter suffixes s events) e).2) := by
  induction events generalizing s with
  | nil => rfl
  | cons first events ih => exact ih (serve suffixes s first).1

/-- What only reads can be left out without a change to the store and to the other answers. -/
theorem filter_reads {keep : Event → Bool} (hleft : ∀ e, ¬keep e → e.reads) (s : Store)
    (events : List Event) :
    storeAfter suffixes s (events.filter keep) = storeAfter suffixes s events ∧
      transcript suffixes s (events.filter keep) =
        (transcript suffixes s events).filter fun entry => keep entry.1 := by
  induction events generalizing s with
  | nil => exact ⟨rfl, rfl⟩
  | cons e events ih =>
      obtain ⟨hstore, hanswers⟩ := ih (serve suffixes s e).1
      rw [transcript, List.filter_cons, List.filter_cons]
      split
      · exact ⟨hstore, congrArg (_ :: ·) hanswers⟩
      · next herased =>
          rw [serve_of_reads suffixes s (hleft e herased)] at hstore hanswers ⊢
          refine ⟨hstore.trans ?_, hanswers⟩
          rw [storeAfter, storeAfter, List.foldl_cons,
            serve_of_reads suffixes s (hleft e herased)]

/-- The inspection interface reports the log. Whatever was filed, asked and deleted, the store
reports what was filed since all observations were last deleted, and the answer to the next
event is given by that store. Any requests that only read, whether they found something or
not, can be left out: the store and the other answers stay the same. There is a target for
every name but the empty one. -/
theorem answers_of_log (suffixes : Topic.Suffixes) (events : List Event) :
    let s := storeAfter suffixes .empty events
    Reports s (filedSince suffixes events) ∧
      (∀ e later, (transcript suffixes .empty (events ++ e :: later))[events.length]? =
        some (e, (serve suffixes s e).2)) ∧
      (∀ keep : Event → Bool, (∀ e, ¬keep e → e.reads) →
        storeAfter suffixes .empty (events.filter keep) = s ∧
          transcript suffixes .empty (events.filter keep) =
            (transcript suffixes .empty events).filter fun entry => keep entry.1) ∧
      ∀ name, name ≠ "" → ∃ target, OfName target name := by
  intro s
  refine ⟨?_, getElem?_transcript suffixes .empty events,
    fun keep hleft => filter_reads suffixes hleft .empty events, fun name => exists_ofName⟩
  have hs : s = (filedSince suffixes events).foldl Store.record .empty :=
    storeAfter_eq_foldl suffixes events
  rw [hs]
  exact reports_of_log _

/-- Deleting a single kind is not allowed and leaves what was filed. -/
example :
    let sent : Bridge.Request := .published ⟨"a", "orders.DLT", [0x31], none, .empty⟩
    filedSince .standard [.filed sent, .asked .delete "/api/observations?all", .filed sent,
        .asked .delete "/api/observations/failed", .asked .get "/api/observations"] =
      Sink.observations .standard sent := by
  decide +kernel

end TopicWatch.Inspection
