import Mathlib.Data.Set.Function
import TopicWatch.Proofs.Sink.Log
import TopicWatch.Store.Report

/-!
# Other ids

An id is only a name. Stores that were given the same requests and records under other ids hold
the same records under those ids, as long as different ids stay different.
-/

namespace TopicWatch

open Record Topic Bridge

variable {f : String → String}

namespace Record.Observation

/-- An observation under another id. -/
def rename (f : String → String) : Observation → Observation
  | published m => published { m with id := f m.id }
  | consumed m => consumed { m with id := f m.id }
  | committed m => committed { m with id := f m.id }
  | acknowledged m => acknowledged { m with id := f m.id }
  | retried m => retried { m with id := f m.id }
  | failed m => failed { m with id := f m.id }

@[simp] theorem id_rename (o : Observation) : (o.rename f).id = f o.id := by cases o <;> rfl

@[simp] theorem kind_rename (o : Observation) : (o.rename f).kind = o.kind := by cases o <;> rfl

@[simp] theorem payload?_rename (o : Observation) : (o.rename f).payload? = o.payload? := by
  cases o <;> rfl

@[simp] theorem metadata_rename (o : Observation) : (o.rename f).metadata = o.metadata := by
  cases o <;> rfl

@[simp] theorem reason?_rename (o : Observation) : (o.rename f).reason? = o.reason? := by
  cases o <;> rfl

end Record.Observation

/-- A request whose record has another id. -/
def Bridge.Request.rename (f : String → String) : Request → Request
  | healthCheck => healthCheck
  | published m => published { m with id := f m.id }
  | consumed m => consumed { m with id := f m.id }
  | committed m => committed { m with id := f m.id }
  | acknowledged m => acknowledged { m with id := f m.id }

/-- What a request stands for, a failure that is derived from it included, keeps its id. -/
theorem Sink.observations_rename (suffixes : Suffixes) (r : Request) :
    observations suffixes (r.rename f) = (observations suffixes r).map (Observation.rename f) := by
  cases r with
  | published m =>
      simp only [Request.rename, observations, ofPublished]
      split <;> rfl
  | consumed m =>
      simp only [Request.rename, observations, ofConsumed]
      split <;> rfl
  | healthCheck | committed _ | acknowledged _ => rfl

namespace Store

/-- Two stores that hold the same records, one of them under other ids. -/
structure Corresponds (f : String → String) (s s' : Store) : Prop where
  snapshot : ∀ kind, (s'.snapshot kind).Perm ((s.snapshot kind).map (Observation.rename f))
  count : ∀ kind, s'.count kind = s.count kind
  summary : s'.summary = s.summary
  committed : ∀ topic partition offset,
    s'.isCommitted topic partition offset = s.isCommitted topic partition offset

/-- What stands under an id in one store stands under its new name in the other one, and nothing
else stands there. -/
structure Renamed (f : String → String) (ids : Set String) (s s' : Store) : Prop where
  found : ∀ id ∈ ids, ∀ kind, s'.get? (f id) kind = (s.get? id kind).map (Observation.rename f)
  known : ∀ id kind o, s.get? id kind = some o → id ∈ ids
  covered : ∀ id kind o, s'.get? id kind = some o → ∃ name ∈ ids, f name = id
  marks : s'.watermarks = s.watermarks

variable {ids : Set String} {s s' : Store}

theorem renamed_empty : Renamed f ids empty empty := by
  constructor
  case found => simp [get?_empty]
  case known => simp [get?_empty]
  case covered => simp [get?_empty]
  case marks => rfl

theorem Watermarks.follow_rename (marks : Watermarks) (o : Observation) :
    marks.follow (o.rename f) = marks.follow o := by
  cases o <;> rfl

/-- Filing keeps stores alike: a record takes the place of another one under the new names
exactly if it does so under the old ones. -/
theorem Renamed.record (h : Renamed f ids s s') (hf : ids.InjOn f) {o : Observation}
    (ho : o.id ∈ ids) : Renamed f ids (s.record o) (s'.record (o.rename f)) := by
  constructor
  case found =>
    intro id hid kind
    simp only [get?_record, Observation.kind_rename, Observation.id_rename, hf.eq_iff hid ho,
      h.found id hid]
    split <;> rfl
  case known =>
    intro id kind x hx
    rw [get?_record] at hx
    split at hx
    · next hplace => exact hplace.2 ▸ ho
    · exact h.known id kind x hx
  case covered =>
    intro id kind x hx
    rw [get?_record] at hx
    split at hx
    · next hplace => exact ⟨o.id, ho, (hplace.2.trans o.id_rename).symm⟩
    · exact h.covered id kind x hx
  case marks =>
    rw [Store.record, Store.record, h.marks, Watermarks.follow_rename]

theorem Renamed.foldl_record (h : Renamed f ids s s') (hf : ids.InjOn f) {os : List Observation}
    (hos : ∀ o ∈ os, o.id ∈ ids) :
    Renamed f ids (os.foldl Store.record s) ((os.map (Observation.rename f)).foldl Store.record s') := by
  induction os generalizing s s' with
  | nil => exact h
  | cons o os ih =>
      obtain ⟨ho, hrest⟩ := List.forall_mem_cons.1 hos
      exact ih (h.record hf ho) hrest

theorem Renamed.mem_snapshot (h : Renamed f ids s s') {kind : Record.Kind} {o : Observation} :
    o ∈ s'.snapshot kind ↔ o ∈ (s.snapshot kind).map (Observation.rename f) := by
  rw [Store.mem_snapshot, List.mem_map]
  constructor
  · rintro ⟨_, hfound⟩
    obtain ⟨name, hname, rfl⟩ := h.covered _ kind o hfound
    rw [h.found name hname] at hfound
    obtain ⟨x, hx, rfl⟩ := Option.map_eq_some_iff.1 hfound
    exact ⟨x, Store.mem_snapshot.2 ⟨name, hx⟩, rfl⟩
  · rintro ⟨x, hx, rfl⟩
    obtain ⟨id, hid⟩ := Store.mem_snapshot.1 hx
    refine ⟨f id, ?_⟩
    rw [h.found id (h.known id kind x hid), hid, Option.map_some]

theorem Renamed.corresponds (h : Renamed f ids s s') (hf : ids.InjOn f) : Corresponds f s s' := by
  have hsnapshot : ∀ kind,
      (s'.snapshot kind).Perm ((s.snapshot kind).map (Observation.rename f)) := by
    intro kind
    have hids : ∀ id ∈ (s.snapshot kind).map Observation.id, id ∈ ids := by
      intro id hid
      obtain ⟨o, ho, rfl⟩ := List.mem_map.1 hid
      exact h.known _ kind o (mem_snapshot_iff.1 ho)
    have hrenamed : (((s.snapshot kind).map (Observation.rename f)).map Observation.id).Nodup := by
      have heq : ((s.snapshot kind).map (Observation.rename f)).map Observation.id =
          ((s.snapshot kind).map Observation.id).map f := by simp [Function.comp_def]
      rw [heq]
      exact (s.nodup_ids kind).map_on fun a ha b hb => hf (hids a ha) (hids b hb)
    rw [List.perm_ext_iff_of_nodup ((s'.nodup_ids kind).of_map _) (hrenamed.of_map _)]
    exact fun o => h.mem_snapshot
  have hcount : ∀ kind, s'.count kind = s.count kind := by
    intro kind
    rw [← length_snapshot, (hsnapshot kind).length_eq, List.length_map, length_snapshot]
  constructor
  case snapshot => exact hsnapshot
  case count => exact hcount
  case summary => simp only [summary, hcount]
  case committed =>
    intro topic partition offset
    rw [isCommitted, isCommitted, h.marks]

end Store

namespace Sink

/-- What a store is given: a request, a record that is filed directly, or a clearing. -/
inductive Input where
  | request (r : Request)
  | record (o : Observation)
  | clear

namespace Input

/-- The store after an input. -/
def enter (suffixes : Suffixes) (s : Store) : Input → Store
  | request r => (accept suffixes s r).1
  | record o => s.record o
  | clear => s.clear

/-- The store after inputs in a row. -/
def enterAll (suffixes : Suffixes) (s : Store) (inputs : List Input) : Store :=
  inputs.foldl (enter suffixes) s

/-- The ids in an input. -/
def ids : Input → List String
  | request r => r.id?.toList
  | record o => [o.id]
  | clear => []

/-- An input with other ids. -/
def rename (f : String → String) : Input → Input
  | request r => request (r.rename f)
  | record o => record (o.rename f)
  | clear => clear

end Input

variable {suffixes : Suffixes} {ids : Set String} {s s' : Store}

theorem renamed_enter (h : s.Renamed f ids s') (hf : ids.InjOn f) {input : Input}
    (hinput : ∀ id ∈ input.ids, id ∈ ids) :
    (input.enter suffixes s).Renamed f ids ((input.rename f).enter suffixes s') := by
  cases input with
  | request r =>
      rw [Input.rename, Input.enter, Input.enter, accept, accept, observations_rename]
      refine h.foldl_record hf fun o ho => hinput _ ?_
      rw [Input.ids, id_of_mem_observations ho]
      exact List.mem_singleton_self _
  | record o => exact h.record hf (hinput _ (List.mem_singleton_self _))
  | clear =>
      rw [Input.rename, Input.enter, Input.enter, s.clear_eq_empty, s'.clear_eq_empty]
      exact Store.renamed_empty

theorem renamed_enterAll (h : s.Renamed f ids s') (hf : ids.InjOn f) {inputs : List Input}
    (hinputs : ∀ input ∈ inputs, ∀ id ∈ input.ids, id ∈ ids) :
    (Input.enterAll suffixes s inputs).Renamed f ids
      (Input.enterAll suffixes s' (inputs.map (Input.rename f))) := by
  induction inputs generalizing s s' with
  | nil => exact h
  | cons input inputs ih =>
      obtain ⟨hinput, hrest⟩ := List.forall_mem_cons.1 hinputs
      exact ih (renamed_enter h hf hinput) hrest

/-- Stores that were filled with the same inputs under other ids correspond. -/
theorem corresponds_enterAll {inputs : List Input}
    (hf : {id | id ∈ inputs.flatMap Input.ids}.InjOn f) :
    (Input.enterAll suffixes .empty inputs).Corresponds f
      (Input.enterAll suffixes .empty (inputs.map (Input.rename f))) := by
  refine (renamed_enterAll Store.renamed_empty hf fun input hinput id hid => ?_).corresponds hf
  exact List.mem_flatMap.2 ⟨input, hinput, hid⟩

end Sink

end TopicWatch
