import TopicWatch.Proofs.Keyed
import TopicWatch.Proofs.Text.Utf8
import TopicWatch.Publish.Cluster

/-!
# Every way of sending tells the same

A send is observed through the record of a producer of either sort, through a view that the
application makes itself, or by the harness that sends a message. All of them tell the same of
one and the same send.
-/

namespace TopicWatch

open Record

namespace Intercept

/-- The values of a header that are not null, in order. -/
def valuesOf (name : String) (headers : List (String × Option Bytes)) : List Bytes :=
  (headers.filter fun h => h.1 = name).filterMap Prod.snd

theorem foldl_withHeader (r : Outbound) (headers : List (String × Bytes)) :
    headers.foldl (fun view h => view.withHeader h.1 h.2) r =
      { r with headers := r.headers ++ headers } := by
  induction headers generalizing r with
  | nil => rw [List.append_nil]; rfl
  | cons h headers ih =>
      rw [List.foldl_cons, ih]
      simp only [Outbound.withHeader, List.append_assoc, List.singleton_append]

/-- What is built step by step is a view of the parts that are not null. -/
theorem ProducerRecord.view_eq (r : ProducerRecord) :
    r.view = ⟨r.topic, r.partition, r.key, r.payload.getD [], present r.headers⟩ := by
  obtain ⟨topic, partition, key, payload, headers⟩ := r
  rw [view, foldl_withHeader]
  cases key <;> cases partition <;> rfl

theorem map_filter_present (headers : List (String × Option Bytes)) (name : String) :
    ((present headers).filter fun h => h.1 = name).map Prod.snd = valuesOf name headers := by
  induction headers with
  | nil => rfl
  | cons h headers ih =>
      obtain ⟨other, value⟩ := h
      simp only [present, valuesOf] at ih ⊢
      by_cases hname : other = name <;> cases value <;> simp [hname, ih]

/-- A header shows its last value that is not null. -/
theorem get?_headers_present (headers : List (String × Option Bytes)) (name : String) :
    (Intercept.headers (present headers)).get? name =
      (valuesOf name headers).getLast?.map Utf8.lossy := by
  have hfilter : ((present headers).map fun h => (h.1, Utf8.lossy h.2)).filter
        (fun h => decide (h.1 = name)) =
      ((present headers).filter fun h => h.1 = name).map fun h => (h.1, Utf8.lossy h.2) :=
    List.filter_map
  rw [Intercept.headers, Keyed.Map.get?_ofPairs, hfilter, ← map_filter_present,
    List.getLast?_map, List.getLast?_map, Option.map_map, Option.map_map]
  rfl

end Intercept

namespace Publish.Outgoing

open Intercept

/-- Headers survive the way through the record of a producer. -/
theorem headers_toRecord (m : Outgoing) :
    Intercept.headers (present m.toRecord.parts.headers) = m.headers := by
  have hpresent : present m.toRecord.parts.headers =
      m.headers.entries.map fun h => (h.1, Utf8.encode h.2) := by
    show List.filterMap _ (List.map _ m.headers.entries) = _
    rw [List.filterMap_map, ← List.filterMap_eq_map]
    rfl
  have hshown : (present m.toRecord.parts.headers).map (fun h => (h.1, Utf8.lossy h.2)) =
      m.headers.entries := by
    rw [hpresent, List.map_map]
    simp only [Function.comp_def, Utf8.lossy_encode]
    exact List.map_id _
  rw [Intercept.headers, hshown, Keyed.Map.ofPairs_entries]

/-- A message is observed as it was sent. -/
theorem toPublished_view_toRecord (m : Outgoing) (id : String) :
    m.toRecord.view.toPublished id = m.toPublished id := by
  have hkey : m.toRecord.parts.key.map Utf8.lossy = m.key := by
    show (m.key.map Utf8.encode).map Utf8.lossy = m.key
    cases m.key with
    | none => rfl
    | some key => exact congrArg some (Utf8.lossy_encode key)
  rw [AwaitedRecord.view, ProducerRecord.view_eq, Outbound.toPublished, hkey,
    m.headers_toRecord]
  rfl

end Publish.Outgoing

namespace Intercept

open Publish

/-- Every way of sending tells the same. The record of a producer of either sort, with a key and
a payload of any types that are written as bytes, and a view that is given the parts that are not
null are observed as the same message, under whatever id: a payload that is missing is empty, a
key that is missing stays so, and a header shows the text of its last value that is not null,
and is there exactly if it has one. A message that the harness sends is observed at the producer
as the harness itself files it. -/
theorem sends_told_alike {κ π δ : Type} [ToBytes κ] [ToBytes π] (topic : String)
    (partition : Option Partition) (key : Option κ) (payload : Option π)
    (headers : Option (List (String × Option Bytes))) (tag : δ) (id : String) :
    let awaited : AwaitedRecord κ π := ⟨topic, partition, key, payload, headers⟩
    let queued : QueuedRecord κ π δ := ⟨topic, partition, key, payload, headers, tag⟩
    let keyBytes := key.map ToBytes.toBytes
    let payloadBytes := (payload.map ToBytes.toBytes).getD []
    let told := awaited.view.toPublished id
    queued.view.toPublished id = told ∧
      (∀ partition',
        Outbound.toPublished ⟨topic, partition', keyBytes, payloadBytes,
          present (headers.getD [])⟩ id = told) ∧
      (told.id = id ∧ told.topic = topic ∧ told.message = payloadBytes ∧
        told.key = keyBytes.map Utf8.lossy ∧
        ∀ name, told.headers.get? name =
          (valuesOf name (headers.getD [])).getLast?.map Utf8.lossy) ∧
      ∀ m : Outgoing, m.toRecord.view.toPublished id = m.toPublished id := by
  intro awaited queued keyBytes payloadBytes told
  have hawaited : told = ⟨id, topic, payloadBytes, keyBytes.map Utf8.lossy,
      Intercept.headers (present (headers.getD []))⟩ := by
    show awaited.parts.view.toPublished id = _
    rw [ProducerRecord.view_eq]
    rfl
  have hqueued : queued.view.toPublished id = told := by
    show queued.parts.view.toPublished id = awaited.parts.view.toPublished id
    rfl
  refine ⟨hqueued, fun _ => hawaited.symm, ?_, fun m => m.toPublished_view_toRecord id⟩
  rw [hawaited]
  exact ⟨rfl, rfl, rfl, rfl, get?_headers_present (headers.getD [])⟩

/-- A null after the last value of a header takes nothing away, and a header of nulls is none. -/
example :
    let headers := [("a", some [0xFF]), ("b", none), ("a", some [0x78, 0xFF]), ("a", none)]
    (Intercept.headers (present headers)).entries = [("a", "x\ufffd")] := by
  decide +kernel

end Intercept

end TopicWatch
