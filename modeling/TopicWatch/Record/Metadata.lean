import TopicWatch.Json.Record

/-!
# The context of a message

Headers, and what the broker knows about a message beside its payload.
-/

namespace TopicWatch.Record

open Json

/-- The number of a partition of a topic. -/
abbrev Partition := Int32

/-- The place of a message in its partition. -/
abbrev Offset := Int64

/-- The headers of a message: each name once, in ascending order. -/
abbrev Headers := Keyed.Map String

namespace Headers

/-- Headers in JSON: an object of strings. -/
def form : Form Headers :=
  (Form.map .text).restrict (fun pairs => some (Keyed.Map.ofPairs pairs)) Keyed.Map.entries

end Headers

/-- What the broker knows about a message beside its payload. -/
structure Metadata where
  topic : String
  key : Option String
  headers : Headers
  partition : Option Partition
  offset : Option Offset
  deriving DecidableEq, Inhabited

namespace Metadata

/-- The context of something that has a topic and nothing else. -/
def ofTopic (topic : String) : Metadata := ⟨topic, none, .empty, none, none⟩

/-- A context in JSON. -/
def form : Form Metadata :=
  .record
    (.cons (.required "topic" .text) <| .cons (.nullable "key" .text) <|
      .cons (.required "headers" Headers.form) <| .cons (.nullable "partition" .int32) <|
      .cons (.nullable "offset" .int64) .nil)
    (fun r => ⟨r.1, r.2.1, r.2.2.1, r.2.2.2.1, r.2.2.2.2.1⟩)
    (fun m => (m.topic, m.key, m.headers, m.partition, m.offset, ()))

end Metadata

end TopicWatch.Record
