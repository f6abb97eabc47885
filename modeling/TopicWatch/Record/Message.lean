import TopicWatch.Record.Metadata

/-!
# Records of messages

What was observed about a message: that it was sent, delivered to a handler, committed or
dealt with. Each record has an id of its own that says nothing about the message.
-/

namespace TopicWatch.Record

open Json

/-- A message that was sent. -/
structure Published where
  id : String
  topic : String
  message : Bytes
  key : Option String
  headers : Headers
  deriving DecidableEq

namespace Published

/-- The context of a sent message: where it will be stored is not known yet. -/
def metadata (m : Published) : Metadata := ⟨m.topic, m.key, m.headers, none, none⟩

/-- The fields of a sent message. -/
def fields : Fields [String, String, Bytes, Option String, Headers] :=
  .cons (.required "id" .text) <| .cons (.required "topic" .text) <|
    .cons (.required "message" .bytes) <|
    .cons (.withDefault "key" (.optional .text) none) <|
    .cons (.withDefault "headers" Headers.form Keyed.Map.empty) .nil

/-- A sent message in JSON. -/
def form : Form Published :=
  .record fields (fun r => ⟨r.1, r.2.1, r.2.2.1, r.2.2.2.1, r.2.2.2.2.1⟩)
    (fun m => (m.id, m.topic, m.message, m.key, m.headers, ()))

end Published

/-- A message that was delivered to a handler. -/
structure Consumed where
  id : String
  topic : String
  partition : Partition
  offset : Offset
  message : Bytes
  key : Option String
  headers : Headers
  deriving DecidableEq

namespace Consumed

/-- The context of a delivered message. -/
def metadata (m : Consumed) : Metadata :=
  ⟨m.topic, m.key, m.headers, some m.partition, some m.offset⟩

/-- The fields of a delivered message. -/
def fields : Fields [String, String, Partition, Offset, Bytes, Option String, Headers] :=
  .cons (.required "id" .text) <| .cons (.required "topic" .text) <|
    .cons (.required "partition" .int32) <| .cons (.required "offset" .int64) <|
    .cons (.required "message" .bytes) <|
    .cons (.withDefault "key" (.optional .text) none) <|
    .cons (.withDefault "headers" Headers.form Keyed.Map.empty) .nil

/-- A delivered message in JSON. -/
def form : Form Consumed :=
  .record fields
    (fun r => ⟨r.1, r.2.1, r.2.2.1, r.2.2.2.1, r.2.2.2.2.1, r.2.2.2.2.2.1, r.2.2.2.2.2.2.1⟩)
    (fun m => (m.id, m.topic, m.partition, m.offset, m.message, m.key, m.headers, ()))

end Consumed

/-- A commit of a partition: the offset is the one to be read next. -/
structure Committed where
  id : String
  topic : String
  partition : Partition
  offset : Offset
  metadata : String
  deriving DecidableEq

namespace Committed

/-- Whether a commit covers the message at an offset: it covers those below its own. -/
def covers (m : Committed) (offset : Offset) : Bool := decide (offset < m.offset)

/-- The fields of a commit. -/
def fields : Fields [String, String, Partition, Offset, String] :=
  .cons (.required "id" .text) <| .cons (.required "topic" .text) <|
    .cons (.required "partition" .int32) <| .cons (.required "offset" .int64) <|
    .cons (.withDefault "metadata" .text "") .nil

/-- A commit in JSON. -/
def form : Form Committed :=
  .record fields (fun r => ⟨r.1, r.2.1, r.2.2.1, r.2.2.2.1, r.2.2.2.2.1⟩)
    (fun m => (m.id, m.topic, m.partition, m.offset, m.metadata, ()))

end Committed

/-- A message that its handler has dealt with. -/
structure Acknowledged where
  id : String
  topic : String
  message : Bytes
  deriving DecidableEq

namespace Acknowledged

/-- The fields of a message that was dealt with. -/
def fields : Fields [String, String, Bytes] :=
  .cons (.required "id" .text) <| .cons (.required "topic" .text) <|
    .cons (.required "message" .bytes) .nil

/-- A message that was dealt with in JSON. -/
def form : Form Acknowledged :=
  .record fields (fun r => ⟨r.1, r.2.1, r.2.2.1⟩) (fun m => (m.id, m.topic, m.message, ()))

end Acknowledged

end TopicWatch.Record
