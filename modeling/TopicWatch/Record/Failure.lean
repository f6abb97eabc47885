import TopicWatch.Record.Message

/-!
# Failures

A message on an error topic is a failure. Its reason comes from the headers under which
dead-letter publishers keep the exception, or else names the topic.
-/

namespace TopicWatch.Record

open Json

/-- Why a message ended up on an error topic. -/
structure FailureReason where
  kind : String
  message : String
  deriving DecidableEq

namespace FailureReason

/-- The pairs of headers for the kind and the message of an exception; the first pair whose
kind is there counts. -/
def headerPairs : List (String × String) :=
  [("kafka_dlt-exception-fqcn", "kafka_dlt-exception-message"),
    ("x-exception-type", "x-exception-message")]

/-- The kind of the reason where no header names an exception. -/
def routed : String := "routed-to-error-topic"

/-- The reason where no header names an exception. -/
def ofTopic (topic : String) : FailureReason :=
  ⟨routed, s!"message arrived on error topic '{topic}'"⟩

/-- The reason that one pair of headers gives. -/
def ofPair? (headers : Headers) (pair : String × String) : Option FailureReason :=
  (headers.get? pair.1).map fun kind => ⟨kind, (headers.get? pair.2).getD ""⟩

/-- The reason for a message on an error topic. -/
def ofHeaders (topic : String) (headers : Headers) : FailureReason :=
  (headerPairs.findSome? (ofPair? headers)).getD (ofTopic topic)

/-- A reason for display: the kind, and the message unless it is empty. -/
def display (reason : FailureReason) : String :=
  if reason.message.isEmpty then reason.kind else s!"{reason.kind}: {reason.message}"

/-- A reason in JSON. -/
def form : Form FailureReason :=
  .record (.cons (.required "kind" .text) <| .cons (.required "message" .text) .nil)
    (fun r => ⟨r.1, r.2.1⟩) (fun r => (r.kind, r.message, ()))

end FailureReason

/-- A delivered or sent message on an error topic, under the id of the record it was
derived from. -/
structure Failed where
  id : String
  topic : String
  message : Bytes
  key : Option String
  headers : Headers
  partition : Option Partition
  offset : Option Offset
  reason : FailureReason
  deriving DecidableEq

namespace Failed

/-- The failure of a delivered message. -/
def ofConsumed (m : Consumed) (reason : FailureReason) : Failed :=
  ⟨m.id, m.topic, m.message, m.key, m.headers, some m.partition, some m.offset, reason⟩

/-- The failure of a sent message, whose place in the topic is not known. -/
def ofPublished (m : Published) (reason : FailureReason) : Failed :=
  ⟨m.id, m.topic, m.message, m.key, m.headers, none, none, reason⟩

/-- The context of a failure. -/
def metadata (m : Failed) : Metadata := ⟨m.topic, m.key, m.headers, m.partition, m.offset⟩

/-- The fields of a failure. -/
def fields : Fields [String, String, Bytes, Option String, Headers, Option Partition,
    Option Offset, FailureReason] :=
  .cons (.required "id" .text) <| .cons (.required "topic" .text) <|
    .cons (.required "message" .bytes) <|
    .cons (.withDefault "key" (.optional .text) none) <|
    .cons (.withDefault "headers" Headers.form Keyed.Map.empty) <|
    .cons (.withDefault "partition" (.optional .int32) none) <|
    .cons (.withDefault "offset" (.optional .int64) none) <|
    .cons (.required "reason" FailureReason.form) .nil

/-- A failure in JSON. -/
def form : Form Failed :=
  .record fields
    (fun r => ⟨r.1, r.2.1, r.2.2.1, r.2.2.2.1, r.2.2.2.2.1, r.2.2.2.2.2.1, r.2.2.2.2.2.2.1,
      r.2.2.2.2.2.2.2.1⟩)
    (fun m => (m.id, m.topic, m.message, m.key, m.headers, m.partition, m.offset, m.reason, ()))

end Failed

end TopicWatch.Record
