import TopicWatch.Bridge.Request

/-!
# What the application's broker client shows

Views of the records that pass through a producer or a consumer. Keys and header values are
bytes there and become text for display; payloads stay bytes.
-/

namespace TopicWatch.Intercept

open Record

/-- The headers of a view; of several values for one name the last one counts. -/
def headers (pairs : List (String × Bytes)) : Headers :=
  Keyed.Map.ofPairs (pairs.map fun p => (p.1, Utf8.lossy p.2))

/-- A record that is handed to a producer. -/
structure Outbound where
  topic : String
  partition : Option Partition
  key : Option Bytes
  payload : Bytes
  headers : List (String × Bytes)
  deriving DecidableEq

namespace Outbound

/-- A view of a payload for a topic, without anything else. -/
def bare (topic : String) (payload : Bytes) : Outbound := ⟨topic, none, none, payload, []⟩

/-- Sets the key. -/
def withKey (r : Outbound) (key : Bytes) : Outbound := { r with key := some key }

/-- Sets the partition. -/
def withPartition (r : Outbound) (partition : Partition) : Outbound :=
  { r with partition := some partition }

/-- Adds a header after those that are there. -/
def withHeader (r : Outbound) (name : String) (value : Bytes) : Outbound :=
  { r with headers := r.headers ++ [(name, value)] }

/-- The sent message of a view, under an id of its own. -/
def toPublished (r : Outbound) (id : String) : Published :=
  ⟨id, r.topic, r.payload, r.key.map Utf8.lossy, Intercept.headers r.headers⟩

end Outbound

/-- A record that a consumer was given. -/
structure Inbound where
  topic : String
  partition : Partition
  offset : Offset
  key : Option Bytes
  payload : Bytes
  headers : List (String × Bytes)
  deriving DecidableEq

namespace Inbound

/-- The delivered message of a view, under an id of its own. -/
def toConsumed (r : Inbound) (id : String) : Consumed :=
  ⟨id, r.topic, r.partition, r.offset, r.payload, r.key.map Utf8.lossy,
    Intercept.headers r.headers⟩

/-- The message of a view that was dealt with, under an id of its own. -/
def toAcknowledged (r : Inbound) (id : String) : Acknowledged := ⟨id, r.topic, r.payload⟩

end Inbound

/-- An entry of a commit: the offset is the one to be read next. -/
structure CommitEntry where
  topic : String
  partition : Partition
  offset : Offset
  metadata : String
  deriving DecidableEq

/-- The commit of an entry, under an id of its own. -/
def CommitEntry.toCommitted (e : CommitEntry) (id : String) : Committed :=
  ⟨id, e.topic, e.partition, e.offset, e.metadata⟩

end TopicWatch.Intercept
