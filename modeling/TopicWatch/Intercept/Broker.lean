import TopicWatch.Intercept.View

/-!
# Records of the broker client

What the client hands over, where parts may be null and a committed offset may be a symbol.
A null payload counts as empty, a null header is left out, and symbols are no commits.
-/

namespace TopicWatch.Intercept

open Record

/-- The non-null headers, in order. -/
def present (pairs : List (String × Option Bytes)) : List (String × Bytes) :=
  pairs.filterMap fun p => p.2.map (p.1, ·)

/-- A message that was polled. -/
structure PolledMessage where
  topic : String
  partition : Partition
  offset : Offset
  key : Option Bytes
  payload : Option Bytes
  headers : List (String × Option Bytes)
  deriving DecidableEq

/-- The view of a polled message. -/
def PolledMessage.view (m : PolledMessage) : Inbound :=
  ⟨m.topic, m.partition, m.offset, m.key, m.payload.getD [], present m.headers⟩

/-- Types whose values a producer writes as bytes. -/
class ToBytes (α : Type) where
  toBytes : α → Bytes

instance : ToBytes Bytes := ⟨id⟩

instance : ToBytes String := ⟨Utf8.encode⟩

/-- The parts of a record that is about to be sent, as a producer of either sort writes them. -/
structure ProducerRecord where
  topic : String
  partition : Option Partition
  key : Option Bytes
  payload : Option Bytes
  headers : List (String × Option Bytes)
  deriving DecidableEq

/-- The view of a record that is about to be sent, built step by step from the parts that are
not null. -/
def ProducerRecord.view (r : ProducerRecord) : Outbound :=
  let bare := Outbound.bare r.topic (r.payload.getD [])
  let keyed := r.key.elim bare bare.withKey
  let placed := r.partition.elim keyed keyed.withPartition
  (present r.headers).foldl (fun view h => view.withHeader h.1 h.2) placed

/-- A record for a producer whose sender waits for the delivery. -/
structure AwaitedRecord (κ π : Type) where
  topic : String
  partition : Option Partition
  key : Option κ
  payload : Option π
  headers : Option (List (String × Option Bytes))

/-- A record for a producer that reports the delivery to a callback, together with a tag. -/
structure QueuedRecord (κ π δ : Type) where
  topic : String
  partition : Option Partition
  key : Option κ
  payload : Option π
  headers : Option (List (String × Option Bytes))
  tag : δ

section Producers

variable {κ π δ : Type} [ToBytes κ] [ToBytes π]

/-- The parts of a record whose delivery is awaited. -/
def AwaitedRecord.parts (r : AwaitedRecord κ π) : ProducerRecord :=
  ⟨r.topic, r.partition, r.key.map ToBytes.toBytes, r.payload.map ToBytes.toBytes,
    r.headers.getD []⟩

/-- The view that is shown of a record whose delivery is awaited. -/
def AwaitedRecord.view (r : AwaitedRecord κ π) : Outbound := r.parts.view

/-- The parts of a record whose delivery is reported. -/
def QueuedRecord.parts (r : QueuedRecord κ π δ) : ProducerRecord :=
  ⟨r.topic, r.partition, r.key.map ToBytes.toBytes, r.payload.map ToBytes.toBytes,
    r.headers.getD []⟩

/-- The view that is shown of a record whose delivery is reported. -/
def QueuedRecord.view (r : QueuedRecord κ π δ) : Outbound := r.parts.view

end Producers

/-- An offset in the broker client's list of a commit. -/
inductive BrokerOffset where
  | beginning
  | ending
  | stored
  | invalid
  | tail (n : Int64)
  | at (offset : Offset)
  deriving DecidableEq

/-- An element of a commit. -/
structure CommitElement where
  topic : String
  partition : Partition
  offset : BrokerOffset
  metadata : String
  deriving DecidableEq

/-- The entry of an element with a number for its offset. -/
def CommitElement.entry? (e : CommitElement) : Option CommitEntry :=
  match e.offset with
  | .at offset => some ⟨e.topic, e.partition, offset, e.metadata⟩
  | _ => none

/-- The calls that a finished commit makes: none when it failed or has no entry. -/
def commitCalls (failed : Bool) (elements : List CommitElement) : List (List CommitEntry) :=
  let entries := elements.filterMap CommitElement.entry?
  if failed || entries.isEmpty then [] else [entries]

end TopicWatch.Intercept
