import TopicWatch.Intercept.Broker
import TopicWatch.Network
import TopicWatch.Publish.Recorder

/-!
# Sending to a cluster of brokers

A message becomes a record of the producer. The producer refuses a record that would not
fit the greatest request at once; it gives a record up when no broker takes it in time.
-/

namespace TopicWatch.Publish

open Record

/-- The record that a message becomes: an entry for each header, in order. -/
def Outgoing.toRecord (m : Outgoing) : Intercept.AwaitedRecord String Bytes :=
  ⟨m.topic, m.partition, m.key, some m.payload,
    some (m.headers.entries.map fun h => (h.1, some (Utf8.encode h.2)))⟩

/-- Brokers and their producer: the greatest size of a record, whether the brokers can be
reached, and how many partitions a topic has. -/
structure Cluster where
  greatest : Nat
  reachable : Bool
  partitions : Nat
  deriving DecidableEq, Repr

namespace Cluster

/-- The greatest size of a record where none is configured. -/
def usualGreatest : Nat := 1000000

/-- A small cluster on a host. -/
def onHost (host : Host) : Cluster := ⟨usualGreatest, host.connectFailure.isNone, 4⟩

/-- Brokers that are not there. -/
def absent : Cluster := ⟨usualGreatest, false, 0⟩

/-- The bytes of a length in steps of seven bits, where one bit is the sign. -/
def lengthSize (n : Nat) : Nat := Nat.log2 (2 * n) / 7 + 1

/-- The bytes of the fields of a record beside its key, payload and headers, at most. -/
def overhead : Nat := 36

/-- The bytes of a part that may be null. -/
def partSize (part : Option Bytes) : Nat := (part.getD []).length

/-- The bytes of a header. -/
def headerSize (h : String × Option Bytes) : Nat :=
  lengthSize h.1.utf8ByteSize + h.1.utf8ByteSize + lengthSize (partSize h.2) + partSize h.2

/-- The bytes of a record, at most. -/
def size (r : Intercept.ProducerRecord) : Nat :=
  r.headers.foldl (fun n h => n + headerSize h) (overhead + partSize r.key + partSize r.payload)

/-- A failure of the producer in words. -/
def failure (name description : String) : String :=
  s!"Message production error: {name} ({description})"

/-- Sends a message. -/
def publish (c : Cluster) : Publisher Recorder := fun r m =>
  if c.greatest < size m.toRecord.parts then
    (.error (.send m.topic (failure "MessageSizeTooLarge" "Broker: Message size too large")), r)
  else if !c.reachable then
    (.error (.send m.topic (failure "MessageTimedOut" "Local: Message timed out")), r)
  else if (m.partition.getD 0).toInt < 0 || (c.partitions : Int) ≤ (m.partition.getD 0).toInt then
    (.error (.send m.topic (failure "UnknownPartition" "Local: Unknown partition")), r)
  else Recorder.publish r m

end Cluster

end TopicWatch.Publish
