import TopicWatch.Publish.Outgoing

/-!
# A stand-in for the broker

The recorder keeps every message and numbers those of each partition from zero on. A
message without a partition goes to partition zero.
-/

namespace TopicWatch.Publish

open Record

/-- The messages that were sent, in order, and the next offset of each partition. -/
structure Recorder where
  sent : List Outgoing
  next : List ((String × Partition) × Offset)
  deriving DecidableEq

namespace Recorder

/-- A recorder before anything was sent. -/
def empty : Recorder := ⟨[], []⟩

/-- The partition that a message goes to. -/
def place (m : Outgoing) : String × Partition := (m.topic, m.partition.getD 0)

/-- The next offset of a partition. -/
def nextOffset (place : String × Partition) : List ((String × Partition) × Offset) → Offset
  | [] => 0
  | (p, offset) :: rest => if place = p then offset else nextOffset place rest

/-- Counts one more message of a partition. -/
def advance (place : String × Partition) :
    List ((String × Partition) × Offset) → List ((String × Partition) × Offset)
  | [] => [(place, 1)]
  | (p, offset) :: rest =>
      if place = p then (p, offset + 1) :: rest else (p, offset) :: advance place rest

/-- Keeps a message and says where it was put. -/
def publish : Publisher Recorder := fun r m =>
  (.ok ⟨m.topic, m.partition.getD 0, nextOffset (place m) r.next⟩,
    ⟨r.sent ++ [m], advance (place m) r.next⟩)

/-- A recorder that refuses messages to some topics. -/
def refusing (topics : List String) : Publisher Recorder := fun r m =>
  if topics.contains m.topic then (.error (.send m.topic "broker down"), r) else publish r m

end Recorder

end TopicWatch.Publish
