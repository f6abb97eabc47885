import TopicWatch.Json.Writer
import TopicWatch.Record.Message

/-!
# Messages that a test sends

A message is built from a payload and then given a key, headers or a partition.
-/

namespace TopicWatch.Publish

open Json Record

/-- Why a message was not sent. -/
inductive Error where
  | serialize (topic cause : String)
  | send (topic detail : String)
  deriving DecidableEq, Repr

/-- An error in words. -/
def Error.message : Error → String
  | serialize topic cause => s!"serialize payload for '{topic}': {cause}"
  | send topic detail => s!"send to '{topic}': {detail}"

/-- A message that a test sends. -/
structure Outgoing where
  topic : String
  payload : Bytes
  key : Option String
  headers : Headers
  partition : Option Partition
  deriving DecidableEq

/-- The text of a value that can be the name of a member. -/
def nameText? : Value → Option String
  | .text s => some s
  | .bool b => some (toString b)
  | .number n => some (Utf8.lossy (writeNumber n))
  | _ => none

namespace Outgoing

/-- The name of the header that says which test sent a message. -/
def testCaseHeader : String := "testCase"

/-- A message with the given payload. -/
def raw (topic : String) (payload : Bytes) : Outgoing := ⟨topic, payload, none, .empty, none⟩

/-- A message whose payload is the JSON text of a value. -/
def json (topic : String) (v : Value) : Outgoing := raw topic v.write

/-- A message whose payload is an object with the given entries, if every key can be the
name of a member. -/
def ofEntries (topic : String) (entries : List (Value × Value)) : Except Error Outgoing :=
  match entries.mapM fun e => (nameText? e.1).map (·, e.2) with
  | some members => .ok (json topic (.object members))
  | none => .error (.serialize topic "key must be a string")

/-- Sets the key. -/
def withKey (m : Outgoing) (key : String) : Outgoing := { m with key := some key }

/-- Sets a header. -/
def withHeader (m : Outgoing) (name value : String) : Outgoing :=
  { m with headers := m.headers.insert name value }

/-- Sets the partition. -/
def withPartition (m : Outgoing) (partition : Partition) : Outgoing :=
  { m with partition := some partition }

/-- Names the test that sends the message. -/
def withTestCase (m : Outgoing) (name : String) : Outgoing := m.withHeader testCaseHeader name

/-- The message as it is observed when it was sent, under an id of its own. -/
def toPublished (m : Outgoing) (id : String) : Published :=
  ⟨id, m.topic, m.payload, m.key, m.headers⟩

end Outgoing

/-- Where a message was put. -/
structure Receipt where
  topic : String
  partition : Partition
  offset : Offset
  deriving DecidableEq, Repr

/-- What sends messages: it confirms or refuses each, and may change its state. -/
abbrev Publisher (π : Type) := π → Outgoing → Except Error Receipt × π

end TopicWatch.Publish
