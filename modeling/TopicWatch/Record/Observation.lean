import TopicWatch.Record.Failure
import TopicWatch.Record.Kind
import TopicWatch.Text.Quoted

/-!
# Observations

A record together with the bucket it belongs to. In JSON the name of the bucket stands as
the member `kind` beside the fields of the record, or in front of them in an array.
-/

namespace TopicWatch.Record

open Json

/-- A record of one of the six kinds. Delivered messages belong to one of two buckets. -/
inductive Observation where
  | published (m : Published)
  | consumed (m : Consumed)
  | committed (m : Committed)
  | acknowledged (m : Acknowledged)
  | retried (m : Consumed)
  | failed (m : Failed)
  deriving DecidableEq

namespace Observation

/-- The bucket of an observation. -/
def kind : Observation → Kind
  | published _ => .published
  | consumed _ => .consumed
  | committed _ => .committed
  | acknowledged _ => .acknowledged
  | retried _ => .retried
  | failed _ => .failed

/-- The id of the record. -/
def id : Observation → String
  | published m => m.id
  | consumed m | retried m => m.id
  | committed m => m.id
  | acknowledged m => m.id
  | failed m => m.id

/-- The topic of the record. -/
def topic : Observation → String
  | published m => m.topic
  | consumed m | retried m => m.topic
  | committed m => m.topic
  | acknowledged m => m.topic
  | failed m => m.topic

/-- The payload of the record; a commit has none. -/
def payload? : Observation → Option Bytes
  | published m => some m.message
  | consumed m | retried m => some m.message
  | committed _ => none
  | acknowledged m => some m.message
  | failed m => some m.message

/-- The context of the record, as far as its kind knows it. -/
def metadata : Observation → Metadata
  | published m => m.metadata
  | consumed m | retried m => m.metadata
  | committed m =>
      { Metadata.ofTopic m.topic with partition := some m.partition, offset := some m.offset }
  | acknowledged m => .ofTopic m.topic
  | failed m => m.metadata

/-- The reason of a failure. -/
def reason? : Observation → Option FailureReason
  | failed m => some m.reason
  | _ => none

theorem exists_reason (o : Observation) (h : o.kind = .failed) : ∃ reason, o.reason? = some reason := by
  cases o with
  | failed m => exact ⟨m.reason, rfl⟩
  | _ => exact absurd h (by simp [kind])

/-- An observation on one line: its kind, its id, and what is known about the message. -/
def display (o : Observation) : String :=
  let m := o.metadata
  let part (label : String) (value : Option String) : String :=
    match value with
    | some v => s!" {label}={v}"
    | none => ""
  s!"[{o.kind.name}] id={o.id} topic={o.topic}"
    ++ part "partition" (m.partition.map fun p => toString p.toInt)
    ++ part "offset" (m.offset.map fun p => toString p.toInt)
    ++ part "key" m.key
    ++ part "headers"
        (if m.headers.entries.isEmpty then none else some (Quoted.encodePairs m.headers.entries))
    ++ part "reason" (o.reason?.map fun r => "\"" ++ r.display ++ "\"")
    ++ part "message" (o.payload?.map Utf8.lossy)

/-- The record of a kind in a buffered value. -/
def ofRecord? : Kind → Value → Option Observation
  | .published, v => (Published.form.fromValue v).map published
  | .consumed, v => (Consumed.form.fromValue v).map consumed
  | .committed, v => (Committed.form.fromValue v).map committed
  | .acknowledged, v => (Acknowledged.form.fromValue v).map acknowledged
  | .retried, v => (Consumed.form.fromValue v).map retried
  | .failed, v => (Failed.form.fromValue v).map failed

/-- The record of an observation in JSON, without its kind. -/
def recordValue : Observation → Value
  | published m => Published.form.toValue m
  | consumed m | retried m => Consumed.form.toValue m
  | committed m => Committed.form.toValue m
  | acknowledged m => Acknowledged.form.toValue m
  | failed m => Failed.form.toValue m

/-- The name of the member that holds the kind. -/
def tag : String := "kind"

/-- The kind of a buffered tag, which has to be a string. -/
def ofTag? : Value → Option Kind
  | .text s => Form.lookUp Kind.table s
  | _ => none

/-- What was read of an observation before its end: its kind, and its other members in
reverse. -/
structure Partial where
  kind : Option Kind
  members : List (String × Value)

/-- The observation of what was read. -/
def ofPartial? (found : Partial) : Option Observation :=
  found.kind.bind fun kind => ofRecord? kind (.object found.members.reverse)

/-- Reads a member of an observation after its name: the kind at once, everything else
into a buffer. A second kind is refused before its value. -/
def readMember (l : Limits) (found : Partial) (name : String) (s : Bytes) : Step Partial :=
  if name = tag then
    if found.kind.isSome then .error .unsuitable
    else (afterColon (Form.readScalar ofTag?) s).map fun p =>
      ({ found with kind := some p.1 }, p.2)
  else (afterColon (readValue l.steps l.opens) s).map fun p =>
    ({ found with members := (name, p.1) :: found.members }, p.2)

/-- Reads an observation whose kind stands in front of the fields in an array. -/
def readArray (l : Limits) (s : Bytes) : Step Observation :=
  match nextItem true s with
  | .error f => .error f
  | .ok (.closed _) => .error .unsuitable
  | .ok (.item at') =>
      match Form.readScalar ofTag? at' with
      | .error f => .error f
      | .ok (kind, rest) =>
          Form.accept (fun items => ofRecord? kind (.array items))
            (itemsAfter (readValue l.steps l.opens) l.steps false [] rest)

/-- Finds the kind among the members of a buffered object; it may stand there only once. -/
def splitTag : List (String × Value) → Option (Option Kind × List (String × Value))
  | [] => some (none, [])
  | (name, v) :: rest => do
      let (found, members) ← splitTag rest
      if name = tag then
        if found.isSome then none
        else some (some (← ofTag? v), members)
      else some (found, (name, v) :: members)

/-- An observation in JSON. -/
def form : Form Observation where
  fromText l s :=
    match skipBlanks s with
    | [] => .error .unfinished
    | c :: rest =>
        if c = 0x5B then l.enter.bind fun inner => readArray inner rest
        else if c = 0x7B then
          l.enter.bind fun inner =>
            Form.accept ofPartial? (membersAfter (readMember inner) l.steps true ⟨none, []⟩ rest)
        else .error (refuse c rest)
  fromValue
    | .object members => do
        let (kind, others) ← splitTag members
        ofRecord? (← kind) (.object others)
    | .array (v :: items) => do ofRecord? (← ofTag? v) (.array items)
    | _ => none
  toValue o :=
    match o.recordValue with
    | .object members => .object ((tag, .text o.kind.name) :: members)
    | v => v

end Observation

end TopicWatch.Record
