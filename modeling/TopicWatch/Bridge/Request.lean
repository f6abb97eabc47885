import TopicWatch.Record.Message

/-!
# Requests over the bridge

A request names what happened and carries the record of it; a health check carries nothing.
In JSON it is an object of the members `method` and `body`, in any order, or an array of
the two. When the method comes first the body is read at once, otherwise it is buffered.
-/

namespace TopicWatch.Bridge

open Json Record

/-- One call over the bridge. -/
inductive Request where
  | healthCheck
  | published (m : Published)
  | consumed (m : Consumed)
  | committed (m : Committed)
  | acknowledged (m : Acknowledged)
  deriving DecidableEq

/-- What a request says, apart from its record. -/
inductive Method where
  | healthCheck
  | published
  | consumed
  | committed
  | acknowledged
  deriving DecidableEq, Repr

namespace Method

/-- All methods in their order. -/
def all : List Method := [healthCheck, published, consumed, committed, acknowledged]

/-- The name of a method. -/
def name : Method → String
  | healthCheck => "health_check"
  | published => "on_published"
  | consumed => "on_consumed"
  | committed => "on_committed"
  | acknowledged => "on_acknowledged"

/-- The methods by name. -/
def table : List (String × Method) := all.map fun m => (m.name, m)

/-- A method in JSON. -/
def form : Form Method := .named table name

end Method

namespace Request

/-- What a request says. -/
def method : Request → Method
  | healthCheck => .healthCheck
  | published _ => .published
  | consumed _ => .consumed
  | committed _ => .committed
  | acknowledged _ => .acknowledged

/-- The topic of the record, if there is one. -/
def topic? : Request → Option String
  | healthCheck => none
  | published m => some m.topic
  | consumed m => some m.topic
  | committed m => some m.topic
  | acknowledged m => some m.topic

/-- The id of the record, if there is one. -/
def id? : Request → Option String
  | healthCheck => none
  | published m => some m.id
  | consumed m => some m.id
  | committed m => some m.id
  | acknowledged m => some m.id

/-- The record in JSON, if there is one. -/
def body? : Request → Option Value
  | healthCheck => none
  | published m => some (Published.form.toValue m)
  | consumed m => some (Consumed.form.toValue m)
  | committed m => some (Committed.form.toValue m)
  | acknowledged m => some (Acknowledged.form.toValue m)

/-- The name of the member that holds the method. -/
def methodTag : String := "method"

/-- The name of the member that holds the record. -/
def bodyTag : String := "body"

/-- A request in JSON: the method, then the record. -/
def toValue (r : Request) : Value :=
  .object ((methodTag, .text r.method.name) ::
    match r.body? with
    | some body => [(bodyTag, body)]
    | none => [])

/-- Reads the body of a method. -/
def readBody (l : Limits) : Method → Bytes → Step Request
  | .healthCheck, s => (Form.null.fromText l s).map fun p => (healthCheck, p.2)
  | .published, s => (Published.form.fromText l s).map fun p => (published p.1, p.2)
  | .consumed, s => (Consumed.form.fromText l s).map fun p => (consumed p.1, p.2)
  | .committed, s => (Committed.form.fromText l s).map fun p => (committed p.1, p.2)
  | .acknowledged, s => (Acknowledged.form.fromText l s).map fun p => (acknowledged p.1, p.2)

/-- The request of a method with a buffered body. -/
def ofBody? : Method → Value → Option Request
  | .healthCheck, v => (Form.null.fromValue v).map fun _ => healthCheck
  | .published, v => (Published.form.fromValue v).map published
  | .consumed, v => (Consumed.form.fromValue v).map consumed
  | .committed, v => (Committed.form.fromValue v).map committed
  | .acknowledged, v => (Acknowledged.form.fromValue v).map acknowledged

/-- The request of a method without a body. -/
def ofMethod? : Method → Option Request
  | .healthCheck => some healthCheck
  | _ => none

/-- What was read of a request before its end. -/
inductive Partial where
  | nothing
  | method (m : Method)
  | body (v : Value)
  | whole (r : Request)

/-- The request of what was read. -/
def ofPartial? : Partial → Option Request
  | .method m => ofMethod? m
  | .whole r => some r
  | _ => none

/-- Reads a member of a request after its name. A second method or body is refused before
its value. -/
def readMember (l : Limits) (found : Partial) (name : String) (s : Bytes) : Step Partial :=
  if name = methodTag then
    match found with
    | .nothing => (afterColon (Method.form.fromText l) s).map fun p => (.method p.1, p.2)
    | .body v =>
        Form.accept (fun m => (ofBody? m v).map .whole) (afterColon (Method.form.fromText l) s)
    | _ => .error .unsuitable
  else if name = bodyTag then
    match found with
    | .nothing => (afterColon (readValue l.steps l.opens) s).map fun p => (.body p.1, p.2)
    | .method m => (afterColon (readBody l m) s).map fun p => (.whole p.1, p.2)
    | _ => .error .unsuitable
  else (afterColon (fun t => (skipValue l.steps t).map ((), ·)) s).map fun p => (found, p.2)

/-- Reads the method and the body of a request in an array. -/
def readArray (l : Limits) (s : Bytes) : Step Request :=
  match nextItem true s with
  | .error f => .error f
  | .ok (.closed _) => .error .unsuitable
  | .ok (.item at') =>
      match Method.form.fromText l at' with
      | .error f => .error f
      | .ok (m, rest) =>
          match nextItem false rest with
          | .error f => .error f
          | .ok (.closed _) => .error .unsuitable
          | .ok (.item body) =>
              match readBody l m body with
              | .error f => .error f
              | .ok (r, after) => (closeArray after).map (r, ·)

/-- Reads a request from text. -/
def fromText (l : Limits) (s : Bytes) : Step Request :=
  match skipBlanks s with
  | [] => .error .unfinished
  | c :: rest =>
      if c = 0x5B then l.enter.bind fun inner => readArray inner rest
      else if c = 0x7B then
        l.enter.bind fun inner =>
          Form.accept ofPartial? (membersAfter (readMember inner) l.steps true .nothing rest)
      else .error (refuse c rest)

/-- The bytes of a request. -/
def encode (r : Request) : Bytes := r.toValue.write

/-- The request that a whole text denotes. -/
def decode (s : Bytes) : Except Fault Request := complete (fromText (Limits.whole s) s)

end Request

/-- What the other side says about a request. -/
inductive Status where
  | ok
  | serving
  | malformed
  deriving DecidableEq, Repr

namespace Status

/-- The name of a status. -/
def name : Status → String
  | ok => "ok"
  | serving => "serving"
  | malformed => "malformed"

/-- The statuses by name. -/
def table : List (String × Status) := [ok, serving, malformed].map fun a => (a.name, a)

/-- A status in JSON. -/
def form : Form Status := .named table name

end Status

/-- The answer to a request. -/
structure Ack where
  status : Status
  deriving DecidableEq, Repr

namespace Ack

/-- An answer in JSON. -/
def form : Form Ack :=
  .record (.cons (.required "status" Status.form) .nil) (fun r => ⟨r.1⟩) (fun a => (a.status, ()))

/-- The bytes of an answer. -/
def encode (a : Ack) : Bytes := form.encode a

/-- The answer that a whole text denotes. -/
def decode (s : Bytes) : Except Fault Ack := form.decode s

end Ack

end TopicWatch.Bridge
