import TopicWatch.Bridge.Request
import TopicWatch.Store.Basic
import TopicWatch.Topic.Suffixes

/-!
# Filing requests

Requests from the bridge become observations by what their topics are for. A delivered
message goes to exactly one bucket; a sent message is always filed as sent, and on an error
topic also as a failure.
-/

namespace TopicWatch.Sink

open Record Topic Bridge

/-- The bucket of a delivered message. -/
def ofConsumed (suffixes : Suffixes) (m : Consumed) : Observation :=
  match suffixes.classify m.topic with
  | .error => .failed (Failed.ofConsumed m (FailureReason.ofHeaders m.topic m.headers))
  | .retry => .retried m
  | .normal => .consumed m

/-- The observations of a sent message, in the order in which they are filed. -/
def ofPublished (suffixes : Suffixes) (m : Published) : List Observation :=
  if suffixes.isError m.topic then
    [.failed (Failed.ofPublished m (FailureReason.ofHeaders m.topic m.headers)), .published m]
  else [.published m]

/-- The observations that a request stands for. -/
def observations (suffixes : Suffixes) : Request → List Observation
  | .healthCheck => []
  | .published m => ofPublished suffixes m
  | .consumed m => [ofConsumed suffixes m]
  | .committed m => [.committed m]
  | .acknowledged m => [.acknowledged m]

/-- The answer to a request: a health check is served, everything else is taken in. -/
def answer : Request → Ack
  | .healthCheck => ⟨.serving⟩
  | _ => ⟨.ok⟩

/-- Files a request and answers it. -/
def accept (suffixes : Suffixes) (store : Store) (request : Request) : Store × Ack :=
  ((observations suffixes request).foldl Store.record store, answer request)

/-- The store after a list of requests. -/
def acceptAll (suffixes : Suffixes) (store : Store) (requests : List Request) : Store :=
  requests.foldl (fun s r => (accept suffixes s r).1) store

end TopicWatch.Sink
