import TopicWatch.Intercept.View

/-!
# Callbacks

What the application's interceptors are called with, and the requests that a call stands
for: one for each record, in order, each under an id of its own.
-/

namespace TopicWatch.Intercept

open Bridge

/-- A call of an interceptor. -/
inductive Callback where
  | sent (r : Outbound)
  | consumed (rs : List Inbound)
  | committed (es : List CommitEntry)
  | acknowledged (r : Inbound)
  deriving DecidableEq

/-- One record of a call. -/
inductive Event where
  | sent (r : Outbound)
  | consumed (r : Inbound)
  | committed (e : CommitEntry)
  | acknowledged (r : Inbound)
  deriving DecidableEq

namespace Callback

/-- The records of a call, in order. -/
def events : Callback → List Event
  | sent r => [.sent r]
  | consumed rs => rs.map .consumed
  | committed es => es.map .committed
  | acknowledged r => [.acknowledged r]

end Callback

/-- The request of a record under an id. -/
def Event.toRequest (id : String) : Event → Request
  | .sent r => .published (r.toPublished id)
  | .consumed r => .consumed (r.toConsumed id)
  | .committed e => .committed (e.toCommitted id)
  | .acknowledged r => .acknowledged (r.toAcknowledged id)

/-- The requests of a list of calls, where the records draw their ids one after the other,
beginning with the given number. -/
def requests (ids : Nat → String) (first : Nat) (calls : List Callback) : List Request :=
  ((calls.flatMap Callback.events).zipIdx first).map fun e => e.1.toRequest (ids e.2)

end TopicWatch.Intercept
