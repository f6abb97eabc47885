import TopicWatch.Inspection.Route
import TopicWatch.Store.Report

/-!
# Responses of the inspection interface

The counts and the lists are JSON. A kind that there is not, and a path that there is not,
are not found. Clearing empties the store for good.
-/

namespace TopicWatch.Inspection

open Json Record

/-- What a response carries. -/
inductive Body where
  | empty
  | text (s : String)
  | json (v : Value)
  deriving Repr

/-- The content type of what a response carries. -/
def Body.contentType? : Body → Option String
  | empty => none
  | text _ => some "text/plain; charset=utf-8"
  | json _ => some "application/json"

/-- A response: its status, the type of its content, the methods that it names as allowed,
and what it carries. -/
structure Response where
  status : Nat
  contentType : Option String
  allow : Option String
  body : Body
  deriving Repr

namespace Response

/-- A response that carries something. -/
def carrying (status : Nat) (body : Body) : Response := ⟨status, body.contentType?, none, body⟩

/-- A response as a request for its head gets it. -/
def withoutBody (r : Response) : Response := { r with body := .empty }

/-- The response to a request that asks for nothing. -/
def ofDenial : Denial → Response
  | .notFound => carrying 404 .empty
  | .methodNotAllowed allowed =>
      { carrying 405 .empty with allow := some (String.intercalate "," allowed) }
  | .notText => carrying 400 (.text "Invalid URL: Invalid UTF-8 in `kind`")

end Response

/-- The list of the observations of a kind. -/
def listing (store : Store) (kind : Record.Kind) : Value :=
  .array ((store.snapshot kind).map Observation.form.toValue)

/-- Answers a query. Only clearing changes the store. -/
def answer (store : Store) : Query → Store × Response
  | .summary => (store, .carrying 200 (.json store.summary.toValue))
  | .list name => (store, match Kind.ofName? name with
      | some kind => .carrying 200 (.json (listing store kind))
      | none => .carrying 404 (.text (Kind.unknownMessage name)))
  | .clear => (store.clear, .carrying 204 .empty)

/-- Answers a request. -/
def respond (store : Store) (method : Method) (target : String) : Store × Response :=
  match Query.ofRequest method target with
  | .error denial => (store, .ofDenial denial)
  | .ok query =>
      let answered := answer store query
      (answered.1, if method = .head then answered.2.withoutBody else answered.2)

end TopicWatch.Inspection
