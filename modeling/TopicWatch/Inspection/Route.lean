import TopicWatch.Text.Percent

/-!
# Routes of the inspection interface

One path stands for all observations, and each segment below it for the observations of a
kind. A query behind a question mark and a fragment behind a hash are no part of the path.
-/

namespace TopicWatch.Inspection

/-- The method of a request. -/
inductive Method where
  | get
  | head
  | delete
  | other
  deriving DecidableEq, Repr

/-- The method with a given name, where case matters. -/
def Method.ofName (name : String) : Method :=
  if name = "GET" then get
  else if name = "HEAD" then head
  else if name = "DELETE" then delete
  else other

/-- What a path stands for. The segment of a kind is kept as it is written. -/
inductive Resource where
  | all
  | kind (segment : String)
  deriving DecidableEq, Repr

namespace Resource

/-- The path that stands for all observations. -/
def allPath : String := "/api/observations"

/-- The methods that a resource has. -/
def methods : Resource → List String
  | all => ["GET", "HEAD", "DELETE"]
  | kind _ => ["GET", "HEAD"]

/-- The path of the target of a request. -/
def path (target : String) : List Char :=
  target.toList.takeWhile fun c => c != '?' && c != '#'

/-- What follows a given front of a text. -/
def after? : List Char → List Char → Option (List Char)
  | [], s => some s
  | c :: front, d :: s => if c = d then after? front s else none
  | _ :: _, [] => none

/-- The resource of a target. The segment of a kind is neither empty nor has it a slash. -/
def ofTarget? (target : String) : Option Resource :=
  match after? allPath.toList (path target) with
  | none => none
  | some [] => some all
  | some (slash :: segment) =>
      if slash = '/' ∧ segment ≠ [] ∧ '/' ∉ segment then some (kind (String.ofList segment))
      else none

end Resource

/-- What a request asks for. -/
inductive Query where
  | summary
  | list (kind : String)
  | clear
  deriving DecidableEq, Repr

/-- Why a request asks for nothing. -/
inductive Denial where
  | notFound
  | methodNotAllowed (allowed : List String)
  | notText
  deriving DecidableEq, Repr

/-- The text of a segment. -/
def segmentText? (segment : String) : Option String :=
  Utf8.decode? (Percent.decode (Utf8.encode segment))

/-- What a request with a method asks of a resource. -/
def Query.of (method : Method) (resource : Resource) : Except Denial Query :=
  match resource, method with
  | .all, .get | .all, .head => .ok .summary
  | .all, .delete => .ok .clear
  | .kind segment, .get | .kind segment, .head =>
      match segmentText? segment with
      | some text => .ok (.list text)
      | none => .error .notText
  | _, _ => .error (.methodNotAllowed resource.methods)

/-- What a request asks for. -/
def Query.ofRequest (method : Method) (target : String) : Except Denial Query :=
  match Resource.ofTarget? target with
  | none => .error .notFound
  | some resource => Query.of method resource

end TopicWatch.Inspection
