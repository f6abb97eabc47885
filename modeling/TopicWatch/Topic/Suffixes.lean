import TopicWatch.Json.Record
import TopicWatch.Text.Ascii

/-!
# What a topic is for

The name of a topic tells by its ending whether it carries failed messages, messages to be
tried again, or neither. Endings are compared without regard to ASCII case; an ending for
failures wins over one for retries, and an empty ending matches no topic.
-/

namespace TopicWatch.Topic

open Json

/-- What a topic is for. -/
inductive Kind where
  | normal
  | retry
  | error
  deriving DecidableEq, Repr

namespace Kind

/-- The name of a kind. -/
def name : Kind → String
  | normal => "normal"
  | retry => "retry"
  | error => "error"

/-- The kinds by name. -/
def table : List (String × Kind) :=
  [("normal", normal), ("retry", retry), ("error", error)]

/-- A kind in JSON. -/
def form : Form Kind := .named table name

end Kind

/-- The endings of error topics and of retry topics. -/
structure Suffixes where
  error : List String
  retry : List String
  deriving DecidableEq, Repr

/-- Whether a topic ends with a given ending, which must not be empty. -/
def endsWith (topic ending : String) : Bool :=
  !ending.isEmpty && Ascii.endsWithFold topic ending

/-- Whether a topic ends with any of the given endings. -/
def endsWithAny (topic : String) (endings : List String) : Bool :=
  endings.any (endsWith topic)

/-- What a topic is for under two lists of endings. -/
def classify (topic : String) (error retry : List String) : Kind :=
  if endsWithAny topic error then .error
  else if endsWithAny topic retry then .retry
  else .normal

namespace Suffixes

/-- The endings of error topics where none are configured. -/
def standardError : List String := [".error", ".DLT"]

/-- The endings of retry topics where none are configured. -/
def standardRetry : List String := [".retry"]

/-- The endings where none are configured. -/
def standard : Suffixes := ⟨standardError, standardRetry⟩

instance : Inhabited Suffixes := ⟨standard⟩

/-- No endings: every topic is normal. -/
def none : Suffixes := ⟨[], []⟩

/-- What a topic is for. -/
def classify (suffixes : Suffixes) (topic : String) : Kind :=
  Topic.classify topic suffixes.error suffixes.retry

/-- Whether a topic carries failed messages. -/
def isError (suffixes : Suffixes) (topic : String) : Bool := suffixes.classify topic == .error

/-- Whether a topic carries messages to be tried again. -/
def isRetry (suffixes : Suffixes) (topic : String) : Bool := suffixes.classify topic == .retry

/-- The endings in JSON; a list that is missing has its standard endings. -/
def form : Form Suffixes :=
  .record
    (.cons (.withDefault "error" (.list .text) standardError) <|
      .cons (.withDefault "retry" (.list .text) standardRetry) .nil)
    (fun r => ⟨r.1, r.2.1⟩) (fun s => (s.error, s.retry, ()))

end Suffixes

end TopicWatch.Topic
