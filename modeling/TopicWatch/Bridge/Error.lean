import TopicWatch.Bridge.Frame
import TopicWatch.Bridge.Request

/-!
# How the bridge fails
-/

namespace TopicWatch.Bridge

/-- The failure of a server to start, or of a call. -/
inductive Error where
  | bind (address cause : String)
  | connect (address cause : String)
  | frame (e : FrameError)
  | codec (fault : Json.Fault)
  | unexpectedReply (status : Status)
  | timeout
  deriving DecidableEq, Repr

namespace Error

/-- What is wrong with an answer that cannot be read. -/
def codecMessage : Json.Fault → String
  | .malformed => "codec: malformed"
  | .unfinished => "codec: unfinished"
  | .unsuitable => "codec: unsuitable"

/-- A status as it stands in a message. -/
def statusName : Status → String
  | .ok => "Ok"
  | .serving => "Serving"
  | .malformed => "Malformed"

/-- An error in words. -/
def message : Error → String
  | bind address cause => s!"bind {address}: {cause}"
  | connect address cause => s!"connect {address}: {cause}"
  | frame e => e.message
  | codec fault => codecMessage fault
  | unexpectedReply status => s!"unexpected reply: {statusName status}"
  | timeout => "bridge call timed out"

end Error

end TopicWatch.Bridge
