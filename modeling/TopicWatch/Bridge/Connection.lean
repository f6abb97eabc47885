import TopicWatch.Bridge.Error

/-!
# One connection of the server

The server reads frame after frame and answers each before it reads the next. A frame that
is no request is answered too, and changes nothing. The connection ends with the stream or
with the first frame, read or written, that the limit refuses.
-/

namespace TopicWatch.Bridge

/-- What handles requests: it changes its state and gives the answer. -/
abbrev Handler (σ : Type) := σ → Request → σ × Ack

/-- The state after a frame, and the answer to it. -/
def Handler.reply {σ : Type} (handle : Handler σ) (state : σ) (payload : Bytes) : σ × Ack :=
  match Request.decode payload with
  | .ok request => handle state request
  | .error _ => (state, ⟨.malformed⟩)

/-- What became of a connection: the state, the answers that were written and the error that
ended it, if there was one. -/
structure Served (σ : Type) where
  state : σ
  answers : List Ack
  ended : Option FrameError

/-- Serves a stream after answers already written, which stand in reverse. -/
def Handler.serveAfter {σ : Type} (handle : Handler σ) (f : Framing) (written : List Ack)
    (state : σ) (s : Bytes) : Served σ :=
  match _h : f.read s with
  | .ended => ⟨state, written.reverse, none⟩
  | .failed e => ⟨state, written.reverse, some e⟩
  | .frame payload rest =>
      let replied := handle.reply state payload
      match f.frame replied.2.encode with
      | .error e => ⟨replied.1, written.reverse, some e⟩
      | .ok _ => handle.serveAfter f (replied.2 :: written) replied.1 rest
termination_by s.length
decreasing_by exact Framing.length_of_read _h

/-- Serves everything that a peer sends on one connection. -/
def Handler.serve {σ : Type} (handle : Handler σ) (f : Framing) (state : σ) (s : Bytes) :
    Served σ :=
  handle.serveAfter f [] state s

namespace Served

variable {σ : Type}

/-- The bytes that were written to the peer. -/
def wire (f : Framing) (served : Served σ) : Bytes :=
  served.answers.flatMap fun a => match f.frame a.encode with
    | .ok bytes => bytes
    | .error _ => []

end Served

end TopicWatch.Bridge
