import TopicWatch.Bridge.Connection
import TopicWatch.Network

/-!
# The calling side of the bridge

A client has at most one connection, which it opens for a call and keeps for the next one.
After a call that fails in any way the connection is given up, so that no reply can be
taken for the answer to a later request. There are no retries.
-/

namespace TopicWatch.Bridge

/-- What comes back after a frame was sent: some bytes, after which the stream has ended or
stays silent. -/
structure Reply where
  bytes : Bytes
  closed : Bool
  deriving DecidableEq, Repr

/-- The other end of a client's connections: what opening one does, and what a frame on an
open one does. -/
structure Peer (σ : Type) where
  connect : σ → Except String σ
  exchange : σ → Bytes → σ × Reply

/-- The calling side: where it connects to, how it frames, and whether it is connected. -/
structure Client where
  address : String
  framing : Framing
  connected : Bool
  deriving DecidableEq, Repr

namespace Client

variable {σ : Type}

/-- A client that has not connected yet. -/
def new (address : String) : Client := ⟨address, .standard, false⟩

/-- Reads the answer to a request. What is missing from a silent stream never comes. -/
def readAnswer (f : Framing) (reply : Reply) : Except Error Ack :=
  match f.read reply.bytes with
  | .frame payload _ => match Ack.decode payload with
      | .ok a => .ok a
      | .error fault => .error (.codec fault)
  | .failed (.tooLarge length limit) => .error (.frame (.tooLarge length limit))
  | .failed .cutShort | .ended =>
      .error (if reply.closed then .frame .cutShort else .timeout)

/-- Sends a request on an open connection and reads the answer. -/
def exchange (c : Client) (peer : Peer σ) (state : σ) (request : Request) :
    Except Error Ack × σ :=
  match c.framing.frame request.encode with
  | .error e => (.error (.frame e), state)
  | .ok bytes =>
      let replied := peer.exchange state bytes
      (readAnswer c.framing replied.2, replied.1)

/-- The client after a call: it stays connected only after an answer. -/
def after (c : Client) (result : Except Error Ack) : Client :=
  { c with connected := match result with
    | .ok _ => true
    | .error _ => false }

/-- One call: connects unless a connection is open, sends the request and reads the
answer. -/
def call (c : Client) (peer : Peer σ) (state : σ) (request : Request) :
    Except Error Ack × Client × σ :=
  let opened : Except String σ := if c.connected then .ok state else peer.connect state
  match opened with
  | .error cause => (.error (.connect c.address cause), { c with connected := false }, state)
  | .ok ready =>
      let done := c.exchange peer ready request
      (done.1, c.after done.1, done.2)

/-- Asks whether the other side serves. -/
def checkHealth (c : Client) (peer : Peer σ) (state : σ) : Except Error Unit × Client × σ :=
  let done := c.call peer state .healthCheck
  let result := match done.1 with
    | .error e => .error e
    | .ok a => if a.status = .serving then .ok () else .error (.unexpectedReply a.status)
  (result, done.2)

end Client

namespace Peer

variable {σ : Type}

/-- A peer on a host that cannot be reached. -/
def unreachable (cause : String) : Peer σ := ⟨fun _ => .error cause, fun s _ => (s, ⟨[], true⟩)⟩

/-- A peer that has the replies to the frames of each connection prepared, and closes a
connection when they are used up. -/
def prepared : Peer (List Reply × List (List Reply)) where
  connect
    | (_, replies :: later) => .ok (replies, later)
    | (_, []) => .error "Connection refused (os error 111)"
  exchange
    | (reply :: more, later), _ => ((if reply.closed then [] else more, later), reply)
    | s, _ => (s, ⟨[], true⟩)

/-- The server as a peer: its state, and whether the connection is still served. -/
def server (handle : Handler σ) (f : Framing) : Peer (σ × Bool) where
  connect s := .ok (s.1, true)
  exchange s bytes :=
    if s.2 then
      let served := handle.serve f s.1 bytes
      ((served.state, served.ended.isNone), ⟨served.wire f, served.ended.isSome⟩)
    else (s, ⟨[], true⟩)

/-- The server on a host: it can be reached unless the host cannot connect. -/
def onHost (host : Host) (handle : Handler σ) (f : Framing) : Peer (σ × Bool) :=
  match host.connectFailure with
  | some cause => unreachable cause
  | none => server handle f

end Peer

end TopicWatch.Bridge
