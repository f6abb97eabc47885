import TopicWatch.Bridge.Client

/-!
# Calls, connections and the server in any order

A client makes calls one after the other, while the server reads every connection that was
ever opened, each from its front but in any order among each other. Bytes are sent in pieces
and can be on their way for any time. A call may fail at any point. Its connection is then
given up, but what was sent on it may still be handled, and answered. Every byte carries the
number of its call, which neither side sees.
-/

namespace TopicWatch.Bridge

namespace Framing.Reading

/-- Whether more bytes change nothing: there is a frame, or a length that the limit refuses. -/
def ready : Reading → Bool
  | .frame _ _ | .failed (.tooLarge _ _) => true
  | .failed .cutShort | .ended => false

/-- What is left behind a frame. -/
def left : Reading → Bytes
  | .frame _ rest => rest
  | .failed _ | .ended => []

end Framing.Reading

/-- Bytes of a call, each with the number of the call. -/
def tagged (call : Nat) (bytes : Bytes) : List (Nat × UInt8) := bytes.map fun b => (call, b)

/-- What is on its way on a connection: bytes that the server has not read, bytes that the
client has not read, and whether the server still serves it. -/
structure Wire where
  requests : List (Nat × UInt8)
  answers : List (Nat × UInt8)
  served : Bool
  deriving DecidableEq, Repr

namespace Wire

/-- A connection that was just opened. -/
def fresh : Wire := ⟨[], [], true⟩

/-- Bytes of a call are sent to the server. They are lost when it no longer serves the
connection. -/
def send (w : Wire) (call : Nat) (bytes : Bytes) : Wire :=
  if w.served then { w with requests := w.requests ++ tagged call bytes } else w

/-- The server's side ends, and of the answers only so many bytes still arrive. -/
def close (w : Wire) (arriving : Nat) : Wire := ⟨[], w.answers.take arriving, false⟩

/-- The server has read so many bytes of a call and sends the answer, or its side ends because
the limit refuses the answer. -/
def reply (w : Wire) (size call : Nat) : Except FrameError Bytes → Wire
  | .ok answer =>
      { w with
        requests := w.requests.drop size
        answers := w.answers ++ tagged call answer }
  | .error _ => w.close w.answers.length

end Wire

/-- What the client is doing: nothing, with or without a connection that it keeps; a call
that is not in a frame yet; or a call of which these bytes are left to be sent, and which
waits for its answer when none are. -/
inductive Phase where
  | idle (kept : Option Nat)
  | calling (opened : Option Nat)
  | exchanging (wire : Nat) (left : Bytes)
  deriving DecidableEq, Repr

/-- Both sides: how they frame, what the server does with a request, and the calls that the
client is to make. -/
structure Endpoints (σ : Type) where
  client : Framing
  server : Framing
  handle : Handler σ
  calls : List Request

/-- Everything at one instant: the state of the server, the connections in the order in
which they were opened, what the client is doing, the calls whose frames were handled, with
the answers, in the order in which they were handled, for each byte that the client has read
the call that read it and the call that it answers, and the outcomes of the calls that have
ended. -/
structure Traffic (σ : Type) where
  state : σ
  wires : List Wire
  phase : Phase
  handled : List (Nat × Ack)
  taken : List (Nat × Nat)
  outcomes : List (Except Error Ack)

/-- What can happen next: the client begins a call, connects, frames the request, sends so
many bytes of it or reads; the server reads from a connection; the server's side of a
connection ends while so many bytes still arrive; or the call fails. -/
inductive Move where
  | begin
  | connect
  | frame
  | write (size : Nat)
  | read
  | serve (wire : Nat)
  | close (wire arriving : Nat)
  | fail (e : Error)
  deriving DecidableEq, Repr

namespace Traffic

variable {σ : Type}

/-- Nothing has happened yet. -/
def start (state : σ) : Traffic σ := ⟨state, [], .idle none, [], [], []⟩

/-- The number of the call that is made now or next. -/
def number (t : Traffic σ) : Nat := t.outcomes.length

/-- Changes one connection. -/
def change (t : Traffic σ) (wire : Nat) (f : Wire → Wire) : Traffic σ :=
  { t with wires := t.wires.modify wire f }

/-- Ends a call on a connection, which is kept only after an answer. -/
def finish (t : Traffic σ) (wire : Nat) (result : Except Error Ack) : Traffic σ :=
  { t with
    phase := .idle (match result with
      | .ok _ => some wire
      | .error _ => none)
    outcomes := t.outcomes ++ [result] }

/-- The client reads so many of the answers on a connection. -/
def take (t : Traffic σ) (wire size : Nat) (answers : List (Nat × UInt8)) : Traffic σ :=
  { t.change wire fun w => { w with answers := answers.drop size } with
    taken := t.taken ++ (answers.take size).map fun b => (t.number, b.1) }

/-- The client reads the answer to a call, and with that the call ends. While more may come it
waits, unless something is there that it can read. -/
def readWire (p : Endpoints σ) (t : Traffic σ) (wire : Nat) (w : Wire) : Traffic σ :=
  let bytes := w.answers.map Prod.snd
  let reading := p.client.read bytes
  if w.served && !reading.ready then t
  else
    (t.take wire (w.answers.length - reading.left.length) w.answers).finish wire
      (Client.readAnswer p.client ⟨bytes, !w.served⟩)

/-- The server handles a frame, so many bytes of a call on a connection, and answers it. -/
def handle (p : Endpoints σ) (t : Traffic σ) (wire size call : Nat) (payload : Bytes) :
    Traffic σ :=
  let replied := p.handle.reply t.state payload
  { t.change wire fun w => w.reply size call (p.server.frame replied.2.encode) with
    state := replied.1
    handled := t.handled ++ [(call, replied.2)] }

/-- The server reads from a connection. It handles a frame, ends the connection when its limit
refuses the frame, and waits for what is missing. -/
def serveWire (p : Endpoints σ) (t : Traffic σ) (wire : Nat) (w : Wire) : Traffic σ :=
  match w.requests, p.server.read (w.requests.map Prod.snd) with
  | (call, _) :: _, .frame payload rest =>
      handle p t wire (w.requests.length - rest.length) call payload
  | _, .failed (.tooLarge _ _) => t.change wire fun w => w.close w.answers.length
  | _, _ => t

/-- What is so after a move. A move that cannot be made changes nothing. -/
def step (p : Endpoints σ) (t : Traffic σ) : Move → Traffic σ
  | .begin =>
      match t.phase with
      | .idle kept =>
          if t.number < p.calls.length then { t with phase := .calling kept } else t
      | _ => t
  | .connect =>
      match t.phase with
      | .calling none =>
          { t with wires := t.wires ++ [.fresh], phase := .calling (some t.wires.length) }
      | _ => t
  | .frame =>
      match t.phase, p.calls[t.number]? with
      | .calling (some wire), some request =>
          match p.client.frame request.encode with
          | .ok bytes => { t with phase := .exchanging wire bytes }
          | .error e => t.finish wire (.error (.frame e))
      | _, _ => t
  | .write size =>
      match t.phase with
      | .exchanging wire left =>
          { t.change wire fun w => w.send t.number (left.take size) with
            phase := .exchanging wire (left.drop size) }
      | _ => t
  | .read =>
      match t.phase with
      | .exchanging wire [] =>
          match t.wires[wire]? with
          | some w => readWire p t wire w
          | none => t
      | _ => t
  | .serve wire =>
      match t.wires[wire]? with
      | some w => serveWire p t wire w
      | none => t
  | .close wire arriving => t.change wire fun w => w.close arriving
  | .fail e =>
      match t.phase with
      | .idle _ => t
      | .calling _ | .exchanging _ _ => t.finish 0 (.error e)

/-- What is so after moves in a row. -/
def run (p : Endpoints σ) (state : σ) (moves : List Move) : Traffic σ :=
  moves.foldl (step p) (start state)

end Traffic

end TopicWatch.Bridge
