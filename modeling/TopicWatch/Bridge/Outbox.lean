import TopicWatch.Bridge.Traffic

/-!
# Forwarding while calls fail

Requests are emitted at any time and wait for the forwarder, which makes one call for each of
them, in the order in which they were emitted, and waits for the end of a call before it takes
the next one. How a call ends makes no difference. The first call is the health check.
-/

namespace TopicWatch.Bridge

/-- A forwarder at one instant: the requests that wait, the requests that it has taken up, in
order, and its traffic with the server, in which each of those is one call. -/
structure Outbox (σ : Type) where
  waiting : List Request
  attempted : List Request
  traffic : Traffic σ

namespace Outbox

/-- What can happen next: a request is emitted, the forwarder takes up the next one, or
something happens between the client and the server. -/
inductive Move where
  | emit (r : Request)
  | take
  | pass (m : Bridge.Move)
  deriving DecidableEq

variable {σ : Type}

/-- Nothing was emitted yet, and the health check comes first. -/
def start (state : σ) : Outbox σ := ⟨[.healthCheck], [], .start state⟩

variable (client server : Framing) (handle : Handler σ)

/-- The two sides, with the calls that the forwarder has taken up. -/
def ends (o : Outbox σ) : Endpoints σ := ⟨client, server, handle, o.attempted⟩

/-- What is so after a move. The forwarder takes up a request only between two calls. -/
def step (o : Outbox σ) : Move → Outbox σ
  | .emit r => { o with waiting := o.waiting ++ [r] }
  | .take =>
      match o.traffic.phase, o.waiting with
      | .idle _, r :: later =>
          let taken : Outbox σ := ⟨later, o.attempted ++ [r], o.traffic⟩
          { taken with traffic := o.traffic.step (taken.ends client server handle) .begin }
      | _, _ => o
  | .pass m => { o with traffic := o.traffic.step (o.ends client server handle) m }

/-- What is so after moves in a row. -/
def run (state : σ) (moves : List Move) : Outbox σ :=
  moves.foldl (step client server handle) (start state)

end Outbox

end TopicWatch.Bridge
