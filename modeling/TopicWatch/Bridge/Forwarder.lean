import TopicWatch.Bridge.Client

/-!
# Forwarding

Requests wait in a queue and are sent one call each, in order. A call that fails is not
made again, and the next request is sent all the same. Before the first one the forwarder
asks once whether the bridge is there; the answer changes nothing.
-/

namespace TopicWatch.Bridge.Forwarder

variable {σ : Type}

/-- Sends the requests of a queue. Gives the outcome of each call. -/
def drain (c : Client) (peer : Peer σ) (state : σ) :
    List Request → List (Except Error Ack) × Client × σ
  | [] => ([], c, state)
  | r :: queue =>
      let done := c.call peer state r
      let more := drain done.2.1 peer done.2.2 queue
      (done.1 :: more.1, more.2)

/-- What a forwarder does from its start until its queue is empty. -/
def run (c : Client) (peer : Peer σ) (state : σ) (queue : List Request) :
    List (Except Error Ack) × Client × σ :=
  let health := c.checkHealth peer state
  drain health.2.1 peer health.2.2 queue

end TopicWatch.Bridge.Forwarder
