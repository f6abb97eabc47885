import TopicWatch.Bridge.Forwarder
import TopicWatch.Bridge.Port
import TopicWatch.Config.Observer
import TopicWatch.Publish.Outgoing
import TopicWatch.Sink
import TopicWatch.Wait.Assertions

/-!
# The harness of a test

A harness binds its bridge, makes sure that it answers, and then files what comes over it.
It can send messages itself. Messages that the broker confirmed count as sent if the
configuration says so.
-/

namespace TopicWatch

open Bridge Publish

/-- A harness that has started. -/
structure Harness (π : Type) where
  config : Config.Observer
  port : UInt16
  store : Store
  publisher : Publisher π
  broker : π

namespace Harness

/-- Why a harness did not start. -/
inductive StartError where
  | bind (e : Bridge.Error)
  | unhealthy (address : String) (source : Bridge.Error)
  deriving DecidableEq, Repr

/-- A reason in words. -/
def StartError.message : StartError → String
  | bind e => e.message
  | unhealthy address source =>
      s!"bridge at {address} did not answer its health check: {source.message}"

variable {π : Type}

/-- The port that the bridge listens on: a free one unless one is configured. -/
def boundPort (host : Host) (config : Config.Observer) : UInt16 :=
  if config.bridge.port = 0 then host.freePort else config.bridge.port

/-- The address that clients of the bridge connect to. -/
def address (config : Config.Observer) (port : UInt16) : String :=
  Config.Bridge.address { config.bridge with port }

/-- Starts a harness on a host. -/
def start (host : Host) (config : Config.Observer) (publisher : Publisher π) (broker : π) :
    Except StartError (Harness π) :=
  if host.owns config.bridge.address then
    let port := boundPort host config
    let probe : Client := ⟨address config port, config.bridge.framing, false⟩
    let peer := Peer.onHost host (Sink.accept config.suffixes) config.bridge.framing
    let checked := probe.checkHealth peer (.empty, false)
    match checked.1 with
    | .error source => .error (.unhealthy (address config port) source)
    | .ok () => .ok ⟨config, port, checked.2.2.1, publisher, broker⟩
  else .error (.bind (.bind config.bridge.address host.bindFailure))

/-- The name and the value of the variable that tells a process where the bridge is. -/
def environment (h : Harness π) : String × String := (Port.variableName, Port.toVariable h.port)

/-- The assertions about what was filed. -/
def assertions (h : Harness π) : Wait.Assertions := ⟨h.config.assertions.pollInterval⟩

/-- Files what a forwarder sends to the bridge. -/
def receive (h : Harness π) (requests : List Request) : Harness π :=
  let peer := Peer.server (Sink.accept h.config.suffixes) h.config.bridge.framing
  let forwarded := Forwarder.run (.new (address h.config h.port)) peer (h.store, false) requests
  { h with store := forwarded.2.2.1 }

/-- Sends a message, which is observed under the given id. -/
def publish (h : Harness π) (m : Outgoing) (id : String) : Except Publish.Error Receipt × Harness π :=
  let sent := h.publisher h.broker m
  match sent.1 with
  | .error e => (.error e, { h with broker := sent.2 })
  | .ok receipt =>
      let store :=
        if h.config.listensToPublished then
          (Sink.ofPublished h.config.suffixes (m.toPublished id)).foldl Store.record h.store
        else h.store
      (.ok receipt, { h with broker := sent.2, store })

/-- Sends messages one after the other, each under an id of its own. -/
def publishAll (h : Harness π) : List (Outgoing × String) →
    List (Except Publish.Error Receipt) × Harness π
  | [] => ([], h)
  | (m, id) :: rest =>
      let one := h.publish m id
      let more := publishAll one.2 rest
      (one.1 :: more.1, more.2)

/-- Forgets what was filed. -/
def clear (h : Harness π) : Harness π := { h with store := h.store.clear }

end Harness

end TopicWatch
