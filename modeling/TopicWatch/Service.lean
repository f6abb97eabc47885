import TopicWatch.Bridge.Client
import TopicWatch.Bridge.Port
import TopicWatch.Config.File
import TopicWatch.Inspection.Response
import TopicWatch.Sink

/-!
# The service

The service reads its configuration, listens on the bridge and then on the inspection
interface, and serves both over one store. A bridge without a configured port has the port
that the environment names.
-/

namespace TopicWatch

open Bridge

/-- A service that has started. -/
structure Service where
  config : Config.Server
  bridge : Config.Bridge
  store : Store

namespace Service

/-- Why a service did not start. -/
inductive StartError where
  | config (e : Config.Error)
  | bridge (e : Bridge.Error)
  | inspection (address cause : String)
  deriving DecidableEq, Repr

/-- A reason in words. -/
def StartError.message : StartError → String
  | config e => e.message
  | bridge e => s!"bridge: {e.message}"
  | inspection address cause => s!"api: bind {address}: {cause}"

/-- The bridge with the port that it listens on, given the value of the variable. -/
def boundBridge (environment : Option Bytes) (b : Config.Bridge) : Config.Bridge :=
  if b.port = 0 then { b with port := Port.ofVariable environment } else b

/-- Starts the service on a host. -/
def start (host : Host) (environment : Option Bytes) (path : String) (file : Config.File) :
    Except StartError Service :=
  match Config.Server.load path file with
  | .error e => .error (.config e)
  | .ok config =>
      let bridge := boundBridge environment config.observer.bridge
      if !host.owns bridge.address then .error (.bridge (.bind bridge.address host.bindFailure))
      else if !host.owns config.http.address then
        .error (.inspection config.http.address host.bindFailure)
      else .ok ⟨config, bridge, .empty⟩

/-- What the service does with a request. -/
def handle (s : Service) : Handler Store := Sink.accept s.config.observer.suffixes

/-- Answers one frame of the bridge. Gives the frame of the answer, unless it is refused. -/
def reply (s : Service) (payload : Bytes) : Service × Except FrameError Bytes :=
  let replied := s.handle.reply s.store payload
  ({ s with store := replied.1 }, s.bridge.framing.frame replied.2.encode)

/-- Answers one request of the inspection interface. -/
def inspect (s : Service) (method : Inspection.Method) (target : String) :
    Service × Inspection.Response :=
  let answered := Inspection.respond s.store method target
  ({ s with store := answered.1 }, answered.2)

end Service

end TopicWatch
