import Std.Async.DNS
import Std.Async.Signal
import Std.Async.TCP
import Std.Http.Server
import TopicWatch.CommandLine
import TopicWatch.Service

/-!
# The program

Reads the command line and the configuration, listens on both addresses and passes what
comes in to the service until the program is interrupted.
-/

namespace TopicWatch.Program

open Std Async Http

/-- What stands under a path. -/
def file (path : String) : IO Config.File := do
  try
    return .content (← IO.FS.readBinFile path).toList
  catch
    | .noFileOrDirectory .. => return .missing
    | _ => return .directory

/-- The first address of a host. -/
def resolve (host : String) (port : UInt16) : Async Net.SocketAddress := do
  let found : Array Net.IPAddr ← DNS.getAddrInfo host (toString port.toNat)
  match found.toList.head? with
  | some (.v4 a) => return .v4 ⟨a, port⟩
  | some (.v6 a) => return .v6 ⟨a, port⟩
  | none => throw (IO.userError s!"no address for {host}")

/-- Answers the frames of a connection of the bridge, given the bytes received so far. -/
partial def converse (service : IO.Ref Service) (client : TCP.Socket.Client) (received : Bytes) :
    Async Unit := do
  match (← service.get).bridge.framing.read received with
  | .frame payload rest =>
      let written ← service.modifyGet fun s => let r := s.reply payload; (r.2, r.1)
      match written with
      | .ok bytes =>
          client.send (ByteArray.mk bytes.toArray)
          converse service client rest
      | .error _ => client.shutdown
  | .failed (.tooLarge ..) => client.shutdown
  | .failed .cutShort | .ended =>
      match ← client.recv? 65536 with
      | some more => converse service client (received ++ more.toList)
      | none => client.shutdown

/-- Accepts connections of the bridge. -/
partial def accept (service : IO.Ref Service) (server : TCP.Socket.Server) : Async Unit := do
  let client ← server.accept
  background (converse service client [])
  accept service server

/-- Listens on an address. -/
def listen (host : String) (port : UInt16) : Async TCP.Socket.Server := do
  let server ← TCP.Socket.Server.mk
  server.bind (← resolve host port)
  server.listen 1024
  return server

/-- A response of the inspection interface as it is sent. -/
def send (r : Inspection.Response) : Async (Response Body.Full) := do
  let head := Response.withStatus ((Status.ofCode none (UInt16.ofNat r.status)).getD .ok)
  let named := match r.contentType with
    | some type => head.header! "content-type" type
    | none => head
  let allowing := match r.allow with
    | some methods => named.header! "allow" methods
    | none => named
  let content := match r.body with
    | .empty => []
    | .text s => Utf8.encode s
    | .json v => v.write
  return allowing.body (← Body.Full.ofByteArray (ByteArray.mk content.toArray))

/-- The inspection interface of a service. -/
structure Inspector where
  service : IO.Ref Service

instance : Server.Handler Inspector where
  ResponseBody := Body.Full
  onRequest inspector request := do
    let method := Inspection.Method.ofName (toString request.line.method)
    let response ← inspector.service.modifyGet fun s =>
      let r := s.inspect method (toString request.line.uri); (r.2, r.1)
    send response

/-- Serves until the program is interrupted. -/
def serve (config : Config.Server) (bridge : Config.Bridge) : Async UInt32 := do
  let service ← IO.mkRef (⟨config, bridge, .empty⟩ : Service)
  let refused (e : Service.StartError) : Async UInt32 := do
    IO.eprintln s!"Error: {e.message}"
    return 1
  let listening ← try Except.ok <$> listen bridge.host bridge.port
    catch e => pure (Except.error (toString e))
  match listening with
  | .error cause => refused (.bridge (.bind bridge.address cause))
  | .ok server =>
      background (accept service server)
      let inspecting ← try
          let address ← resolve config.http.host config.http.port
          Except.ok <$> Server.serve address (Inspector.mk service)
        catch e => pure (Except.error (toString e))
      match inspecting with
      | .error cause => refused (.inspection config.http.address cause)
      | .ok inspection =>
          let interrupt ← Signal.Waiter.mk .sigint false
          discard <| await (← interrupt.wait)
          inspection.shutdown
          return 0

/-- Runs the program with its arguments, of which its name is the first. -/
def run (arguments : List String) : IO UInt32 := do
  match CommandLine.parse arguments (← IO.getEnv CommandLine.variableName) with
  | .error refusal =>
      IO.eprintln "usage: observer serve [--config <path>]"
      return UInt32.ofNat refusal.exitStatus
  | .ok (.serve path) =>
      match Config.Server.load path (← file path) with
      | .error e =>
          IO.eprintln s!"Error: {(Service.StartError.config e).message}"
          return 1
      | .ok config =>
          let environment := (← IO.getEnv Bridge.Port.variableName).map Utf8.encode
          Async.block (serve config (Service.boundBridge environment config.observer.bridge))

end TopicWatch.Program

/-- The program. -/
def main (arguments : List String) : IO UInt32 := TopicWatch.Program.run ("observer" :: arguments)
