import TopicWatch.Config.Observer

/-!
# What the service configures

The configuration of the observer, and where the inspection interface listens. Everything but
the section of the interface is put aside, and the configuration of the observer is read from
what was put aside.
-/

namespace TopicWatch.Config

open Toml

/-- Where the inspection interface listens. -/
structure Http where
  host : String
  port : UInt16
  deriving DecidableEq, Repr

namespace Http

/-- The host where none is configured. -/
def usualHost : String := "127.0.0.1"

/-- The port where none is configured. -/
def usualPort : UInt16 := 9210

/-- The inspection interface where nothing is configured. -/
def usual : Http := ⟨usualHost, usualPort⟩

/-- The address of the inspection interface. -/
def address (h : Http) : String := s!"{h.host}:{h.port.toNat}"

/-- Reads the section of the inspection interface. -/
def read (v : Value) : Option Http := do
  let s ← Settings.of? .document 2 v
  let host ← s.read "host" 0 Source.document.text? usualHost
  let port ← s.read "port" 1 Source.document.port? usualPort
  some ⟨host, port⟩

/-- The inspection interface of a document. -/
def within (entries : Entries) : Option Http :=
  (Settings.named entries).read "http" 0 read usual

end Http

/-- What the service configures. -/
structure Server where
  observer : Observer
  http : Http
  deriving DecidableEq, Repr

namespace Server

/-- What holds where nothing is configured. -/
def usual : Server := ⟨.usual, .usual⟩

/-- The entries that are put aside: those that do not belong to the inspection interface. -/
def putAside (entries : Entries) : List (String × Buffered) :=
  Buffered.ofEntries (entries.filter fun e => e.1 ≠ "http")

/-- Reads the configuration from the entries of a document. -/
def read (entries : Entries) : Option Server := do
  let http ← Http.within entries
  let observer ← Observer.read .buffered (putAside entries)
  some ⟨observer, http⟩

end Server

end TopicWatch.Config
