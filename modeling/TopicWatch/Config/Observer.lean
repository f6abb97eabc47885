import TopicWatch.Bridge.Frame
import TopicWatch.Config.Section
import TopicWatch.Time.Duration
import TopicWatch.Topic.Suffixes

/-!
# What a test configures

Where the bridge listens, what topics are for, how often assertions look, and whether
messages that the test sends count as sent.
-/

namespace TopicWatch.Config

variable {ν : Type}

/-- Where the bridge listens, and how long its frames may be. Port zero stands for any port
that is free. -/
structure Bridge where
  host : String
  port : UInt16
  framing : Bridge.Framing
  deriving DecidableEq, Repr

namespace Bridge

/-- The host where none is configured. -/
def usualHost : String := "127.0.0.1"

/-- The bridge where nothing is configured. -/
def usual : Bridge := ⟨usualHost, 0, .standard⟩

/-- The address of the bridge. -/
def address (b : Bridge) : String := s!"{b.host}:{b.port.toNat}"

/-- Reads the section of the bridge. -/
def read (source : Source ν) (v : ν) : Option Bridge := do
  let s ← Settings.of? source 3 v
  let host ← s.read "host" 0 source.text? usualHost
  let port ← s.read "port" 1 source.port? 0
  let greatest ← s.read "max_frame_bytes" 2 (source.naturalBelow? UInt64.size)
    Bridge.Framing.standard.greatest
  some ⟨host, port, ⟨greatest⟩⟩

/-- The bridge of a document. -/
def within (source : Source ν) (entries : List (String × ν)) : Option Bridge :=
  (Settings.named entries).read "bridge" 0 (read source) usual

end Bridge

/-- How often assertions look, in milliseconds. -/
structure Assertions where
  pollMilliseconds : Nat
  deriving DecidableEq, Repr

namespace Assertions

/-- How often assertions look where nothing is configured. -/
def usualMilliseconds : Nat := 50

/-- Assertions where nothing is configured. -/
def usual : Assertions := ⟨usualMilliseconds⟩

/-- The time between two looks. -/
def pollInterval (a : Assertions) : Nat := a.pollMilliseconds * Duration.millisecond

/-- Reads the section of the assertions. -/
def read (source : Source ν) (v : ν) : Option Assertions := do
  let s ← Settings.of? source 1 v
  let interval ← s.read "poll_interval_ms" 0 (source.naturalBelow? UInt64.size)
    usualMilliseconds
  some ⟨interval⟩

/-- The assertions of a document. -/
def within (source : Source ν) (entries : List (String × ν)) : Option Assertions :=
  (Settings.named entries).read "assertions" 2 (read source) usual

end Assertions

/-- Reads the section of the endings of topics. -/
def readSuffixes (source : Source ν) (v : ν) : Option Topic.Suffixes := do
  let s ← Settings.of? source 2 v
  let error ← s.read "error" 0 source.texts? Topic.Suffixes.standardError
  let retry ← s.read "retry" 1 source.texts? Topic.Suffixes.standardRetry
  some ⟨error, retry⟩

/-- The endings of topics of a document. -/
def suffixesWithin (source : Source ν) (entries : List (String × ν)) : Option Topic.Suffixes :=
  (Settings.named entries).read "topic_suffixes" 1 (readSuffixes source) .standard

/-- Whether messages that the test sends count as sent, by a document. -/
def listensWithin (source : Source ν) (entries : List (String × ν)) : Option Bool :=
  (Settings.named entries).read "listen_published_messages" 3 source.boolean? false

/-- What a test configures. -/
structure Observer where
  bridge : Bridge
  suffixes : Topic.Suffixes
  assertions : Assertions
  listensToPublished : Bool
  deriving DecidableEq, Repr

namespace Observer

/-- What holds where nothing is configured. -/
def usual : Observer := ⟨.usual, .standard, .usual, false⟩

/-- Reads the configuration from entries. -/
def read (source : Source ν) (entries : List (String × ν)) : Option Observer := do
  let bridge ← Bridge.within source entries
  let suffixes ← suffixesWithin source entries
  let assertions ← Assertions.within source entries
  let listens ← listensWithin source entries
  some ⟨bridge, suffixes, assertions, listens⟩

end Observer

end TopicWatch.Config
