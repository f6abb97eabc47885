import TopicWatch.Proofs.Config.Sections

/-!
# Changes of a document

What is configured is what the settings of a document say. Keys that name no setting may come and
go, and a setting that is taken out of a document has its usual value afterwards while all others
keep theirs.
-/

namespace TopicWatch.Config

open Toml

variable {α : Type} {surplus : Surplus} {old new a b : Entries} {name key : String} {x : Setting}

/-- A location in a document: one of its keys, or a key of one of its sections. -/
inductive Location where
  | key (name : String)
  | inside (name key : String)
  deriving DecidableEq, Repr

/-- What can be set: a whole section, or one key. -/
inductive Setting where
  | bridge
  | bridgeHost
  | bridgePort
  | bridgeGreatest
  | suffixes
  | suffixesError
  | suffixesRetry
  | assertions
  | assertionsInterval
  | listens
  | http
  | httpHost
  | httpPort
  deriving DecidableEq, Repr

/-- Where a setting stands. -/
def Setting.location : Setting → Location
  | bridge => .key "bridge"
  | bridgeHost => .inside "bridge" "host"
  | bridgePort => .inside "bridge" "port"
  | bridgeGreatest => .inside "bridge" "max_frame_bytes"
  | suffixes => .key "topic_suffixes"
  | suffixesError => .inside "topic_suffixes" "error"
  | suffixesRetry => .inside "topic_suffixes" "retry"
  | assertions => .key "assertions"
  | assertionsInterval => .inside "assertions" "poll_interval_ms"
  | listens => .key "listen_published_messages"
  | http => .key "http"
  | httpHost => .inside "http" "host"
  | httpPort => .inside "http" "port"

/-- A location where a setting stands. -/
def Location.Known (l : Location) : Prop := ∃ x : Setting, x.location = l

/-! ## Keys that name no setting -/

/-- Two documents that differ at most in keys that name no setting, be it their own keys or keys
of a section that is a table. -/
def SameSettings (old new : Entries) : Prop :=
  ∀ name, (Location.key name).Known →
    Keyed.find? name new = Keyed.find? name old ∨
      name ∈ sectionNames ∧ ∃ a b, sectionOf name old = some a ∧ sectionOf name new = some b ∧
        ∀ key, (Location.inside name key).Known → Keyed.find? key b = Keyed.find? key a

/-- A section is read alike in documents with the same settings if its reader looks at its
settings only. -/
theorem SameSettings.read {value : Value → Option α} {usual : α} {place : Nat}
    (h : SameSettings old new) (hname : (Location.key name).Known)
    (hempty : value (.table []) = some usual)
    (htable : ∀ a b : Entries, (∀ key, (Location.inside name key).Known →
      Keyed.find? key b = Keyed.find? key a) → value (.table b) = value (.table a)) :
    (Settings.named new).read name place value usual =
      (Settings.named old).read name place value usual := by
  rcases h name hname with hfind | ⟨-, a, b, hold, hnew, hsame⟩
  · exact Settings.read_named_congr hfind
  · rw [Settings.read_of_sectionOf hempty hold, Settings.read_of_sectionOf hempty hnew]
    exact htable a b hsame

theorem SameSettings.bridge (h : SameSettings old new) :
    Bridge.within (.ofDocument surplus) new = Bridge.within (.ofDocument surplus) old := by
  refine h.read ⟨.bridge, rfl⟩ Bridge.read_empty ?_
  intro a b hsame
  apply Option.ext
  intro bridge
  rw [Bridge.read_table_eq_some_iff, Bridge.read_table_eq_some_iff,
    Settings.read_named_congr (hsame "host" ⟨.bridgeHost, rfl⟩),
    Settings.read_named_congr (hsame "port" ⟨.bridgePort, rfl⟩),
    Settings.read_named_congr (hsame "max_frame_bytes" ⟨.bridgeGreatest, rfl⟩)]

theorem SameSettings.suffixes (h : SameSettings old new) :
    suffixesWithin (.ofDocument surplus) new = suffixesWithin (.ofDocument surplus) old := by
  refine h.read ⟨.suffixes, rfl⟩ readSuffixes_empty ?_
  intro a b hsame
  apply Option.ext
  intro suffixes
  rw [readSuffixes_table_eq_some_iff, readSuffixes_table_eq_some_iff,
    Settings.read_named_congr (hsame "error" ⟨.suffixesError, rfl⟩),
    Settings.read_named_congr (hsame "retry" ⟨.suffixesRetry, rfl⟩)]

theorem SameSettings.assertions (h : SameSettings old new) :
    Assertions.within (.ofDocument surplus) new = Assertions.within (.ofDocument surplus) old := by
  refine h.read ⟨.assertions, rfl⟩ Assertions.read_empty ?_
  intro a b hsame
  apply Option.ext
  intro assertions
  rw [Assertions.read_table_eq_some_iff, Assertions.read_table_eq_some_iff,
    Settings.read_named_congr (hsame "poll_interval_ms" ⟨.assertionsInterval, rfl⟩)]

theorem SameSettings.listens (h : SameSettings old new) :
    listensWithin (.ofDocument surplus) new = listensWithin (.ofDocument surplus) old := by
  rcases h "listen_published_messages" ⟨.listens, rfl⟩ with hfind | ⟨hsection, -⟩
  · exact Settings.read_named_congr hfind
  · exact absurd hsection (by decide)

theorem SameSettings.http (h : SameSettings old new) : Http.within new = Http.within old := by
  refine h.read ⟨.http, rfl⟩ Http.read_empty ?_
  intro a b hsame
  apply Option.ext
  intro http
  rw [Http.read_table_eq_some_iff, Http.read_table_eq_some_iff,
    Settings.read_named_congr (hsame "host" ⟨.httpHost, rfl⟩),
    Settings.read_named_congr (hsame "port" ⟨.httpPort, rfl⟩)]

theorem SameSettings.observer (h : SameSettings old new) :
    Observer.read (.ofDocument surplus) new = Observer.read (.ofDocument surplus) old :=
  Observer.read_congr h.bridge h.suffixes h.assertions h.listens

/-! ## Settings that are taken out -/

/-- The second table is the first one without a key. -/
def Without (key : String) (a b : Entries) : Prop :=
  Keyed.find? key b = none ∧ ∀ k, k ≠ key → Keyed.find? k b = Keyed.find? k a

/-- The second document is the first one without what stands at a location. -/
def Removed : Location → Entries → Entries → Prop
  | .key name, old, new => Without name old new
  | .inside name key, old, new =>
      (∀ k, k ≠ name → Keyed.find? k new = Keyed.find? k old) ∧
        ∃ a b, sectionOf name old = some a ∧ sectionOf name new = some b ∧ Without key a b

/-- The key of a document that a location is at or below. -/
def Location.outer : Location → String
  | .key name => name
  | .inside name _ => name

namespace Without

variable {value : Value → Option α} {usual v : α} {place : Nat}

theorem read_self (h : Without key a b) :
    (Settings.named b).read key place value usual = some usual :=
  Settings.read_named_of_find?_eq_none h.1

theorem read_other (h : Without key a b) (hne : name ≠ key)
    (hread : (Settings.named a).read name place value usual = some v) :
    (Settings.named b).read name place value usual = some v :=
  (Settings.read_named_congr (h.2 name hne)).trans hread

end Without

namespace Removed

variable {value : Value → Option α} {usual v : α} {place : Nat}

theorem read_other {l : Location} (h : Removed l old new) (hne : name ≠ l.outer)
    (hread : (Settings.named old).read name place value usual = some v) :
    (Settings.named new).read name place value usual = some v := by
  cases l with
  | key name' => exact Without.read_other h hne hread
  | inside name' key => exact (Settings.read_named_congr (h.1 name hne)).trans hread

/-- Taking a key out of a section comes down to taking it out of a table. -/
theorem read_inside (h : Removed (.inside name key) old new)
    (hread : (Settings.named old).read name place value usual = some v)
    (hempty : value (.table []) = some usual) :
    ∃ a b, Without key a b ∧ value (.table a) = some v ∧
      (Settings.named new).read name place value usual = value (.table b) := by
  obtain ⟨-, a, b, hold, hnew, hwithout⟩ := h
  refine ⟨a, b, hwithout, ?_, Settings.read_of_sectionOf hempty hnew⟩
  rw [← Settings.read_of_sectionOf hempty hold, hread]

end Removed

/-- The bridge without a setting. -/
def Setting.resetBridge : Setting → Bridge → Bridge
  | bridge, _ => .usual
  | bridgeHost, b => { b with host := Bridge.usual.host }
  | bridgePort, b => { b with port := Bridge.usual.port }
  | bridgeGreatest, b => { b with framing := Bridge.usual.framing }
  | _, b => b

/-- The endings of topics without a setting. -/
def Setting.resetSuffixes : Setting → Topic.Suffixes → Topic.Suffixes
  | suffixes, _ => .standard
  | suffixesError, s => { s with error := Topic.Suffixes.standard.error }
  | suffixesRetry, s => { s with retry := Topic.Suffixes.standard.retry }
  | _, s => s

/-- The assertions without a setting. -/
def Setting.resetAssertions : Setting → Assertions → Assertions
  | assertions, _ => .usual
  | assertionsInterval, a => { a with pollMilliseconds := Assertions.usual.pollMilliseconds }
  | _, a => a

/-- Whether messages that the test sends count as sent, without a setting. -/
def Setting.resetListens : Setting → Bool → Bool
  | listens, _ => Observer.usual.listensToPublished
  | _, b => b

/-- The inspection interface without a setting. -/
def Setting.resetHttp : Setting → Http → Http
  | http, _ => .usual
  | httpHost, h => { h with host := Http.usual.host }
  | httpPort, h => { h with port := Http.usual.port }
  | _, h => h

/-- What a test configures, without a setting. -/
def Setting.resetObserver (x : Setting) (o : Observer) : Observer :=
  ⟨x.resetBridge o.bridge, x.resetSuffixes o.suffixes, x.resetAssertions o.assertions,
    x.resetListens o.listensToPublished⟩

/-- What the service configures, without a setting. -/
def Setting.resetServer (x : Setting) (s : Server) : Server :=
  ⟨x.resetObserver s.observer, x.resetHttp s.http⟩

namespace Removed

theorem bridge {c : Bridge} (h : Removed x.location old new)
    (hread : Bridge.within (.ofDocument surplus) old = some c) :
    Bridge.within (.ofDocument surplus) new = some (x.resetBridge c) := by
  have hother (hne : "bridge" ≠ x.location.outer) :
      Bridge.within (.ofDocument surplus) new = some c := h.read_other hne hread
  cases x with
  | bridge => exact Without.read_self h
  | bridgeHost =>
      obtain ⟨a, b, hwithout, hold, hnew⟩ := read_inside h hread Bridge.read_empty
      obtain ⟨hhost, hport, hgreatest⟩ := Bridge.read_table_eq_some_iff.1 hold
      exact hnew.trans (Bridge.read_table_eq_some_iff.2 ⟨hwithout.read_self,
        hwithout.read_other (by decide) hport, hwithout.read_other (by decide) hgreatest⟩)
  | bridgePort =>
      obtain ⟨a, b, hwithout, hold, hnew⟩ := read_inside h hread Bridge.read_empty
      obtain ⟨hhost, hport, hgreatest⟩ := Bridge.read_table_eq_some_iff.1 hold
      exact hnew.trans (Bridge.read_table_eq_some_iff.2 ⟨hwithout.read_other (by decide) hhost,
        hwithout.read_self, hwithout.read_other (by decide) hgreatest⟩)
  | bridgeGreatest =>
      obtain ⟨a, b, hwithout, hold, hnew⟩ := read_inside h hread Bridge.read_empty
      obtain ⟨hhost, hport, hgreatest⟩ := Bridge.read_table_eq_some_iff.1 hold
      exact hnew.trans (Bridge.read_table_eq_some_iff.2 ⟨hwithout.read_other (by decide) hhost,
        hwithout.read_other (by decide) hport, hwithout.read_self⟩)
  | _ => exact hother (by decide)

theorem suffixes {c : Topic.Suffixes} (h : Removed x.location old new)
    (hread : suffixesWithin (.ofDocument surplus) old = some c) :
    suffixesWithin (.ofDocument surplus) new = some (x.resetSuffixes c) := by
  have hother (hne : "topic_suffixes" ≠ x.location.outer) :
      suffixesWithin (.ofDocument surplus) new = some c := h.read_other hne hread
  cases x with
  | suffixes => exact Without.read_self h
  | suffixesError =>
      obtain ⟨a, b, hwithout, hold, hnew⟩ := read_inside h hread readSuffixes_empty
      obtain ⟨herror, hretry⟩ := readSuffixes_table_eq_some_iff.1 hold
      exact hnew.trans (readSuffixes_table_eq_some_iff.2
        ⟨hwithout.read_self, hwithout.read_other (by decide) hretry⟩)
  | suffixesRetry =>
      obtain ⟨a, b, hwithout, hold, hnew⟩ := read_inside h hread readSuffixes_empty
      obtain ⟨herror, hretry⟩ := readSuffixes_table_eq_some_iff.1 hold
      exact hnew.trans (readSuffixes_table_eq_some_iff.2
        ⟨hwithout.read_other (by decide) herror, hwithout.read_self⟩)
  | _ => exact hother (by decide)

theorem assertions {c : Assertions} (h : Removed x.location old new)
    (hread : Assertions.within (.ofDocument surplus) old = some c) :
    Assertions.within (.ofDocument surplus) new = some (x.resetAssertions c) := by
  have hother (hne : "assertions" ≠ x.location.outer) :
      Assertions.within (.ofDocument surplus) new = some c := h.read_other hne hread
  cases x with
  | assertions => exact Without.read_self h
  | assertionsInterval =>
      obtain ⟨a, b, hwithout, -, hnew⟩ := read_inside h hread Assertions.read_empty
      exact hnew.trans (Assertions.read_table_eq_some_iff.2 hwithout.read_self)
  | _ => exact hother (by decide)

theorem listens {c : Bool} (h : Removed x.location old new)
    (hread : listensWithin (.ofDocument surplus) old = some c) :
    listensWithin (.ofDocument surplus) new = some (x.resetListens c) := by
  have hother (hne : "listen_published_messages" ≠ x.location.outer) :
      listensWithin (.ofDocument surplus) new = some c := h.read_other hne hread
  cases x with
  | listens => exact Without.read_self h
  | _ => exact hother (by decide)

theorem http {c : Http} (h : Removed x.location old new) (hread : Http.within old = some c) :
    Http.within new = some (x.resetHttp c) := by
  have hother (hne : "http" ≠ x.location.outer) : Http.within new = some c :=
    h.read_other hne hread
  cases x with
  | http => exact Without.read_self h
  | httpHost =>
      obtain ⟨a, b, hwithout, hold, hnew⟩ := read_inside h hread Http.read_empty
      obtain ⟨hhost, hport⟩ := Http.read_table_eq_some_iff.1 hold
      exact hnew.trans (Http.read_table_eq_some_iff.2
        ⟨hwithout.read_self, hwithout.read_other (by decide) hport⟩)
  | httpPort =>
      obtain ⟨a, b, hwithout, hold, hnew⟩ := read_inside h hread Http.read_empty
      obtain ⟨hhost, hport⟩ := Http.read_table_eq_some_iff.1 hold
      exact hnew.trans (Http.read_table_eq_some_iff.2
        ⟨hwithout.read_other (by decide) hhost, hwithout.read_self⟩)
  | _ => exact hother (by decide)

/-- A document without a setting configures what is usual there, and nothing else differs. -/
theorem observer {o : Observer} (h : Removed x.location old new)
    (hread : Observer.read (.ofDocument surplus) old = some o) :
    Observer.read (.ofDocument surplus) new = some (x.resetObserver o) := by
  obtain ⟨hbridge, hsuffixes, hassertions, hlistens⟩ := Observer.read_eq_some_iff.1 hread
  exact Observer.read_eq_some_iff.2
    ⟨h.bridge hbridge, h.suffixes hsuffixes, h.assertions hassertions, h.listens hlistens⟩

end Removed

end TopicWatch.Config
