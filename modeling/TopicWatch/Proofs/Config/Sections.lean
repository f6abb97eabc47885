import TopicWatch.Proofs.Config.Buffered

/-!
# Sections of a document

A section that is not there is read like an empty one, and one that is a table is read from the
values of its keys, each of which gives one part of what is configured. Only where a section is an
array does it matter what becomes of surplus items.
-/

namespace TopicWatch.Config

open Toml

variable {α : Type} {surplus : Surplus} {entries inner : Entries} {name : String}

/-- The names of the sections. -/
def sectionNames : List String := ["bridge", "topic_suffixes", "assertions", "http"]

/-- The entries of a section that is a table or is not there. -/
def sectionOf (name : String) (entries : Entries) : Option Entries :=
  match Keyed.find? name entries with
  | none => some []
  | some (.table inner) => some inner
  | some _ => none

theorem find?_of_sectionOf (h : sectionOf name entries = some inner) :
    Keyed.find? name entries = some (.table inner) ∨
      Keyed.find? name entries = none ∧ inner = [] := by
  unfold sectionOf at h
  split at h
  · exact Or.inr ⟨‹_›, (Option.some.inj h).symm⟩
  · obtain rfl := Option.some.inj h
    exact Or.inl ‹_›
  · cases h

/-- No section is an array. -/
def PlainSections (entries : Entries) : Prop :=
  ∀ name ∈ sectionNames, ∀ items, Keyed.find? name entries ≠ some (.array items)

namespace Settings

variable {key : String} {place : Nat} {usual : α}

theorem read_named_of_find?_eq_none {value : Value → Option α}
    (h : Keyed.find? key entries = none) :
    (named entries).read key place value usual = some usual :=
  read_of_given?_eq_none h

/-- A section that is a table or is not there is read from its entries, if an empty one gives what
is usual. -/
theorem read_of_sectionOf {value : Value → Option α} (hempty : value (.table []) = some usual)
    (h : sectionOf name entries = some inner) :
    (named entries).read name place value usual = value (.table inner) := by
  rcases find?_of_sectionOf h with hfind | ⟨hfind, rfl⟩
  · exact read_of_given?_eq_some hfind
  · rw [read_named_of_find?_eq_none hfind, hempty]

/-- A section that is not an array is read alike by readers that differ over arrays only. -/
theorem read_of_plain {value value' : Value → Option α} (h : PlainSections entries)
    (hname : name ∈ sectionNames)
    (hvalue : ∀ v, (∀ items, v ≠ .array items) → value' v = value v) :
    (named entries).read name place value' usual =
      (named entries).read name place value usual := by
  cases hfind : Keyed.find? name entries with
  | none => rw [read_named_of_find?_eq_none hfind, read_named_of_find?_eq_none hfind]
  | some v =>
      have hgiven : (named entries).given? name place = some v := hfind
      rw [read_of_given?_eq_some hgiven, read_of_given?_eq_some hgiven]
      apply hvalue
      rintro items rfl
      exact h name hname items hfind

theorem of?_table (count : Nat) (inner : Entries) :
    of? (.ofDocument surplus) count (.table inner) = some (named inner) := rfl

theorem of?_ofDocument {v : Value} (h : ∀ items, v ≠ .array items) (count : Nat) :
    of? (.ofDocument surplus) count v = of? .document count v := by
  cases v with
  | array items => exact absurd rfl (h items)
  | _ => rfl

end Settings

/-- Without arrays for sections it does not matter what becomes of surplus items. -/
theorem Observer.read_ofDocument (h : PlainSections entries) (surplus : Surplus) :
    Observer.read (.ofDocument surplus) entries = Observer.read .document entries := by
  apply Observer.read_congr
  · apply Settings.read_of_plain h (by decide)
    intro v hv
    rw [Bridge.read, Settings.of?_ofDocument hv]
    rfl
  · apply Settings.read_of_plain h (by decide)
    intro v hv
    rw [readSuffixes, Settings.of?_ofDocument hv]
    rfl
  · apply Settings.read_of_plain h (by decide)
    intro v hv
    rw [Assertions.read, Settings.of?_ofDocument hv]
    rfl
  · rfl

/-! ## Sections without entries

What is usual for a section is what is usual for its settings.
-/

theorem Bridge.read_empty : Bridge.read (.ofDocument surplus) (.table []) = some usual := rfl

theorem readSuffixes_empty : readSuffixes (.ofDocument surplus) (.table []) = some .standard := rfl

theorem Assertions.read_empty :
    Assertions.read (.ofDocument surplus) (.table []) = some usual := rfl

theorem Http.read_empty : Http.read (.table []) = some usual := rfl

/-! ## What is configured where -/

theorem Observer.read_eq_some_iff {o : Observer} :
    Observer.read (.ofDocument surplus) entries = some o ↔
      Bridge.within (.ofDocument surplus) entries = some o.bridge ∧
      suffixesWithin (.ofDocument surplus) entries = some o.suffixes ∧
      Assertions.within (.ofDocument surplus) entries = some o.assertions ∧
      listensWithin (.ofDocument surplus) entries = some o.listensToPublished := by
  simp only [Observer.read, Option.bind_eq_bind, Option.bind_eq_some_iff]
  constructor
  · rintro ⟨_, hbridge, _, hsuffixes, _, hassertions, _, hlistens, ⟨⟩⟩
    exact ⟨hbridge, hsuffixes, hassertions, hlistens⟩
  · rintro ⟨hbridge, hsuffixes, hassertions, hlistens⟩
    exact ⟨_, hbridge, _, hsuffixes, _, hassertions, _, hlistens, rfl⟩

/-- The bridge of a table has the host, the port and the bound of its keys. -/
theorem Bridge.read_table_eq_some_iff {bridge : Bridge} :
    Bridge.read (.ofDocument surplus) (.table inner) = some bridge ↔
      (Settings.named inner).read "host" 0 Source.document.text? usualHost = some bridge.host ∧
      (Settings.named inner).read "port" 1 Source.document.port? 0 = some bridge.port ∧
      (Settings.named inner).read "max_frame_bytes" 2
        (Source.document.naturalBelow? UInt64.size) Bridge.Framing.standard.greatest =
          some bridge.framing.greatest := by
  rw [Bridge.read, Settings.of?_table]
  simp only [Option.bind_eq_bind, Option.bind_some, Option.bind_eq_some_iff]
  constructor
  · rintro ⟨_, hhost, _, hport, _, hgreatest, ⟨⟩⟩
    exact ⟨hhost, hport, hgreatest⟩
  · rintro ⟨hhost, hport, hgreatest⟩
    exact ⟨_, hhost, _, hport, _, hgreatest, rfl⟩

theorem readSuffixes_table_eq_some_iff {suffixes : Topic.Suffixes} :
    readSuffixes (.ofDocument surplus) (.table inner) = some suffixes ↔
      (Settings.named inner).read "error" 0 Source.document.texts?
        Topic.Suffixes.standardError = some suffixes.error ∧
      (Settings.named inner).read "retry" 1 Source.document.texts?
        Topic.Suffixes.standardRetry = some suffixes.retry := by
  rw [readSuffixes, Settings.of?_table]
  simp only [Option.bind_eq_bind, Option.bind_some, Option.bind_eq_some_iff]
  constructor
  · rintro ⟨_, herror, _, hretry, ⟨⟩⟩
    exact ⟨herror, hretry⟩
  · rintro ⟨herror, hretry⟩
    exact ⟨_, herror, _, hretry, rfl⟩

theorem Assertions.read_table_eq_some_iff {assertions : Assertions} :
    Assertions.read (.ofDocument surplus) (.table inner) = some assertions ↔
      (Settings.named inner).read "poll_interval_ms" 0
        (Source.document.naturalBelow? UInt64.size) usualMilliseconds =
          some assertions.pollMilliseconds := by
  rw [Assertions.read, Settings.of?_table]
  simp only [Option.bind_eq_bind, Option.bind_some, Option.bind_eq_some_iff]
  constructor
  · rintro ⟨_, hinterval, ⟨⟩⟩
    exact hinterval
  · intro hinterval
    exact ⟨_, hinterval, rfl⟩

theorem Http.read_table_eq_some_iff {http : Http} :
    Http.read (.table inner) = some http ↔
      (Settings.named inner).read "host" 0 Source.document.text? usualHost = some http.host ∧
      (Settings.named inner).read "port" 1 Source.document.port? usualPort = some http.port := by
  have hof : Settings.of? .document 2 (.table inner) = some (.named inner) :=
    Settings.of?_table 2 inner
  rw [Http.read, hof]
  simp only [Option.bind_eq_bind, Option.bind_some, Option.bind_eq_some_iff]
  constructor
  · rintro ⟨_, hhost, _, hport, ⟨⟩⟩
    exact ⟨hhost, hport⟩
  · rintro ⟨hhost, hport⟩
    exact ⟨_, hhost, _, hport, rfl⟩

end TopicWatch.Config
