import TopicWatch.Config.File
import TopicWatch.Proofs.Config.Changes
import TopicWatch.Proofs.Text.Utf8

/-!
# Loading a configuration

However a configuration is loaded, it is what the table of the text says: from the text itself,
from a file, or as the part of the service's configuration that belongs to the observer.
-/

namespace TopicWatch.Config

open Toml

variable {α : Type} {path text : String} {entries old new : Entries}

/-! ## The service -/

theorem Server.read_eq_some_iff {s : Server} :
    Server.read entries = some s ↔ Http.within entries = some s.http ∧
      Observer.read (.ofDocument .refused) entries = some s.observer := by
  rw [Server.read, Observer.read_putAside]
  simp only [Option.bind_eq_bind, Option.bind_eq_some_iff]
  constructor
  · rintro ⟨_, hhttp, _, hobserver, ⟨⟩⟩
    exact ⟨hhttp, hobserver⟩
  · rintro ⟨hhttp, hobserver⟩
    exact ⟨_, hhttp, _, hobserver, rfl⟩

theorem SameSettings.server (h : SameSettings old new) : Server.read new = Server.read old := by
  apply Option.ext
  intro s
  rw [Server.read_eq_some_iff, Server.read_eq_some_iff, h.http, h.observer]

theorem Removed.server {x : Setting} {s : Server} (h : Removed x.location old new)
    (hread : Server.read old = some s) : Server.read new = some (x.resetServer s) := by
  obtain ⟨hhttp, hobserver⟩ := Server.read_eq_some_iff.1 hread
  exact Server.read_eq_some_iff.2 ⟨h.http hhttp, h.observer hobserver⟩

/-- Where no section is an array and the inspection interface is configured well, if at all, the
service configures the observer as the document does. -/
theorem Server.map_observer_read (hplain : PlainSections entries)
    (hhttp : ∀ v, Keyed.find? "http" entries = some v → (Http.read v).isSome) :
    (Server.read entries).map Server.observer = Observer.read .document entries := by
  have hwithin : (Http.within entries).isSome := by
    cases hfind : Keyed.find? "http" entries with
    | none => rw [Http.within, Settings.read_named_of_find?_eq_none hfind, Option.isSome_some]
    | some v =>
        have hgiven : (Settings.named entries).given? "http" 0 = some v := hfind
        rw [Http.within, Settings.read_of_given?_eq_some hgiven]
        exact hhttp v hfind
  obtain ⟨http, hwithin⟩ := Option.isSome_iff_exists.1 hwithin
  rw [← Observer.read_ofDocument hplain .refused]
  apply Option.ext
  intro o
  rw [Option.map_eq_some_iff]
  constructor
  · rintro ⟨s, hread, rfl⟩
    exact (Server.read_eq_some_iff.1 hread).2
  · intro hread
    exact ⟨⟨o, http⟩, Server.read_eq_some_iff.2 ⟨hwithin, hread⟩, rfl⟩

-- an array with too many items is accepted from a document, but not once it was put aside
example :
    let entries : Entries := [("bridge", .array [.text "::1", .integer 1, .integer 2, .integer 3])]
    (Observer.read .document entries).isSome ∧ Server.read entries = none := by
  decide +kernel

/-! ## Texts and files -/

theorem toOption_ofText (read : Entries → Option α) (text : String) :
    (ofText read text).toOption = (parse? text).bind read := by
  rw [ofText]
  cases parse? text with
  | none => rfl
  | some entries =>
      dsimp only
      rw [Option.bind_some]
      cases read entries <;> rfl

theorem toOption_ofFile (read : Entries → Option α) (path text : String) :
    (ofFile read path (.content (Utf8.encode text))).toOption = (parse? text).bind read := by
  rw [← toOption_ofText, ofFile, File.text, Utf8.decode?_encode]
  dsimp only
  cases ofText read text <;> rfl

/-- What the ways to load a configuration make of a text: the observer from the text itself and
from a file with it that must or need not be there, and the service from such a file. -/
structure Loaded where
  inline : Option Observer
  file : Option Observer
  fileOrUsual : Option Observer
  service : Option Server
  deriving DecidableEq, Repr

/-- What the ways to load a configuration make of a text. -/
def Loaded.ofText (path text : String) : Loaded :=
  let file := File.content (Utf8.encode text)
  ⟨(Observer.ofText text).toOption, (Observer.load path file).toOption,
    (Observer.loadOrUsual path file).toOption, (Server.load path file).toOption⟩

theorem Loaded.ofText_eq (path : String) (h : parse? text = some entries) :
    Loaded.ofText path text =
      ⟨Observer.read .document entries, Observer.read .document entries,
        Observer.read .document entries, Server.read entries⟩ := by
  have hinline : (Observer.ofText text).toOption = Observer.read .document entries := by
    have hread := toOption_ofText (Observer.read .document) text
    rw [h, Option.bind_some] at hread
    rw [← hread, Observer.ofText]
    cases Config.ofText (Observer.read .document) text <;> rfl
  have hfile {α : Type} (read : Entries → Option α) :
      (ofFile read path (.content (Utf8.encode text))).toOption = read entries := by
    rw [toOption_ofFile, h, Option.bind_some]
  have hobserver := hfile (Observer.read .document)
  have hservice := hfile Server.read
  simp only [Loaded.ofText, Observer.load, Observer.loadOrUsual, Server.load, ofFileOr, hinline,
    hobserver, hservice]

/-- All ways to load a configuration agree, and settings do not depend on one another. The three
ways to load the observer make the same of a document; so does the service, where no section is an
array and the section of the inspection interface is absent or suitable. Keys that name no setting
change nothing, whichever come or go. A document without one of its settings is accepted if the
document was, and configures what is usual for that setting and nothing else differently. A file
that is missing is as good as an empty one. -/
theorem loaders_agree (path text : String) (entries : Entries) (h : parse? text = some entries) :
    ((Loaded.ofText path text).file = (Loaded.ofText path text).inline ∧
      (Loaded.ofText path text).fileOrUsual = (Loaded.ofText path text).inline) ∧
    (PlainSections entries →
      (∀ v, Keyed.find? "http" entries = some v → (Http.read v).isSome) →
        (Loaded.ofText path text).service.map Server.observer =
          (Loaded.ofText path text).inline) ∧
    (∀ text' entries', parse? text' = some entries' → SameSettings entries entries' →
      Loaded.ofText path text' = Loaded.ofText path text) ∧
    (∀ (x : Setting) text' entries', parse? text' = some entries' →
      Removed x.location entries entries' →
        (∀ o, (Loaded.ofText path text).inline = some o →
          (Loaded.ofText path text').inline = some (x.resetObserver o) ∧
          (Loaded.ofText path text').file = some (x.resetObserver o) ∧
          (Loaded.ofText path text').fileOrUsual = some (x.resetObserver o)) ∧
        ∀ s, (Loaded.ofText path text).service = some s →
          (Loaded.ofText path text').service = some (x.resetServer s)) ∧
    (Loaded.ofText path "" = ⟨some .usual, some .usual, some .usual, some .usual⟩ ∧
      Observer.loadOrUsual path .missing = .ok .usual ∧
      Server.load path .missing = .ok .usual) := by
  rw [Loaded.ofText_eq path h]
  refine ⟨⟨rfl, rfl⟩, Server.map_observer_read, ?_, ?_, ?_, rfl, rfl⟩
  · intro text' entries' h' hsame
    have hobserver : Observer.read .document entries' = Observer.read .document entries :=
      hsame.observer
    rw [Loaded.ofText_eq path h', hobserver, hsame.server]
  · intro x text' entries' h' hremoved
    rw [Loaded.ofText_eq path h']
    constructor
    · intro o hread
      have hobserver : Observer.read .document entries' = some (x.resetObserver o) :=
        hremoved.observer hread
      exact ⟨hobserver, hobserver, hobserver⟩
    · intro s hread
      exact hremoved.server hread
  · have hempty : parse? "" = some [] := by decide +kernel
    rw [Loaded.ofText_eq path hempty]
    rfl

/-- With keys that name no setting, ports are what they were; without its port the bridge listens at
any that is free. -/
theorem loaders_agree_ports :
    let text := "[bridge]\nport = 7\n[http]\nport = 8\n"
    let more := "color = 9\n[bridge]\nshape = 9\nport = 7\n[http]\nport = 8\n"
    let less := "[bridge]\n[http]\nport = 8\n"
    let server : Server := ⟨{ Observer.usual with bridge := ⟨Bridge.usualHost, 7, .standard⟩ },
      ⟨Http.usualHost, 8⟩⟩
    (Loaded.ofText "observer.toml" text).service = some server ∧
      (Loaded.ofText "observer.toml" text).inline = some server.observer ∧
      Loaded.ofText "observer.toml" more = Loaded.ofText "observer.toml" text ∧
      (Loaded.ofText "observer.toml" less).service = some ⟨.usual, ⟨Http.usualHost, 8⟩⟩ := by
  intro text more less server
  have htext : parse? text =
      some [("bridge", .table [("port", .integer 7)]),
        ("http", .table [("port", .integer 8)])] := by
    decide +kernel
  have hmore : parse? more =
      some [("color", .integer 9), ("bridge", .table [("shape", .integer 9), ("port", .integer 7)]),
        ("http", .table [("port", .integer 8)])] := by
    decide +kernel
  have hless : parse? less =
      some [("bridge", .table []), ("http", .table [("port", .integer 8)])] := by
    decide +kernel
  obtain ⟨-, hagree, hsame, hremoved, -⟩ := loaders_agree "observer.toml" text _ htext
  have hservice : (Loaded.ofText "observer.toml" text).service = some server := by decide +kernel
  refine ⟨hservice, ?_, ?_, ?_⟩
  · rw [← hagree, hservice, Option.map_some]
    · intro name hname items
      simp only [sectionNames, List.mem_cons, List.not_mem_nil, or_false] at hname
      rcases hname with rfl | rfl | rfl | rfl <;> simp [Keyed.find?]
    · intro v hv
      obtain rfl := Option.some.inj hv
      decide +kernel
  · have hcolor : ¬(Location.key "color").Known := by
      rintro ⟨x, hx⟩
      cases x <;> simp [Setting.location] at hx
    have hshape : ¬(Location.inside "bridge" "shape").Known := by
      rintro ⟨x, hx⟩
      cases x <;> simp [Setting.location] at hx
    apply hsame more _ hmore
    intro name hname
    have hne : name ≠ "color" := fun heq => hcolor (heq ▸ hname)
    by_cases hbridge : name = "bridge"
    · subst hbridge
      refine Or.inr ⟨by decide, _, _, rfl, rfl, ?_⟩
      intro key hkey
      have hne : key ≠ "shape" := fun heq => hshape (heq ▸ hkey)
      simp [Keyed.find?, hne]
    · exact Or.inl (by simp [Keyed.find?, hne, hbridge])
  · apply (hremoved .bridgePort less _ hless _).2 server hservice
    refine ⟨?_, _, _, rfl, rfl, rfl, ?_⟩
    · intro k hk
      simp [Keyed.find?, hk]
    · intro k hk
      simp [Keyed.find?, hk]

end TopicWatch.Config
