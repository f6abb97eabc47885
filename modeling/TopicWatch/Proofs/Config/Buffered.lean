import TopicWatch.Config.Server
import TopicWatch.Proofs.Keyed

/-!
# Values that were put aside

A reader asks a value only what it is, so a map of values that keeps what they are carries one
source to another: whatever is read from the one is read from the other. Putting values aside is
such a map. The service therefore reads its observer as from the document itself, save that it
refuses arrays with too many items.
-/

namespace TopicWatch.Config

open Toml

variable {ν μ α : Type}

/-- What a value is whose parts are mapped. -/
def Shape.map (f : ν → μ) : Shape ν → Shape μ
  | .text s => .text s
  | .integer n => .integer n
  | .float => .float
  | .boolean b => .boolean b
  | .array items => .array (items.map f)
  | .table entries => .table (entries.map (Prod.map id f))

/-- The settings of a section whose values are mapped. -/
def Settings.map (f : ν → μ) : Settings ν → Settings μ
  | named entries => named (entries.map (Prod.map id f))
  | placed items => placed (items.map f)

theorem Settings.given?_map (f : ν → μ) (s : Settings ν) (key : String) (place : Nat) :
    (s.map f).given? key place = (s.given? key place).map f := by
  cases s with
  | named entries => exact Keyed.find?_map f key entries
  | placed items => exact List.getElem?_map

/-- A setting of mapped values is read like the setting itself. -/
theorem Settings.read_map {f : ν → μ} {value : ν → Option α} {value' : μ → Option α}
    (h : ∀ v, value' (f v) = value v) (s : Settings ν) (key : String) (place : Nat) (usual : α) :
    (s.map f).read key place value' usual = s.read key place value usual := by
  cases hgiven : s.given? key place with
  | none =>
      have hgiven' : (s.map f).given? key place = none := by
        rw [given?_map, hgiven, Option.map_none]
      rw [read_of_given?_eq_none hgiven, read_of_given?_eq_none hgiven']
  | some v =>
      have hgiven' : (s.map f).given? key place = some (f v) := by
        rw [given?_map, hgiven, Option.map_some]
      rw [read_of_given?_eq_some hgiven, read_of_given?_eq_some hgiven', h]

theorem Settings.read_named_congr {key : String} {entries entries' : List (String × ν)}
    (h : Keyed.find? key entries' = Keyed.find? key entries) {place : Nat}
    {value : ν → Option α} {usual : α} :
    (named entries').read key place value usual = (named entries).read key place value usual := by
  rw [read, given?, h, read, given?]

/-- The configuration of the observer is read part by part. -/
theorem Observer.read_congr {source : Source ν} {target : Source μ}
    {entries : List (String × ν)} {entries' : List (String × μ)}
    (hbridge : Bridge.within target entries' = Bridge.within source entries)
    (hsuffixes : suffixesWithin target entries' = suffixesWithin source entries)
    (hassertions : Assertions.within target entries' = Assertions.within source entries)
    (hlistens : listensWithin target entries' = listensWithin source entries) :
    Observer.read target entries' = Observer.read source entries := by
  rw [Observer.read, hbridge, hsuffixes, hassertions, hlistens, Observer.read]

/-- A map that keeps what values are carries one source to another. -/
structure Source.Carries (f : ν → μ) (source : Source ν) (target : Source μ) : Prop where
  shape : ∀ v, target.shape (f v) = (source.shape v).map f
  surplus : target.surplus = source.surplus

namespace Source.Carries

variable {f : ν → μ} {source : Source ν} {target : Source μ}

theorem text? (h : Carries f source target) (v : ν) : target.text? (f v) = source.text? v := by
  rw [Source.text?, Source.text?, h.shape]
  cases source.shape v <;> rfl

theorem boolean? (h : Carries f source target) (v : ν) :
    target.boolean? (f v) = source.boolean? v := by
  rw [Source.boolean?, Source.boolean?, h.shape]
  cases source.shape v <;> rfl

theorem naturalBelow? (h : Carries f source target) (bound : Nat) (v : ν) :
    target.naturalBelow? bound (f v) = source.naturalBelow? bound v := by
  rw [Source.naturalBelow?, Source.naturalBelow?, h.shape]
  cases source.shape v <;> rfl

theorem port? (h : Carries f source target) (v : ν) : target.port? (f v) = source.port? v := by
  rw [Source.port?, Source.port?, h.naturalBelow?]

theorem texts? (h : Carries f source target) (v : ν) : target.texts? (f v) = source.texts? v := by
  rw [Source.texts?, Source.texts?, h.shape]
  cases source.shape v with
  | array items =>
      calc (items.map f).mapM target.text?
          = items.mapM (target.text? ∘ f) := List.mapM_map
        _ = items.mapM source.text? := congrArg items.mapM (funext h.text?)
  | _ => rfl

theorem of? (h : Carries f source target) (count : Nat) (v : ν) :
    Settings.of? target count (f v) = (Settings.of? source count v).map (Settings.map f) := by
  rw [Settings.of?, Settings.of?, h.shape, h.surplus]
  cases source.shape v with
  | array items =>
      simp only [Shape.map, List.length_map]
      split <;> rfl
  | _ => rfl

theorem bridge (h : Carries f source target) (v : ν) :
    Bridge.read target (f v) = Bridge.read source v := by
  rw [Bridge.read, Bridge.read, h.of?]
  cases Settings.of? source 3 v with
  | none => rfl
  | some s =>
      simp only [Option.map_some, Option.bind_eq_bind, Option.bind_some,
        Settings.read_map h.text?, Settings.read_map h.port?, Settings.read_map (h.naturalBelow? _)]

theorem suffixes (h : Carries f source target) (v : ν) :
    readSuffixes target (f v) = readSuffixes source v := by
  rw [readSuffixes, readSuffixes, h.of?]
  cases Settings.of? source 2 v with
  | none => rfl
  | some s =>
      simp only [Option.map_some, Option.bind_eq_bind, Option.bind_some,
        Settings.read_map h.texts?]

theorem assertions (h : Carries f source target) (v : ν) :
    Assertions.read target (f v) = Assertions.read source v := by
  rw [Assertions.read, Assertions.read, h.of?]
  cases Settings.of? source 1 v with
  | none => rfl
  | some s =>
      simp only [Option.map_some, Option.bind_eq_bind, Option.bind_some,
        Settings.read_map (h.naturalBelow? _)]

theorem observer (h : Carries f source target) (entries : List (String × ν)) :
    Observer.read target (entries.map (Prod.map id f)) = Observer.read source entries := by
  apply Observer.read_congr
  · exact Settings.read_map h.bridge (.named entries) "bridge" 0 .usual
  · exact Settings.read_map h.suffixes (.named entries) "topic_suffixes" 1 .standard
  · exact Settings.read_map h.assertions (.named entries) "assertions" 2 .usual
  · exact Settings.read_map h.boolean? (.named entries) "listen_published_messages" 3 false

end Source.Carries

/-- The values of a document, with what becomes of surplus items. -/
def Source.ofDocument (surplus : Surplus) : Source Value := ⟨documentShape, surplus⟩

namespace Buffered

theorem ofItems_eq_map (items : List Value) : ofItems items = items.map ofValue := by
  induction items with
  | nil => rfl
  | cons v items ih => rw [ofItems, ih, List.map_cons]

theorem ofEntries_eq_map (entries : Entries) :
    ofEntries entries = entries.map (Prod.map id ofValue) := by
  induction entries with
  | nil => rfl
  | cons e entries ih => rw [ofEntries, ih, List.map_cons, Prod.map, id]

/-- A value that was put aside is what it was, and so are its parts. -/
theorem carries_ofValue : Source.Carries ofValue (.ofDocument .refused) .buffered := by
  constructor
  · intro v
    cases v with
    | array items => exact congrArg Shape.array (ofItems_eq_map items)
    | table entries => exact congrArg Shape.table (ofEntries_eq_map entries)
    | _ => rfl
  · rfl

end Buffered

/-- The observer is read from what was put aside as from the document, save that surplus items
are refused. -/
theorem Observer.read_putAside (entries : Entries) :
    Observer.read .buffered (Server.putAside entries) =
      Observer.read (.ofDocument .refused) entries := by
  rw [Server.putAside, Buffered.ofEntries_eq_map, Buffered.carries_ofValue.observer]
  have hfind (key : String) (hkey : key ≠ "http") :
      Keyed.find? key (entries.filter fun e => e.1 ≠ "http") = Keyed.find? key entries :=
    Keyed.find?_filter (fun v => decide_eq_true hkey) entries
  apply Observer.read_congr
  · exact Settings.read_named_congr (hfind "bridge" (by decide))
  · exact Settings.read_named_congr (hfind "topic_suffixes" (by decide))
  · exact Settings.read_named_congr (hfind "assertions" (by decide))
  · exact Settings.read_named_congr (hfind "listen_published_messages" (by decide))

end TopicWatch.Config
