import TopicWatch.Record.Observation
import TopicWatch.Store.Watermark

/-!
# The store of observations

One bucket for each kind of record, at the place of the kind, in which a record stands under
its id, and the watermarks of the commits. A record that comes again under the same id takes
the place of the one before it; watermarks stay.
-/

namespace TopicWatch

open Record Keyed

namespace Store

/-- A bucket for each kind, in the order of the kinds. -/
abbrev Buckets := Vector (Map Observation) 6

namespace Buckets

/-- Buckets without records. -/
def empty : Buckets := .replicate 6 .empty

/-- Files an observation in the bucket of its kind under its id. -/
def file (buckets : Buckets) (o : Observation) : Buckets :=
  buckets.set o.kind.slot (buckets[o.kind.slot].insert o.id o)

/-- Empties every bucket. -/
def clear (buckets : Buckets) : Buckets := buckets.map fun _ => .empty

/-- Every record stands in the bucket of its kind under its own id. -/
def Placed (buckets : Buckets) : Prop :=
  ∀ (kind : Record.Kind) (id : String) (o : Observation),
    buckets[kind.slot].get? id = some o → o.kind = kind ∧ o.id = id

theorem placed_empty : empty.Placed := by
  intro kind id o h
  simp [empty] at h

theorem clear_eq_empty (buckets : Buckets) : buckets.clear = empty := by
  ext1 i hi
  simp [clear, empty]

theorem getElem_file (buckets : Buckets) (o : Observation) (kind : Record.Kind) :
    (buckets.file o)[kind.slot] =
      if kind = o.kind then buckets[kind.slot].insert o.id o else buckets[kind.slot] := by
  by_cases hkind : kind = o.kind
  · subst hkind
    simp [file]
  · have hne : (o.kind.slot : Nat) ≠ kind.slot := fun h => hkind (Kind.index_injective h.symm)
    simp [file, hkind, Vector.getElem_set_ne _ _ hne]

theorem Placed.file {buckets : Buckets} (h : buckets.Placed) (o : Observation) :
    (buckets.file o).Placed := by
  intro kind id x hx
  rw [getElem_file] at hx
  split at hx
  · next hkind =>
      rw [Map.get?_insert] at hx
      split at hx
      · next hid =>
          obtain rfl := Option.some.inj hx
          exact ⟨hkind.symm, hid.symm⟩
      · exact h kind id x hx
  · exact h kind id x hx

end Buckets

end Store

/-- Everything that was observed. -/
structure Store where
  buckets : Store.Buckets
  watermarks : Store.Watermarks
  placed : buckets.Placed
  deriving DecidableEq

namespace Store

/-- The store before anything was observed. -/
def empty : Store := ⟨.empty, [], Buckets.placed_empty⟩

instance : Inhabited Store := ⟨empty⟩

/-- The bucket of a kind. -/
def bucket (s : Store) (kind : Record.Kind) : Map Observation := s.buckets[kind.slot]

/-- The watermarks after an observation: a commit moves that of its partition. -/
def Watermarks.follow (marks : Watermarks) : Observation → Watermarks
  | .committed m => marks.advance (m.topic, m.partition) m.offset
  | _ => marks

/-- Files an observation under its kind and its id; a commit also moves its watermark. -/
def record (s : Store) (o : Observation) : Store :=
  ⟨s.buckets.file o, s.watermarks.follow o, s.placed.file o⟩

/-- Forgets everything. -/
def clear (s : Store) : Store :=
  ⟨s.buckets.clear, [], s.buckets.clear_eq_empty ▸ Buckets.placed_empty⟩

/-- What can happen to a store. -/
inductive Change where
  | record (o : Observation)
  | clear
  deriving DecidableEq

/-- The store after a change. -/
def apply (s : Store) : Change → Store
  | .record o => s.record o
  | .clear => s.clear

/-- The store after a run of changes. -/
def run (s : Store) (changes : List Change) : Store := changes.foldl apply s

/-- The observations of a kind. -/
def snapshot (s : Store) (kind : Record.Kind) : List Observation := (s.bucket kind).values

/-- The number of observations of a kind. -/
def count (s : Store) (kind : Record.Kind) : Nat := (s.bucket kind).size

/-- The observation of a kind that stands under an id. -/
def get? (s : Store) (id : String) (kind : Record.Kind) : Option Observation :=
  (s.bucket kind).get? id

/-- Whether there is no observation of any kind. -/
def isEmpty (s : Store) : Bool := s.buckets.all Map.isEmpty

/-- Whether some commit has reached beyond an offset since the store was cleared. -/
def isCommitted (s : Store) (topic : String) (partition : Partition) (offset : Offset) : Bool :=
  s.watermarks.covers topic partition offset

theorem length_snapshot (s : Store) (kind : Record.Kind) :
    (s.snapshot kind).length = s.count kind :=
  Map.length_values _

theorem bucket_empty (kind : Record.Kind) : empty.bucket kind = .empty := by
  simp [bucket, empty, Buckets.empty]

/-- Clearing leaves what a new store has. -/
theorem clear_eq_empty (s : Store) : s.clear = empty := by
  simp only [clear, empty, Buckets.clear_eq_empty]

/-- Filing gives the bucket of the observation a record and leaves the others. -/
theorem bucket_record (s : Store) (o : Observation) (kind : Record.Kind) :
    (s.record o).bucket kind =
      if kind = o.kind then (s.bucket kind).insert o.id o else s.bucket kind :=
  s.buckets.getElem_file o kind

/-- Filing changes the bucket of the observation under its id and nothing else. -/
theorem get?_record (s : Store) (o : Observation) (id : String) (kind : Record.Kind) :
    (s.record o).get? id kind =
      if kind = o.kind ∧ id = o.id then some o else s.get? id kind := by
  rw [get?, bucket_record]
  by_cases hkind : kind = o.kind
  · simp only [hkind, if_true, true_and, Map.get?_insert, get?]
  · simp only [hkind, if_false, false_and, get?]

end Store

end TopicWatch
