import TopicWatch.Store.Basic

/-!
# What a store has to tell

How many records of each kind there are, and listings with a line for each record.
-/

namespace TopicWatch.Store

open Json Record

/-- The number of records of each kind. -/
structure Summary where
  published : Nat
  consumed : Nat
  committed : Nat
  acknowledged : Nat
  retried : Nat
  failed : Nat
  deriving DecidableEq, Repr

/-- The counts of a store. -/
def summary (s : Store) : Summary :=
  ⟨s.count .published, s.count .consumed, s.count .committed, s.count .acknowledged,
    s.count .retried, s.count .failed⟩

namespace Summary

/-- The counts by the names of their kinds. -/
def entries (s : Summary) : List (String × Nat) :=
  [("published", s.published), ("consumed", s.consumed), ("committed", s.committed),
    ("acknowledged", s.acknowledged), ("retried", s.retried), ("failed", s.failed)]

/-- The counts on one line. -/
def display (s : Summary) : String :=
  String.intercalate " " (s.entries.map fun e => s!"{e.1}={e.2}")

/-- The counts in JSON. -/
def toValue (s : Summary) : Value :=
  .object (s.entries.map fun e => (e.1, .number (.integer (e.2 : Nat))))

/-- The counts as they stand in the description of something that holds a store. -/
def describe (s : Summary) : String :=
  "StoreSummary \x7b " ++ String.intercalate ", " (s.entries.map fun e => s!"{e.1}: {e.2}")
    ++ " \x7d"

end Summary

/-- A listing of the records of a kind, one to a line after a line with their number. -/
def dump (s : Store) (kind : Record.Kind) : String :=
  let records := s.snapshot kind
  if records.isEmpty then s!"{kind.name} so far: (none)"
  else
    String.intercalate "\n  "
      (s!"{kind.name} so far ({records.length}):" :: records.map Observation.display)

/-- A store on one line: its counts. -/
def describe (s : Store) : String :=
  "ObservationStore \x7b summary: " ++ s.summary.describe ++ ", .. \x7d"

end TopicWatch.Store
