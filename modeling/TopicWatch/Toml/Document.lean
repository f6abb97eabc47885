import TopicWatch.Toml.Value

/-!
# Building the tables of a document

A table comes about by its header, by a header further down that passes through it, or by
keys with points in them. A header may take over a table that was only passed through; in
every other case a second definition is refused.
-/

namespace TopicWatch.Toml

/-- How a table came about. -/
inductive Origin where
  | headed
  | passed
  | dotted
  deriving DecidableEq, Repr

/-- What stands under a key while a document is read. -/
inductive Node where
  | value (v : Value)
  | table (origin : Origin) (entries : List (String × Node))
  | tables (each : List (List (String × Node)))
  deriving Inhabited

/-- The entries of a table while a document is read. -/
abbrev Nodes := List (String × Node)

namespace Nodes

/-- What stands under a key. -/
def find? (key : String) : Nodes → Option Node
  | [] => none
  | (k, n) :: rest => if key = k then some n else find? key rest

/-- Puts something under a key in place of what was there. -/
def put (key : String) (node : Node) : Nodes → Nodes
  | [] => [(key, node)]
  | (k, n) :: rest => if key = k then (k, node) :: rest else (k, n) :: put key node rest

end Nodes

namespace Node

/-- The value of a table's last member, of which there is one unless the list is empty. -/
def last (each : List Nodes) : Nodes := each.getLast?.getD []

/-- Gives a key of a table a value. Keys with points lead through tables that came about by
other such keys, or by a header further down. -/
def assign : List String → String → Value → Nodes → Option Nodes
  | [], key, v, es =>
      match es.find? key with
      | some _ => none
      | none => some (es.put key (.value v))
  | k :: path, key, v, es =>
      match es.find? k with
      | none => (assign path key v []).map fun inner => es.put k (.table .dotted inner)
      | some (.table origin inner) =>
          if origin = .headed ∨ (path.isEmpty ∧ origin ≠ .dotted) then none
          else (assign path key v inner).map fun more => es.put k (.table origin more)
      | some (.tables each) =>
          if path.isEmpty then none
          else (assign path key v (last each)).map fun more =>
            es.put k (.tables (each.dropLast ++ [more]))
      | some (.value _) => none

/-- The entries that a header with the given path finds above its last key. -/
def above : List String → Nodes → Option Nodes
  | [], es => some es
  | k :: path, es =>
      match es.find? k with
      | none => some []
      | some (.table _ inner) => above path inner
      | some (.tables each) => above path (last each)
      | some (.value _) => none

/-- The entries with which the table of a header begins, if it may stand there. -/
def openTable (path : List String) (key : String) (root : Nodes) : Option Nodes :=
  (above path root).bind fun es =>
    match es.find? key with
    | none => some []
    | some (.table .passed inner) => some inner
    | some _ => none

/-- Whether the header of one of several tables may stand there. -/
def openEach (path : List String) (key : String) (root : Nodes) : Option Nodes :=
  (above path root).bind fun es =>
    match es.find? key with
    | none | some (.tables _) => some []
    | some _ => none

/-- Changes what stands under the last key of a header's path. -/
def change (key : String) (f : Option Node → Node) : List String → Nodes → Option Nodes
  | [], es => some (es.put key (f (es.find? key)))
  | k :: path, es =>
      match es.find? k with
      | none => (change key f path []).map fun inner => es.put k (.table .passed inner)
      | some (.table origin inner) =>
          (change key f path inner).map fun more => es.put k (.table origin more)
      | some (.tables each) =>
          (change key f path (last each)).map fun more =>
            es.put k (.tables (each.dropLast ++ [more]))
      | some (.value _) => none

/-- One more of several tables. -/
def oneMore (entries : Nodes) : Option Node → Node
  | some (.tables each) => .tables (each ++ [entries])
  | _ => .tables [entries]

mutual

/-- The value that a node stands for. -/
def toValue : Node → Value
  | value v => v
  | table _ entries => .table (toEntries entries)
  | tables each => .array (toTables each)

/-- The entries that nodes stand for. -/
def toEntries : List (String × Node) → Entries
  | [] => []
  | (k, n) :: rest => (k, toValue n) :: toEntries rest

/-- The tables that lists of nodes stand for. -/
def toTables : List (List (String × Node)) → List Value
  | [] => []
  | es :: rest => .table (toEntries es) :: toTables rest

end

end Node

/-- Which table the keys of a text belong to: the outermost one, or the one of a header. -/
inductive Place where
  | outermost
  | table (path : List String) (key : String)
  | each (path : List String) (key : String)
  deriving DecidableEq, Repr

/-- What was read of a document: the tables that are finished, and the one whose keys are
being read. -/
structure Draft where
  root : Nodes
  place : Place
  current : Nodes

namespace Draft

/-- A document of which nothing was read. -/
def empty : Draft := ⟨[], .outermost, []⟩

/-- Finishes the table whose keys were read. -/
def finish (d : Draft) : Option Nodes :=
  match d.place with
  | .outermost => some d.current
  | .table path key => Node.change key (fun _ => .table .headed d.current) path d.root
  | .each path key => Node.change key (Node.oneMore d.current) path d.root

/-- The path of a header above its last key, and that key. -/
def split? (keys : List String) : Option (List String × String) :=
  keys.getLast?.map fun key => (keys.dropLast, key)

/-- Begins the table of a header. -/
def header (d : Draft) (several : Bool) (keys : List String) : Option Draft := do
  let root ← d.finish
  let (path, key) ← split? keys
  if several then
    some ⟨root, .each path key, ← Node.openEach path key root⟩
  else
    some ⟨root, .table path key, ← Node.openTable path key root⟩

/-- Gives a key of the table that is being read a value. -/
def assign (d : Draft) (keys : List String) (v : Value) : Option Draft := do
  let (path, key) ← split? keys
  some { d with current := ← Node.assign path key v d.current }

end Draft

/-- The table of keys and values, in order, as they stand between braces. -/
def inlineTable (pairs : List (List String × Value)) : Option Value := do
  let d ← pairs.foldlM (fun d p => d.assign p.1 p.2) Draft.empty
  some (.table (Node.toEntries d.current))

end TopicWatch.Toml
