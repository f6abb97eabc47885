import TopicWatch.Toml.Document
import TopicWatch.Toml.Number

/-!
# Reading TOML

A text is a list of lines: headers of tables, keys with their values, comments and empty
lines. Arrays may stretch over lines, tables between braces may not.
-/

namespace TopicWatch.Toml

/-- How many arrays and tables between braces may be open at once. -/
def greatestDepth : Nat := 79

/-- Reads the items of an array after those already read, which stand in reverse. -/
def itemsAfter (value : List Char → Option (Value × List Char)) :
    Nat → List Value → List Char → Option (List Value × List Char)
  | 0, _, _ => none
  | n + 1, read, s =>
      match skipSpace n s with
      | ']' :: rest => some (read.reverse, rest)
      | at' => do
          let (v, after) ← value at'
          match skipSpace n after with
          | ',' :: rest => itemsAfter value n (v :: read) rest
          | ']' :: rest => some ((v :: read).reverse, rest)
          | _ => none

/-- Reads a key and its value. -/
def readPair (value : List Char → Option (Value × List Char)) (s : List Char) :
    Option ((List String × Value) × List Char) := do
  let (keys, rest) ← readKey s
  let rest ← readChar '=' rest
  let (v, rest) ← value (skipBlanks rest)
  some ((keys, v), rest)

/-- Reads the keys and values of a table between braces after those already read, which
stand in reverse. -/
def pairsAfter (value : List Char → Option (Value × List Char)) :
    Nat → List (List String × Value) → List Char →
      Option (List (List String × Value) × List Char)
  | 0, _, _ => none
  | n + 1, read, s => do
      let (pair, after) ← readPair value s
      match skipBlanks after with
      | ',' :: rest => pairsAfter value n (pair :: read) rest
      | '\x7d' :: rest => some ((pair :: read).reverse, rest)
      | _ => none

/-- Reads a table after its opening brace. -/
def readInlineTable (value : List Char → Option (Value × List Char)) (steps : Nat)
    (s : List Char) : Option (Value × List Char) :=
  match skipBlanks s with
  | '\x7d' :: rest => some (.table [], rest)
  | at' => do
      let (pairs, rest) ← pairsAfter value steps [] at'
      some (← inlineTable pairs, rest)

/-- Reads a value that opens no bracket. -/
def readSimple (s : List Char) : Option (Value × List Char) :=
  match s with
  | 't' :: 'r' :: 'u' :: 'e' :: rest => some (.boolean true, rest)
  | 'f' :: 'a' :: 'l' :: 's' :: 'e' :: rest => some (.boolean false, rest)
  | '"' :: _ | '\'' :: _ => (readString s).map fun p => (.text p.1, p.2)
  | _ => readScalar s

/-- Reads a value in which at most the given number of brackets may be open at once. -/
def readValue (steps : Nat) : Nat → List Char → Option (Value × List Char)
  | depth, s =>
      match s, depth with
      | '[' :: rest, depth + 1 =>
          (itemsAfter (readValue steps depth) steps [] rest).map fun p => (.array p.1, p.2)
      | '\x7b' :: rest, depth + 1 => readInlineTable (readValue steps depth) steps rest
      | '[' :: _, 0 | '\x7b' :: _, 0 => none
      | s, _ => readSimple s

/-- Reads the header of a table after its first bracket. -/
def readHeader (d : Draft) (s : List Char) : Option (Draft × List Char) :=
  match s with
  | '[' :: rest => do
      let (keys, rest) ← readKey rest
      let rest ← readChar ']' rest
      let rest ← readChar ']' rest
      some (← d.header true keys, ← endLine rest)
  | _ => do
      let (keys, rest) ← readKey s
      let rest ← readChar ']' rest
      some (← d.header false keys, ← endLine rest)

/-- Reads one line, which is not empty. -/
def readLine (steps : Nat) (d : Draft) (s : List Char) : Option (Draft × List Char) :=
  match s with
  | '#' :: _ => (endLine s).map (d, ·)
  | '[' :: rest => readHeader d rest
  | c :: _ =>
      if c = '\n' ∨ c = '\r' then (lineEnd? s).map (d, ·)
      else do
        let ((keys, v), rest) ← readPair (readValue steps greatestDepth) s
        some (← d.assign keys v, ← endLine rest)
  | [] => some (d, [])

/-- Reads lines up to the end of a text. -/
def readText (steps : Nat) : Nat → Draft → List Char → Option Draft
  | 0, _, _ => none
  | n + 1, d, s =>
      match skipBlanks s with
      | [] => some d
      | at' => do
          let (d, rest) ← readLine steps d at'
          readText steps n d rest

/-- A text without the mark that says how its bytes are ordered. -/
def unmarked : List Char → List Char
  | '\ufeff' :: rest => rest
  | s => s

/-- The table that a text denotes. -/
def parse? (text : String) : Option Entries := do
  let s := unmarked text.toList
  let d ← readText (s.length + 1) (s.length + 1) .empty s
  some (Node.toEntries (← d.finish))

end TopicWatch.Toml
