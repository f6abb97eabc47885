import TopicWatch.Json.Skip

/-!
# Reading values

Generic values, and the loops over arrays and objects that every other reader shares. An
array or an object inside another one takes one from the number of brackets that may still
be opened.
-/

namespace TopicWatch.Json

/-- How many arrays and objects may still be opened, and a bound on the items and members
that a loop may meet. -/
structure Limits where
  opens : Nat
  steps : Nat
  deriving DecidableEq, Repr

/-- The greatest number of arrays and objects that may be open at once. -/
def greatestDepth : Nat := 127

/-- The limits under which a whole text is read: every item has a byte of its own. -/
def Limits.whole (s : Bytes) : Limits := ⟨greatestDepth, s.length + 1⟩

/-- Enters an array or an object. -/
def Limits.enter (l : Limits) : Except Fault Limits :=
  match l.opens with
  | 0 => .error .malformed
  | n + 1 => .ok { l with opens := n }

/-- Reads the items of an array after those already read, which stand in reverse. -/
def itemsAfter {α : Type} (item : Bytes → Step α) :
    Nat → Bool → List α → Bytes → Step (List α)
  | 0, _, _, _ => .error .malformed
  | n + 1, first, read, s =>
      match nextItem first s with
      | .error f => .error f
      | .ok (.closed rest) => .ok (read.reverse, rest)
      | .ok (.item at') =>
          match item at' with
          | .error f => .error f
          | .ok (a, rest) => itemsAfter item n false (a :: read) rest

/-- Reads the members of an object, whose values may depend on what was read before. -/
def membersAfter {σ : Type} (member : σ → String → Bytes → Step σ) :
    Nat → Bool → σ → Bytes → Step σ
  | 0, _, _, _ => .error .malformed
  | n + 1, first, read, s =>
      match nextMember first s with
      | .error f => .error f
      | .ok (.closed rest) => .ok (read, rest)
      | .ok (.name k at') =>
          match member read k at' with
          | .error f => .error f
          | .ok (now, rest) => membersAfter member n false now rest

/-- Reads a value after the colon before it. -/
def afterColon {α : Type} (value : Bytes → Step α) (s : Bytes) : Step α :=
  match colon s with
  | .ok rest => value rest
  | .error f => .error f

/-- Reads a value that opens no bracket, given its first byte. -/
def scalar (c : UInt8) (rest : Bytes) : Step Value :=
  if c = 0x6E then (literal [0x75, 0x6C, 0x6C] rest).map (.null, ·)
  else if c = 0x74 then (literal [0x72, 0x75, 0x65] rest).map (.bool true, ·)
  else if c = 0x66 then (literal [0x61, 0x6C, 0x73, 0x65] rest).map (.bool false, ·)
  else if c = 0x22 then (readText rest).map fun p => (.text p.1, p.2)
  else if c = 0x2D then (readNumber true rest).map fun p => (.number p.1, p.2)
  else if Ascii.isDigit c then (readNumber false (c :: rest)).map fun p => (.number p.1, p.2)
  else .error .malformed

/-- Why a value of a type that is not wanted is refused, given its first byte. A value that
opens no bracket is read first, so that what is wrong inside it is met before. -/
def refuse (c : UInt8) (rest : Bytes) : Fault :=
  if (Bracket.ofOpen? c).isSome then .unsuitable
  else match scalar c rest with
    | .error f => f
    | .ok _ => .unsuitable

/-- Reads a value given how a value inside it is read, or that nothing may be opened. -/
def readWith (steps : Nat) (inner : Option (Bytes → Step Value)) (s : Bytes) : Step Value :=
  match skipBlanks s with
  | [] => .error .unfinished
  | c :: rest =>
      match Bracket.ofOpen? c, inner with
      | none, _ => scalar c rest
      | some _, none => .error .malformed
      | some .array, some value =>
          (itemsAfter value steps true [] rest).map fun p => (.array p.1, p.2)
      | some .object, some value =>
          let member (read : List (String × Value)) (k : String) (at' : Bytes) :
              Step (List (String × Value)) :=
            (afterColon value at').map fun p => ((k, p.1) :: read, p.2)
          (membersAfter member steps true [] rest).map fun p => (.object p.1.reverse, p.2)

/-- Reads a value in which at most the given number of brackets may be open at once. -/
def readValue (steps : Nat) : Nat → Bytes → Step Value
  | 0 => readWith steps none
  | n + 1 => readWith steps (some (readValue steps n))

/-- Accepts what was read when nothing but blanks follows it. -/
def complete {α : Type} : Step α → Except Fault α
  | .error f => .error f
  | .ok (a, rest) => if (skipBlanks rest).isEmpty then .ok a else .error .malformed

/-- The value that a whole text denotes. -/
def Value.parse (s : Bytes) : Except Fault Value :=
  complete (readValue (Limits.whole s).steps (Limits.whole s).opens s)

end TopicWatch.Json
