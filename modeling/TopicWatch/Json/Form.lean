import TopicWatch.Json.Reader
import TopicWatch.Json.Writer
import TopicWatch.Text.Base64

/-!
# Forms of types in JSON

A form says how the values of a type are read from text, how they are read from a value
that was buffered, and how they are written. Reading from text meets problems from left to
right; reading from a buffered value only tells whether it succeeds, because the value is
JSON already.
-/

namespace TopicWatch.Json

/-- How the values of a type are read and written. -/
structure Form (α : Type) where
  fromText : Limits → Bytes → Step α
  fromValue : Value → Option α
  toValue : α → Value

namespace Form

variable {α β : Type}

/-- Reads a whole text. -/
def decode (form : Form α) (s : Bytes) : Except Fault α :=
  complete (form.fromText (Limits.whole s) s)

/-- The text of a value. -/
def encode (form : Form α) (a : α) : Bytes := (form.toValue a).write

/-- A result that has to pass a further test after it was read. -/
def accept (f : α → Option β) : Step α → Step β
  | .error e => .error e
  | .ok (a, rest) => match f a with
      | some b => .ok (b, rest)
      | none => .error .unsuitable

/-- The form of a type whose values stand for some of the values of another one. -/
def restrict (form : Form α) (read : α → Option β) (show' : β → α) : Form β where
  fromText l s := accept read (form.fromText l s)
  fromValue v := (form.fromValue v).bind read
  toValue b := form.toValue (show' b)

/-! ## Single values -/

/-- Reads a value that opens no bracket and is of a wanted type. -/
def readScalar (want : Value → Option α) (s : Bytes) : Step α :=
  match skipBlanks s with
  | [] => .error .unfinished
  | c :: rest =>
      if (Bracket.ofOpen? c).isSome then .error .unsuitable else accept want (scalar c rest)

/-- A form whose values are written as scalars. -/
def ofScalar (want : Value → Option α) (toValue : α → Value) : Form α where
  fromText _ s := readScalar want s
  fromValue := want
  toValue := toValue

/-- Strings. -/
def text : Form String :=
  ofScalar (fun | .text s => some s | _ => none) .text

/-- The null value alone. -/
def null : Form Unit :=
  ofScalar (fun | .null => some () | _ => none) fun _ => .null

/-- Integers between two bounds. A number with a point or an exponent is none. -/
def integer (least greatest : Int) : Form Int :=
  ofScalar (fun
    | .number (.integer n) => if least ≤ n ∧ n ≤ greatest then some n else none
    | _ => none) fun n => .number (.integer n)

/-- Integers of 32 bits with a sign. -/
def int32 : Form Int32 :=
  (integer Int32.minValue.toInt Int32.maxValue.toInt).restrict (fun n => some (Int32.ofInt n)) Int32.toInt

/-- Integers of 64 bits with a sign. -/
def int64 : Form Int64 :=
  (integer Int64.minValue.toInt Int64.maxValue.toInt).restrict (fun n => some (Int64.ofInt n)) Int64.toInt

/-- Naturals of 32 bits. -/
def uint32 : Form UInt32 :=
  (integer 0 (UInt32.size - 1)).restrict (fun n => some (UInt32.ofNat n.toNat)) fun n => (n.toNat : Int)

/-- Byte strings, written as base64 text. -/
def bytes : Form Bytes := text.restrict Base64.decode? Base64.encode

/-- Any value, in its normal form. -/
def any : Form Value where
  fromText l s := (readValue l.steps l.opens s).map fun p => (p.1.normal, p.2)
  fromValue v := some v.normal
  toValue v := v

/-- A value that may be null. -/
def optional (form : Form α) : Form (Option α) where
  fromText l s :=
    match skipBlanks s with
    | 0x6E :: rest => (literal [0x75, 0x6C, 0x6C] rest).map (none, ·)
    | at' => (form.fromText l at').map fun p => (some p.1, p.2)
  fromValue
    | .null => some none
    | v => (form.fromValue v).map some
  toValue
    | none => .null
    | some a => form.toValue a

/-! ## Lists and maps -/

/-- Lists, written as arrays. -/
def list (form : Form α) : Form (List α) where
  fromText l s :=
    match skipBlanks s with
    | [] => .error .unfinished
    | c :: rest =>
        if c = 0x5B then
          l.enter.bind fun inner => itemsAfter (form.fromText inner) l.steps true [] rest
        else .error (refuse c rest)
  fromValue
    | .array items => items.mapM form.fromValue
    | _ => none
  toValue items := .array (items.map form.toValue)

/-- Ordered maps from text, written as objects; of several values for one name the last one
counts. -/
def map (form : Form α) : Form (List (String × α)) where
  fromText l s :=
    match skipBlanks s with
    | [] => .error .unfinished
    | c :: rest =>
        if c = 0x7B then
          l.enter.bind fun inner =>
            let member (entries : List (String × α)) (k : String) (at' : Bytes) :
                Step (List (String × α)) :=
              (afterColon (form.fromText inner) at').map fun p =>
                (Keyed.insert k p.1 entries, p.2)
            membersAfter member l.steps true [] rest
        else .error (refuse c rest)
  fromValue
    | .object members =>
        (members.mapM fun m => (form.fromValue m.2).map (m.1, ·)).map Keyed.ofPairs
    | _ => none
  toValue entries := .object (entries.map fun e => (e.1, form.toValue e.2))

/-! ## Names -/

/-- The value of a name in a table. -/
def lookUp (table : List (String × α)) (name : String) : Option α :=
  Keyed.find? name table

/-- Reads a name that stands as the only member of an object, with the value null. -/
def readNamedNull (table : List (String × α)) (s : Bytes) : Step α :=
  match accept (lookUp table) (text.fromText ⟨0, 0⟩ s) with
  | .error f => .error f
  | .ok (a, rest) =>
      match afterColon (null.fromText ⟨0, 0⟩) rest with
      | .error f => .error f
      | .ok ((), after) =>
          match skipBlanks after with
          | [] => .error .unfinished
          | c :: done => if c = 0x7D then .ok (a, done) else .error .malformed

/-- Types with finitely many values that each have a name. A name stands as a string, or as
the only member of an object with the value null. -/
def named (table : List (String × α)) (name : α → String) : Form α where
  fromText l s :=
    match skipBlanks s with
    | [] => .error .unfinished
    | c :: rest =>
        if c = 0x22 then accept (lookUp table) (readText rest)
        else if c = 0x7B then l.enter.bind fun _ => readNamedNull table rest
        else .error .malformed
  fromValue
    | .text s => lookUp table s
    | .object [(s, .null)] => lookUp table s
    | _ => none
  toValue a := .text (name a)

end Form

end TopicWatch.Json
