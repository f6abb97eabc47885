import TopicWatch.Json.Value
import TopicWatch.Number.Shortest
import TopicWatch.Text.Utf8

/-!
# Writing JSON

Compact text without blanks. In strings only the quote, the backslash and the control
characters below the space are escaped; everything else stands as its UTF-8 bytes.
-/

namespace TopicWatch.Json

/-- The hexadecimal digit of a value below 16, in lower case. -/
def hexByte (n : Nat) : UInt8 :=
  if n < 10 then UInt8.ofNat (0x30 + n) else UInt8.ofNat (0x61 + (n - 10))

/-- How one character stands in a string. -/
def escape (c : Char) : Bytes :=
  match c with
  | '"' => [0x5C, 0x22]
  | '\\' => [0x5C, 0x5C]
  | '\x08' => [0x5C, 0x62]
  | '\x0c' => [0x5C, 0x66]
  | '\n' => [0x5C, 0x6E]
  | '\r' => [0x5C, 0x72]
  | '\t' => [0x5C, 0x74]
  | c =>
      if c < ' ' then
        [0x5C, 0x75, 0x30, 0x30, hexByte (c.toNat / 16), hexByte (c.toNat % 16)]
      else String.utf8EncodeChar c

/-- A string with its quotes. -/
def writeText (s : String) : Bytes :=
  0x22 :: (s.toList.flatMap escape ++ [0x22])

/-- The decimal text of an integer. -/
def writeInteger (n : Int) : Bytes :=
  Utf8.encode (toString n)

/-- Numbers between `0.00001` and `10 ^ 16` are written without an exponent; an exponent
always has a sign. -/
def numberStyle : Shortest.Style := ⟨-5, 15, true⟩

/-- The text of a number. -/
def writeNumber : Number → Bytes
  | .integer n => writeInteger n
  | .binary x => Utf8.encode (Shortest.render numberStyle x)

namespace Value

mutual

/-- The text of a value. -/
def write : Value → Bytes
  | null => [0x6E, 0x75, 0x6C, 0x6C]
  | bool true => [0x74, 0x72, 0x75, 0x65]
  | bool false => [0x66, 0x61, 0x6C, 0x73, 0x65]
  | number n => writeNumber n
  | text s => writeText s
  | array items => 0x5B :: (writeItems items ++ [0x5D])
  | object members => 0x7B :: (writeMembers members ++ [0x7D])

/-- The items of an array with commas between them. -/
def writeItems : List Value → Bytes
  | [] => []
  | [v] => write v
  | v :: w :: rest => write v ++ 0x2C :: writeItems (w :: rest)

/-- The members of an object with commas between them. -/
def writeMembers : List (String × Value) → Bytes
  | [] => []
  | [(k, v)] => writeText k ++ 0x3A :: write v
  | (k, v) :: m :: rest => writeText k ++ 0x3A :: (write v ++ 0x2C :: writeMembers (m :: rest))

end

end Value

end TopicWatch.Json
