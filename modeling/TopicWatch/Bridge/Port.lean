import TopicWatch.Text.Blank
import TopicWatch.Text.Utf8

/-!
# Where the bridge listens

The process under test finds the bridge by an environment variable. Its value is a decimal
number of at most 16 bits, which may have a plus sign in front and white space around it;
anything else stands for the usual port.
-/

namespace TopicWatch.Bridge.Port

/-- The name of the variable. -/
def variableName : String := "KAFKA_OBSERVER_BRIDGE_PORT"

/-- The port where the variable names none. -/
def usual : UInt16 := 50051

/-- The digits after an optional plus sign. -/
def unsigned : List Char → List Char
  | '+' :: digits => digits
  | digits => digits

/-- A number as a port, unless it has more than 16 bits. -/
def fitting? (n : Nat) : Option UInt16 :=
  if n < UInt16.size then some (UInt16.ofNat n) else none

/-- The port that decimal digits name behind those already read. No number on the way may have
more than 16 bits. -/
def digitsAfter? (read : UInt16) : List Char → Option UInt16
  | [] => some read
  | c :: digits =>
      if c.isDigit then do
        let tenfold ← fitting? (read.toNat * 10)
        let more ← fitting? (tenfold.toNat + (c.toNat - '0'.toNat))
        digitsAfter? more digits
      else none

/-- The port that digits name, behind an optional plus sign. -/
def ofChars? (cs : List Char) : Option UInt16 :=
  match unsigned cs with
  | [] => none
  | digits => digitsAfter? 0 digits

/-- The port that a text names, white space around it aside. -/
def ofText? (s : String) : Option UInt16 := ofChars? (Blank.trim s.toList)

/-- The port that the variable names, or the usual one. -/
def ofVariable (value : Option Bytes) : UInt16 :=
  ((value.bind Utf8.decode?).bind ofText?).getD usual

/-- The value of the variable for a port. -/
def toVariable (port : UInt16) : String := toString port.toNat

/-- The address of a port on this host. -/
def address (port : UInt16) : String := s!"127.0.0.1:{port.toNat}"

end TopicWatch.Bridge.Port
