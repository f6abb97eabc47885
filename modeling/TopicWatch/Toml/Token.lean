import TopicWatch.Text.Ascii
import TopicWatch.Toml.Value

/-!
# The parts of a TOML text

Blanks, line ends, comments, strings and keys. A reader takes the characters that are left
and gives what it read with the characters after it, or nothing when the text is not TOML.
-/

namespace TopicWatch.Toml

/-- Spaces and tabs. -/
def isBlank (c : Char) : Bool := c == ' ' || c == '\t'

/-- The characters from the first one that is not blank. -/
def skipBlanks (s : List Char) : List Char := s.dropWhile isBlank

/-- Whether a character may stand in a comment or a string: the control characters other
than the tab may not. -/
def isPlain (c : Char) : Bool := c == '\t' || (decide (' ' ≤ c) && c != '\x7f')

/-- The characters after a line end, if there is one. -/
def lineEnd? : List Char → Option (List Char)
  | '\n' :: rest => some rest
  | '\r' :: '\n' :: rest => some rest
  | _ => none

/-- Passes over a comment, if there is one. -/
def skipComment : List Char → List Char
  | '#' :: rest => rest.dropWhile isPlain
  | s => s

/-- Passes over what may follow on a line: blanks, a comment and the line end or the end of
the text. -/
def endLine (s : List Char) : Option (List Char) :=
  match skipComment (skipBlanks s) with
  | [] => some []
  | rest => lineEnd? rest

/-- Passes over blanks, line ends and comments between the items of an array. -/
def skipSpace : Nat → List Char → List Char
  | 0, s => s
  | n + 1, s =>
      match skipBlanks s with
      | '#' :: rest => skipSpace n (rest.dropWhile isPlain)
      | at' => match lineEnd? at' with
          | some rest => skipSpace n rest
          | none => at'

/-! ## Strings -/

/-- The value of a hexadecimal digit. -/
def hexDigit? (c : Char) : Option Nat :=
  if c.toNat < 128 then Ascii.hexDigit? (UInt8.ofNat c.toNat) else none

/-- Reads a number of hexadecimal digits, all of which have to be there. -/
def readHex : Nat → Nat → List Char → Option (Nat × List Char)
  | 0, value, s => some (value, s)
  | _ + 1, _, [] => none
  | n + 1, value, c :: rest => do readHex n (value * 16 + (← hexDigit? c)) rest

/-- The character of a code point, unless it is a surrogate or none at all. -/
def charOf? (n : Nat) : Option Char :=
  if h : n.isValidChar then some ⟨UInt32.ofNatLT n (Nat.lt_trans (by
    simp only [Nat.isValidChar] at h
    omega) (by decide : 0x110000 < UInt32.size)), by
    simpa [UInt32.isValidChar] using h⟩
  else none

/-- Reads an escape after its backslash. -/
def readEscape : List Char → Option (Char × List Char)
  | 'b' :: rest => some ('\x08', rest)
  | 't' :: rest => some ('\t', rest)
  | 'n' :: rest => some ('\n', rest)
  | 'f' :: rest => some ('\x0c', rest)
  | 'r' :: rest => some ('\r', rest)
  | '"' :: rest => some ('"', rest)
  | '\\' :: rest => some ('\\', rest)
  | 'u' :: rest => do
      let (n, after) ← readHex 4 0 rest
      some (← charOf? n, after)
  | 'U' :: rest => do
      let (n, after) ← readHex 8 0 rest
      some (← charOf? n, after)
  | _ => none

/-- Reads a string in double quotes after the opening quote. What was read stands in
reverse. -/
def basicAfter : Nat → List Char → List Char → Option (String × List Char)
  | 0, _, _ => none
  | n + 1, read, s =>
      match s with
      | [] => none
      | '"' :: rest => some (String.ofList read.reverse, rest)
      | '\\' :: rest =>
          match readEscape rest with
          | some (c, after) => basicAfter n (c :: read) after
          | none => none
      | c :: rest => if isPlain c then basicAfter n (c :: read) rest else none

/-- Reads a string in single quotes after the opening quote. -/
def literalAfter (read : List Char) : List Char → Option (String × List Char)
  | [] => none
  | '\'' :: rest => some (String.ofList read.reverse, rest)
  | c :: rest => if isPlain c then literalAfter (c :: read) rest else none

/-- How many of the quotes at the end of a string of several lines belong to it: the last
three close it, and up to two before them are content. -/
def closing? (quotes : Nat) : Option Nat :=
  if quotes < 3 then none else some (min (quotes - 3) 2)

/-- Passes over blanks and line ends. -/
def skipLines : Nat → List Char → List Char
  | 0, s => s
  | n + 1, s =>
      let at' := skipBlanks s
      match lineEnd? at' with
      | some rest => skipLines n rest
      | none => at'

/-- What follows a backslash at the end of a line: everything up to the next character that
is neither blank nor a line end falls away. -/
def joined? (n : Nat) (s : List Char) : Option (List Char) :=
  (lineEnd? (skipBlanks s)).map (skipLines n)

/-- Reads a string of several lines after the opening quotes and a line end behind them. -/
def linesAfter (quote : Char) (escapes : Bool) : Nat → List Char → List Char → Option (String × List Char)
  | 0, _, _ => none
  | n + 1, read, s =>
      match s with
      | [] => none
      | c :: rest =>
          if c = quote then
            let quotes := (s.takeWhile (· == quote)).length
            let after := s.dropWhile (· == quote)
            match closing? quotes with
            | some more =>
                some (String.ofList (List.replicate more quote ++ read).reverse,
                  List.replicate (quotes - 3 - more) quote ++ after)
            | none => linesAfter quote escapes n (List.replicate quotes quote ++ read) after
          else if escapes && c == '\\' then
            match joined? n rest with
            | some after => linesAfter quote escapes n read after
            | none => match readEscape rest with
                | some (e, after) => linesAfter quote escapes n (e :: read) after
                | none => none
          else if isPlain c then linesAfter quote escapes n (c :: read) rest
          else match lineEnd? s with
            | some after => linesAfter quote escapes n ('\n' :: read) after
            | none => none

/-- Reads a string of several lines after its opening quotes. A line end right behind them
is no part of it. -/
def readLines (quote : Char) (escapes : Bool) (s : List Char) : Option (String × List Char) :=
  let body := (lineEnd? s).getD s
  linesAfter quote escapes (body.length + 1) [] body

/-- Reads a string, given its first quote. -/
def readString : List Char → Option (String × List Char)
  | '"' :: '"' :: '"' :: rest => readLines '"' true rest
  | '\'' :: '\'' :: '\'' :: rest => readLines '\'' false rest
  | '"' :: rest => basicAfter (rest.length + 1) [] rest
  | '\'' :: rest => literalAfter [] rest
  | _ => none

/-! ## Keys -/

/-- Whether a character may stand in a key without quotes. -/
def isKeyChar (c : Char) : Bool := c.isAlphanum || c == '-' || c == '_'

/-- Reads one part of a key. -/
def readKeyPart (s : List Char) : Option (String × List Char) :=
  match s with
  | '"' :: rest => basicAfter (rest.length + 1) [] rest
  | '\'' :: rest => literalAfter [] rest
  | _ =>
      let part := s.takeWhile isKeyChar
      if part.isEmpty then none else some (String.ofList part, s.dropWhile isKeyChar)

/-- The number of parts that a key must not reach. -/
def greatestKey : Nat := 80

/-- Reads the parts of a key after those already read, which stand in reverse. -/
def keyAfter : Nat → List String → List Char → Option (List String × List Char)
  | 0, _, _ => none
  | n + 1, read, s => do
      let (part, rest) ← readKeyPart (skipBlanks s)
      match skipBlanks rest with
      | '.' :: more => keyAfter n (part :: read) more
      | after => some ((part :: read).reverse, after)

/-- Reads a key: parts with points between them, and blanks around each. -/
def readKey (s : List Char) : Option ((List String) × List Char) := keyAfter (greatestKey - 1) [] s

end TopicWatch.Toml
