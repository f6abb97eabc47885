import TopicWatch.Text.Unprintable

/-!
# Quoted text

A text between double quotes in which the quote, the backslash and the usual control
characters have a short escape, and every character that would not show, or would fuse
with the one before it, is written as its code point in hexadecimal.
-/

namespace TopicWatch.Quoted

/-- The hexadecimal digits of a number, in lower case. -/
def hex (n : Nat) : List Char := Nat.toDigits 16 n

/-- How one character stands between the quotes. -/
def escape (c : Char) : List Char :=
  match c with
  | '\x00' => ['\\', '0']
  | '\t' => ['\\', 't']
  | '\r' => ['\\', 'r']
  | '\n' => ['\\', 'n']
  | '\\' => ['\\', '\\']
  | '"' => ['\\', '"']
  | c =>
      if ' ' ≤ c ∧ c ≤ '~' then [c]
      else if Unprintable.isExtending c || Unprintable.isHidden c then
        ['\\', 'u', '\x7b'] ++ hex c.toNat ++ ['\x7d']
      else [c]

/-- A text with its quotes. -/
def encode (s : String) : String :=
  String.ofList (['"'] ++ s.toList.flatMap escape ++ ['"'])

/-- Pairs of texts as an ordered map: `{"a": "1", "b": "2"}` in shape. -/
def encodePairs (pairs : List (String × String)) : String :=
  "\x7b" ++ String.intercalate ", " (pairs.map fun p => encode p.1 ++ ": " ++ encode p.2)
    ++ "\x7d"

end TopicWatch.Quoted
