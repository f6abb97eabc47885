import TopicWatch.Json.Token

/-!
# Passing over a value

A value whose content nobody asked for is passed over without being built. Its brackets
are kept on a stack, so it may nest to any depth. Strings and numbers are looked at no
closer than is needed to find their ends.
-/

namespace TopicWatch.Json

/-- What is open around a value. -/
inductive Bracket where
  | array
  | object
  deriving DecidableEq, Repr

/-- The byte that closes a bracket. -/
def Bracket.close : Bracket → UInt8
  | array => 0x5D
  | object => 0x7D

/-- The bracket that a byte opens. -/
def Bracket.ofOpen? (c : UInt8) : Option Bracket :=
  if c = 0x5B then some array else if c = 0x7B then some object else none

/-- Passes over a value that opens no bracket, given its first byte. -/
def skipScalar (c : UInt8) (rest : Bytes) : Except Fault Bytes :=
  if c = 0x6E then literal [0x75, 0x6C, 0x6C] rest
  else if c = 0x74 then literal [0x72, 0x75, 0x65] rest
  else if c = 0x66 then literal [0x61, 0x6C, 0x73, 0x65] rest
  else if c = 0x22 then skipText rest
  else if c = 0x2D then skipNumber rest
  else if Ascii.isDigit c then skipNumber (c :: rest)
  else .error .malformed

/-- Passes over what stands between a bracket or a comma and a value: nothing in an array,
a name and a colon in an object. -/
def skipName (b : Bracket) (s : Bytes) : Except Fault Bytes :=
  match b, skipBlanks s with
  | .array, _ => .ok s
  | .object, [] => .error .unfinished
  | .object, c :: rest =>
      if c = 0x22 then
        match skipText rest with
        | .ok after => colon after
        | .error f => .error f
      else .error .malformed

/-- Passes over what follows a value: brackets that close, up to a comma after which a
further value stands. Gives the brackets that are still open, none at the end. -/
def unwind : List Bracket → Bytes → Except Fault (List Bracket × Bytes)
  | [], s => .ok ([], s)
  | b :: stack, s =>
      match skipBlanks s with
      | [] => .error .unfinished
      | c :: rest =>
          if c = b.close then unwind stack rest
          else if c = 0x2C then
            match skipName b rest with
            | .ok after => .ok (b :: stack, after)
            | .error f => .error f
          else .error .malformed

/-- Goes on after a value. -/
def skipOn (more : List Bracket → Bytes → Except Fault Bytes) (stack : List Bracket)
    (s : Bytes) : Except Fault Bytes :=
  match unwind stack s with
  | .ok ([], rest) => .ok rest
  | .ok (b :: open', rest) => more (b :: open') rest
  | .error f => .error f

/-- Passes over a value and whatever closes around it. The number bounds the values met. -/
def skipFrom : Nat → List Bracket → Bytes → Except Fault Bytes
  | 0, _, _ => .error .malformed
  | n + 1, stack, s =>
      match skipBlanks s with
      | [] => .error .unfinished
      | c :: rest =>
          match Bracket.ofOpen? c with
          | none =>
              match skipScalar c rest with
              | .ok after => skipOn (skipFrom n) stack after
              | .error f => .error f
          | some b =>
              match skipBlanks rest with
              | [] => .error .unfinished
              | d :: more =>
                  if d = b.close then skipOn (skipFrom n) stack more
                  else match skipName b (d :: more) with
                    | .ok after => skipFrom n (b :: stack) after
                    | .error f => .error f

/-- Passes over one value. Each value met has a byte of its own, so more steps than there
are bytes are never needed. -/
def skipValue (steps : Nat) (s : Bytes) : Except Fault Bytes := skipFrom steps [] s

end TopicWatch.Json
