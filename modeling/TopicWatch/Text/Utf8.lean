/-!
# UTF-8 text

Bytes are cut into pieces: a piece is one character, or one damaged stretch. A damaged
stretch is the longest run of bytes that could still have begun a character, or a single
byte that can begin none, so overlong forms, surrogates and code points above `U+10FFFF`
are damage. Strict decoding refuses damage, lossy decoding shows each stretch as `U+FFFD`.
-/

namespace TopicWatch

/-- Bytes as a list, so that a reader's rest is again bytes. -/
abbrev Bytes := List UInt8

namespace Utf8

/-- What a front of a byte string is: a character, or damage. -/
inductive Piece where
  | char (c : Char)
  | damaged
  deriving DecidableEq, Repr

namespace Piece

/-- The character a piece is shown as. -/
def shown : Piece → Char
  | char c => c
  | damaged => '\ufffd'

/-- The character a piece is, if it is one. -/
def char? : Piece → Option Char
  | char c => some c
  | damaged => none

end Piece

/-- The UTF-8 form of a text. -/
def encode (s : String) : Bytes :=
  s.toList.flatMap String.utf8EncodeChar

/-- How a multi-byte character goes on after its first byte: how many bytes follow, the
least and greatest second byte, and the bits the first byte carries. -/
structure Lead where
  following : Nat
  least : UInt8
  greatest : UInt8
  bits : Nat
  deriving Repr

/-- The bytes that begin a multi-byte character. The second byte is narrowed where an
overlong form, a surrogate or a code point above `U+10FFFF` would arise. -/
def lead? (b : UInt8) : Option Lead :=
  if b < 0xC2 then none
  else if b < 0xE0 then some ⟨1, 0x80, 0xBF, b.toNat - 0xC0⟩
  else if b = 0xE0 then some ⟨2, 0xA0, 0xBF, 0⟩
  else if b = 0xED then some ⟨2, 0x80, 0x9F, 0xD⟩
  else if b < 0xF0 then some ⟨2, 0x80, 0xBF, b.toNat - 0xE0⟩
  else if b = 0xF0 then some ⟨3, 0x90, 0xBF, 0⟩
  else if b < 0xF4 then some ⟨3, 0x80, 0xBF, b.toNat - 0xF0⟩
  else if b = 0xF4 then some ⟨3, 0x80, 0x8F, 4⟩
  else none

/-- Reads the bytes that follow a first byte. The first one that does not fit ends the
stretch and belongs to what comes after it. -/
def follow : Nat → UInt8 → UInt8 → Nat → Bytes → Piece × Bytes
  | 0, _, _, bits, rest => (.char (Char.ofNat bits), rest)
  | _ + 1, _, _, _, [] => (.damaged, [])
  | n + 1, least, greatest, bits, b :: rest =>
      if least ≤ b ∧ b ≤ greatest then
        follow n 0x80 0xBF (bits * 64 + (b.toNat - 0x80)) rest
      else (.damaged, b :: rest)

/-- The first piece of a non-empty byte string, and the bytes after it. -/
def next (b : UInt8) (rest : Bytes) : Piece × Bytes :=
  if b < 0x80 then (.char (Char.ofNat b.toNat), rest)
  else match lead? b with
    | none => (.damaged, rest)
    | some l => follow l.following l.least l.greatest l.bits rest

theorem follow_length_le (n : Nat) (least greatest : UInt8) (bits : Nat) (rest : Bytes) :
    (follow n least greatest bits rest).2.length ≤ rest.length := by
  induction n generalizing least greatest bits rest with
  | zero => simp [follow]
  | succ n ih =>
      cases rest with
      | nil => simp [follow]
      | cons b rest =>
          simp only [follow]
          split
          · exact Nat.le_succ_of_le (ih 0x80 0xBF _ rest)
          · exact Nat.le_refl _

theorem next_length_le (b : UInt8) (rest : Bytes) : (next b rest).2.length ≤ rest.length := by
  unfold next
  split
  · exact Nat.le_refl _
  · split
    · exact Nat.le_refl _
    · exact follow_length_le _ _ _ _ _

/-- The pieces of a byte string after those already found, which stand in reverse. -/
def piecesAfter (found : List Piece) : Bytes → List Piece
  | [] => found.reverse
  | b :: rest => piecesAfter ((next b rest).1 :: found) (next b rest).2
termination_by s => s.length
decreasing_by
  have := next_length_le b rest
  simp only [List.length_cons]
  omega

/-- The pieces of a byte string, in order. -/
def pieces (s : Bytes) : List Piece := piecesAfter [] s

theorem piecesAfter_cons (found : List Piece) (b : UInt8) (rest : Bytes) :
    piecesAfter found (b :: rest) = piecesAfter ((next b rest).1 :: found) (next b rest).2 := by
  rw [piecesAfter]

theorem piecesAfter_eq (found : List Piece) (s : Bytes) :
    piecesAfter found s = found.reverse ++ pieces s := by
  induction h : s.length using Nat.strongRecOn generalizing s found with
  | ind n ih =>
      cases s with
      | nil => simp [pieces, piecesAfter]
      | cons b rest =>
          have hlt : (next b rest).2.length < n := by
            have := next_length_le b rest
            simp only [List.length_cons] at h
            omega
          rw [pieces, piecesAfter_cons, piecesAfter_cons, ih _ hlt _ _ rfl,
            ih _ hlt [(next b rest).1] _ rfl]
          simp

@[simp] theorem pieces_nil : pieces [] = [] := by simp [pieces, piecesAfter]

/-- A byte string is its first piece followed by the pieces of the rest. -/
theorem pieces_cons (b : UInt8) (rest : Bytes) :
    pieces (b :: rest) = (next b rest).1 :: pieces (next b rest).2 := by
  rw [pieces, piecesAfter_cons, piecesAfter_eq]
  rfl

/-- Text for display: every damaged stretch becomes one `U+FFFD`. -/
def lossy (s : Bytes) : String :=
  String.ofList ((pieces s).map Piece.shown)

/-- Text exactly as written, refused when any stretch is damaged. -/
def decode? (s : Bytes) : Option String :=
  let found := (pieces s).map Piece.char?
  if found.all Option.isSome then some (String.ofList (found.filterMap id)) else none

end Utf8

end TopicWatch
