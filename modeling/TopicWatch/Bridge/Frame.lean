import TopicWatch.Text.Utf8

/-!
# Frames

A frame is the length of its payload in four bytes, the most significant one first, and
then the payload. Both sides refuse payloads that are longer than a limit.
-/

namespace TopicWatch.Bridge

/-- Why a frame cannot be written or read. -/
inductive FrameError where
  | tooLarge (length limit : Nat)
  | cutShort
  deriving DecidableEq, Repr

/-- A frame error in words. -/
def FrameError.message : FrameError → String
  | tooLarge length limit => s!"frame too large: {length} bytes (max {limit})"
  | cutShort => "connection closed by peer"

/-- How frames are limited. Zero sets no limit beyond the width of the length. -/
structure Framing where
  greatest : Nat
  deriving DecidableEq, Repr

namespace Framing

/-- The greatest length that four bytes can hold. -/
def widest : Nat := UInt32.size - 1

/-- The framing where no limit is configured. -/
def standard : Framing := ⟨16 * 1024 * 1024⟩

/-- The limit that is in force. -/
def limit (f : Framing) : Nat := if f.greatest = 0 then widest else min f.greatest widest

/-- The four bytes of a length. -/
def header (n : Nat) : Bytes :=
  [UInt8.ofNat (n / 0x1000000), UInt8.ofNat (n / 0x10000), UInt8.ofNat (n / 0x100), UInt8.ofNat n]

/-- The length of four bytes. -/
def lengthOf (a b c d : UInt8) : Nat :=
  ((a.toNat * 0x100 + b.toNat) * 0x100 + c.toNat) * 0x100 + d.toNat

/-- Refuses a length above the limit. -/
def check (f : Framing) (length : Nat) : Except FrameError Unit :=
  if f.limit < length then .error (.tooLarge length f.limit) else .ok ()

/-- The frame of a payload. -/
def frame (f : Framing) (payload : Bytes) : Except FrameError Bytes :=
  (f.check payload.length).map fun _ => header payload.length ++ payload

/-- Appends the frame of a payload to a buffer, which stays as it is when the payload is
refused. -/
def append (f : Framing) (buffer payload : Bytes) : Except FrameError Unit × Bytes :=
  match f.frame payload with
  | .ok bytes => (.ok (), buffer ++ bytes)
  | .error e => (.error e, buffer)

/-- Appends one payload after the other. Gives the outcome of each and the buffer. -/
def appendAll (f : Framing) (buffer : Bytes) : List Bytes → List (Except FrameError Unit) × Bytes
  | [] => ([], buffer)
  | payload :: rest =>
      let one := f.append buffer payload
      let more := f.appendAll one.2 rest
      (one.1 :: more.1, more.2)

/-- What stands at the front of a stream: its end, a frame, or what is wrong. -/
inductive Reading where
  | ended
  | frame (payload rest : Bytes)
  | failed (e : FrameError)
  deriving DecidableEq, Repr

/-- Reads one frame. A stream that ends within a length counts as ended. -/
def read (f : Framing) : Bytes → Reading
  | a :: b :: c :: d :: s =>
      let length := lengthOf a b c d
      match f.check length with
      | .error e => .failed e
      | .ok () =>
          let cut := s.splitAt length
          if cut.1.length < length then .failed .cutShort else .frame cut.1 cut.2
  | _ => .ended

theorem length_of_read {f : Framing} {s payload rest : Bytes}
    (h : f.read s = .frame payload rest) : rest.length < s.length := by
  match s, h with
  | a :: b :: c :: d :: s, h =>
      simp only [read] at h
      split at h
      · exact absurd h (by simp)
      · split at h
        · exact absurd h (by simp)
        · obtain ⟨rfl, rfl⟩ := Reading.frame.inj h
          simp only [List.splitAt_eq, List.length_drop, List.length_cons]
          omega
  | [], h | [_], h | [_, _], h | [_, _, _], h => exact absurd h (by simp [read])

/-- Reads frames after those already read, which stand in reverse, up to the end of the
stream or the first error. -/
def readAfter (f : Framing) (found : List Bytes) (s : Bytes) :
    List Bytes × Option FrameError :=
  match _h : f.read s with
  | .ended => (found.reverse, none)
  | .failed e => (found.reverse, some e)
  | .frame payload rest => readAfter f (payload :: found) rest
termination_by s.length
decreasing_by exact length_of_read _h

/-- The frames of a stream, and the error that ends them, if there is one. -/
def readAll (f : Framing) (s : Bytes) : List Bytes × Option FrameError := f.readAfter [] s

end Framing

end TopicWatch.Bridge
