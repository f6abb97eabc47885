import TopicWatch.Bridge.Frame

/-!
# Frames from a stream in chunks

A stream arrives in chunks that know nothing of frames. A read takes the bytes that it wants
from chunk after chunk and leaves what is over of the last one to the next read.
-/

namespace TopicWatch.Bridge.Framing

/-- Takes so many bytes from the front of a stream, unless it ends before them. -/
def takeExactly : Nat → List Bytes → Option (Bytes × List Bytes)
  | 0, chunks => some ([], chunks)
  | _ + 1, [] => none
  | n + 1, chunk :: chunks =>
      if n < chunk.length then some (chunk.take (n + 1), chunk.drop (n + 1) :: chunks)
      else (takeExactly (n + 1 - chunk.length) chunks).map fun p => (chunk ++ p.1, p.2)

theorem append_of_takeExactly {n : Nat} {chunks : List Bytes} {p : Bytes × List Bytes}
    (h : takeExactly n chunks = some p) :
    p.1.length = n ∧ p.1 ++ p.2.flatten = chunks.flatten := by
  induction chunks generalizing n p with
  | nil =>
      cases n with
      | zero =>
          obtain rfl := Option.some.inj h
          exact ⟨rfl, rfl⟩
      | succ n => exact absurd h (by simp [takeExactly])
  | cons chunk chunks ih =>
      cases n with
      | zero =>
          obtain rfl := Option.some.inj h
          exact ⟨rfl, rfl⟩
      | succ n =>
          rw [takeExactly] at h
          split at h
          · next hlt =>
              obtain rfl := Option.some.inj h
              refine ⟨by rw [List.length_take]; omega, ?_⟩
              rw [List.flatten_cons, List.flatten_cons, ← List.append_assoc, List.take_append_drop]
          · next hge =>
              obtain ⟨q, hq, rfl⟩ := Option.map_eq_some_iff.1 h
              obtain ⟨hlength, happend⟩ := ih hq
              refine ⟨by rw [List.length_append]; omega, ?_⟩
              rw [List.append_assoc, happend, List.flatten_cons]

/-- Reads one frame. There is none where the stream has ended, or ends within a length. -/
def readNext (f : Framing) (chunks : List Bytes) :
    Except FrameError (Option (Bytes × List Bytes)) :=
  match takeExactly 4 chunks with
  | some ([a, b, c, d], more) =>
      let length := lengthOf a b c d
      match f.check length with
      | .error e => .error e
      | .ok () => match takeExactly length more with
          | some taken => .ok (some taken)
          | none => .error .cutShort
  | _ => .ok none

theorem length_of_readNext {f : Framing} {chunks more : List Bytes} {payload : Bytes}
    (h : f.readNext chunks = .ok (some (payload, more))) :
    more.flatten.length < chunks.flatten.length := by
  simp only [readNext] at h
  split at h
  · next a b c d rest hheader =>
      split at h
      · exact absurd h (by simp)
      · split at h
        · next taken htaken =>
            obtain rfl := Option.some.inj (Except.ok.inj h)
            rw [← (append_of_takeExactly hheader).2, ← (append_of_takeExactly htaken).2]
            simp only [List.length_append, List.length_cons]
            omega
        · exact absurd h (by simp)
  · exact absurd h (by simp)

/-- Reads frames after those already read, which stand in reverse, up to the end of the
stream or the first error. -/
def readChunksAfter (f : Framing) (found : List Bytes) (chunks : List Bytes) :
    List Bytes × Option FrameError :=
  match _h : f.readNext chunks with
  | .ok none => (found.reverse, none)
  | .error e => (found.reverse, some e)
  | .ok (some (payload, more)) => readChunksAfter f (payload :: found) more
termination_by chunks.flatten.length
decreasing_by exact length_of_readNext _h

/-- The frames of a stream in chunks, and the error that ends them, if there is one. -/
def readChunks (f : Framing) (chunks : List Bytes) : List Bytes × Option FrameError :=
  f.readChunksAfter [] chunks

end TopicWatch.Bridge.Framing
