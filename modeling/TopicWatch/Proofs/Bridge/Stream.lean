import Mathlib.Data.List.Infix
import TopicWatch.Proofs.Bridge.Frame

/-!
# Reading any stream

Every stream, whatever a peer sends, is whole frames and then a rest at which reading stops.
The rest alone says why it stops, and there is only one way to split a stream like that. So
nothing that is read from a stream that breaks off is ever invented or changed.
-/

namespace TopicWatch.Bridge.Framing

/-- A payload behind its length. -/
def framed (payload : Bytes) : Bytes := header payload.length ++ payload

theorem length_framed (payload : Bytes) : (framed payload).length = 4 + payload.length :=
  List.length_append

/-- Where reading stops, and why: too little is left for a length, the length is above the
limit whatever follows it, or less follows than it announces. -/
inductive Stops (f : Framing) : Bytes → Option FrameError → Prop
  | ended {rest : Bytes} (h : rest.length < 4) : Stops f rest none
  | tooLarge {a b c d : UInt8} {more : Bytes} (h : f.limit < lengthOf a b c d) :
      Stops f (a :: b :: c :: d :: more) (some (.tooLarge (lengthOf a b c d) f.limit))
  | cutShort {a b c d : UInt8} {more : Bytes} (h : lengthOf a b c d ≤ f.limit)
      (hmore : more.length < lengthOf a b c d) :
      Stops f (a :: b :: c :: d :: more) (some .cutShort)

variable {f : Framing}

theorem read_framed_append {payload : Bytes} (h : payload.length ≤ f.limit) (s : Bytes) :
    f.read (framed payload ++ s) = .frame payload s := by
  rw [framed, List.append_assoc, read_of_le h]

theorem read_of_stops {rest : Bytes} {stop : Option FrameError} (h : f.Stops rest stop) :
    f.read rest = stop.elim .ended .failed := by
  cases h with
  | ended h =>
      match rest, h with
      | [], _ | [_], _ | [_, _], _ | [_, _, _], _ => rfl
      | _ :: _ :: _ :: _ :: _, h => exact absurd h (by simp)
  | tooLarge h => simp only [read, check, if_pos h, Option.elim_some]
  | @cutShort a b c d more h hmore =>
      have htake : (more.take (lengthOf a b c d)).length < lengthOf a b c d :=
        List.length_take ▸ Nat.lt_of_le_of_lt (Nat.min_le_right _ _) hmore
      simp only [read, check, if_neg (Nat.not_lt.2 h), List.splitAt_eq, if_pos htake,
        Option.elim_some]

theorem eq_framed_of_frame {payload bytes : Bytes} (h : f.frame payload = .ok bytes) :
    payload.length ≤ widest ∧ bytes = framed payload := by
  by_cases hlimit : payload.length ≤ f.limit
  · rw [frame_of_le hlimit] at h
    exact ⟨Nat.le_trans hlimit f.limit_le_widest, (Except.ok.inj h).symm⟩
  · rw [frame_of_lt (Nat.not_le.1 hlimit)] at h
    exact absurd h (by simp)

/-- What is read as a frame from the beginning of a frame, whatever its limit was, is the whole
of it. -/
theorem frame_of_read_prefix {x part payload rest : Bytes} (hx : x.length ≤ widest)
    (hpart : part <+: framed x) (hread : f.read part = .frame payload rest) :
    payload = x ∧ rest = [] ∧ part = framed x := by
  obtain ⟨more, hmore⟩ := hpart
  obtain ⟨hfits, hsplit⟩ := read_eq_frame_iff.1 hread
  have hwhole : f.read (framed x ++ []) = .frame payload (rest ++ more) := by
    refine read_eq_frame_iff.2 ⟨hfits, ?_⟩
    rw [List.append_nil, ← hmore, hsplit]
    simp only [List.append_assoc]
  by_cases hlimit : x.length ≤ f.limit
  · obtain ⟨rfl, hnil⟩ := Reading.frame.inj ((read_framed_append hlimit []).symm.trans hwhole)
    obtain ⟨rfl, rfl⟩ := List.append_eq_nil_iff.1 hnil.symm
    exact ⟨rfl, rfl, (List.append_nil part).symm.trans hmore⟩
  · rw [framed, List.append_assoc, read_of_lt (Nat.not_le.1 hlimit) hx] at hwhole
    exact absurd hwhole (by simp)

theorem stops_header {n : Nat} (h : f.limit < n) (hwide : n ≤ widest) (s : Bytes) :
    f.Stops (header n ++ s) (some (.tooLarge n f.limit)) := by
  have hlength := lengthOf_header hwide
  have hstops : f.Stops (header n ++ s) (some (.tooLarge (lengthOf _ _ _ _) f.limit)) :=
    .tooLarge (hlength.symm ▸ h)
  rwa [hlength] at hstops

/-- A stream begins with a frame within the limit, or reading stops at once. -/
theorem framed_or_stops (f : Framing) (s : Bytes) :
    (∃ payload rest, payload.length ≤ f.limit ∧ s = framed payload ++ rest) ∨
      ∃ stop, f.Stops s stop := by
  match s with
  | a :: b :: c :: d :: more =>
      by_cases hlimit : f.limit < lengthOf a b c d
      · exact .inr ⟨_, .tooLarge hlimit⟩
      · by_cases hmore : more.length < lengthOf a b c d
        · exact .inr ⟨_, .cutShort (Nat.not_lt.1 hlimit) hmore⟩
        · have hlength : (more.take (lengthOf a b c d)).length = lengthOf a b c d := by
            rw [List.length_take, Nat.min_eq_left (Nat.not_lt.1 hmore)]
          refine .inl ⟨more.take (lengthOf a b c d), more.drop (lengthOf a b c d), ?_, ?_⟩
          · rw [hlength]
            exact Nat.not_lt.1 hlimit
          · rw [framed, hlength, header_lengthOf, List.append_assoc, List.take_append_drop]
            rfl
  | [] | [_] | [_, _] | [_, _, _] => exact .inr ⟨none, .ended (by simp)⟩

theorem readAfter_eq (found : List Bytes) (s : Bytes) :
    f.readAfter found s = (found.reverse ++ (f.readAll s).1, (f.readAll s).2) := by
  induction hn : s.length using Nat.strongRecOn generalizing found s with
  | ind n ih =>
      rw [readAll, readAfter, readAfter]
      split
      · simp
      · simp
      · next payload rest hread =>
          have hlt := length_of_read hread
          rw [ih rest.length (hn ▸ hlt) (payload :: found) rest rfl,
            ih rest.length (hn ▸ hlt) [payload] rest rfl]
          simp

theorem readAll_of_stops {rest : Bytes} {stop : Option FrameError} (h : f.Stops rest stop) :
    f.readAll rest = ([], stop) := by
  have hstop := read_of_stops h
  rw [readAll, readAfter]
  split
  · next hread =>
      cases stop with
      | none => rfl
      | some e => exact absurd (hread.symm.trans hstop) (by simp)
  · next e hread =>
      cases stop with
      | none => exact absurd (hread.symm.trans hstop) (by simp)
      | some e' => rw [Reading.failed.inj (hread.symm.trans hstop)]; rfl
  · next hread => cases stop <;> exact absurd (hread.symm.trans hstop) (by simp)

theorem readAll_framed_append {payload : Bytes} (h : payload.length ≤ f.limit) (s : Bytes) :
    f.readAll (framed payload ++ s) = (payload :: (f.readAll s).1, (f.readAll s).2) := by
  rw [readAll, readAfter]
  split
  · next hread => exact absurd (hread.symm.trans (read_framed_append h s)) (by simp)
  · next hread => exact absurd (hread.symm.trans (read_framed_append h s)) (by simp)
  · next hread =>
      obtain ⟨rfl, rfl⟩ := Reading.frame.inj (hread.symm.trans (read_framed_append h s))
      rw [readAfter_eq]
      rfl

/-- The frames at the front of a stream are read first, whatever follows them. -/
theorem readAll_frames_append {frames : List Bytes} (h : ∀ p ∈ frames, p.length ≤ f.limit)
    (s : Bytes) :
    f.readAll (frames.flatMap framed ++ s) = (frames ++ (f.readAll s).1, (f.readAll s).2) := by
  induction frames with
  | nil => rfl
  | cons p frames ih =>
      rw [List.forall_mem_cons] at h
      rw [List.flatMap_cons, List.append_assoc, readAll_framed_append h.1, ih h.2]
      rfl

/-- A stream split into frames within the limit and a rest at which reading stops. -/
structure Splits (f : Framing) (s : Bytes) (frames : List Bytes) (rest : Bytes)
    (stop : Option FrameError) : Prop where
  append : s = frames.flatMap framed ++ rest
  within : ∀ p ∈ frames, p.length ≤ f.limit
  stops : f.Stops rest stop

namespace Splits

variable {s rest : Bytes} {frames : List Bytes} {stop : Option FrameError}

/-- What is read is what the stream is split into. -/
theorem readAll_eq (h : f.Splits s frames rest stop) : f.readAll s = (frames, stop) := by
  rw [h.append, readAll_frames_append h.within, readAll_of_stops h.stops, List.append_nil]

theorem exists_splits (f : Framing) (s : Bytes) :
    ∃ frames rest stop, f.Splits s frames rest stop := by
  induction hn : s.length using Nat.strongRecOn generalizing s with
  | ind n ih =>
      obtain ⟨p, more, hp, rfl⟩ | ⟨stop, hstop⟩ := framed_or_stops f s
      · have hlt : more.length < n := by
          rw [← hn, List.length_append, length_framed]
          omega
        obtain ⟨frames, rest, stop, hsplits⟩ := ih more.length hlt more rfl
        refine ⟨p :: frames, rest, stop, ?_, List.forall_mem_cons.2 ⟨hp, hsplits.within⟩,
          hsplits.stops⟩
        rw [List.flatMap_cons, List.append_assoc, ← hsplits.append]
      · exact ⟨[], s, stop, rfl, fun _ h => absurd h List.not_mem_nil, hstop⟩

theorem four_mul_length_le (h : f.Splits s frames rest stop) : 4 * frames.length ≤ s.length := by
  have hlength : ∀ frames : List Bytes, 4 * frames.length ≤ (frames.flatMap framed).length := by
    intro frames
    induction frames with
    | nil => exact Nat.le_refl _
    | cons p frames ih =>
        rw [List.flatMap_cons, List.length_append, length_framed, List.length_cons]
        omega
  rw [h.append, List.length_append]
  exact Nat.le_trans (hlength frames) (Nat.le_add_right _ _)

end Splits

/-- A stream that breaks off gives no other frames than the whole stream. -/
theorem readAll_prefix {s t : Bytes} (h : t <+: s) : (f.readAll t).1 <+: (f.readAll s).1 := by
  obtain ⟨more, rfl⟩ := h
  obtain ⟨frames, rest, stop, hsplits⟩ := Splits.exists_splits f t
  rw [hsplits.readAll_eq, hsplits.append, List.append_assoc,
    readAll_frames_append hsplits.within]
  exact List.prefix_append frames _

/-- Reading until it stops splits any stream into frames within the limit and a rest, where the
rest alone decides why reading stops. There are fewer frames than bytes, so reading does stop.
No other split has these properties, and of a beginning of the stream only frames are read
that are also the first of the whole stream. -/
theorem reading_splits_stream (f : Framing) (s : Bytes) :
    (∃ rest, f.Splits s (f.readAll s).1 rest (f.readAll s).2 ∧
      4 * (f.readAll s).1.length ≤ s.length ∧
      ∀ frames rest' stop, f.Splits s frames rest' stop →
        frames = (f.readAll s).1 ∧ rest' = rest ∧ stop = (f.readAll s).2) ∧
      ∀ t, t <+: s → (f.readAll t).1 <+: (f.readAll s).1 := by
  obtain ⟨frames, rest, stop, hsplits⟩ := Splits.exists_splits f s
  refine ⟨⟨rest, ?_⟩, fun t => readAll_prefix⟩
  rw [hsplits.readAll_eq]
  refine ⟨hsplits, hsplits.four_mul_length_le, fun frames' rest' stop' hsplits' => ?_⟩
  obtain ⟨rfl, rfl⟩ := Prod.mk.inj (hsplits'.readAll_eq.symm.trans hsplits.readAll_eq)
  exact ⟨rfl, List.append_cancel_left (hsplits'.append.symm.trans hsplits.append), rfl⟩

end TopicWatch.Bridge.Framing
