import Mathlib.Data.List.Basic
import TopicWatch.Bridge.Chunks
import TopicWatch.Proofs.Bridge.Stream

/-!
# Frames survive the stream

What the chunks of a stream are makes no difference to its reader. So what was appended to a
buffer, frame by frame, is read back frame by frame: every payload within the limit, and
nothing of the payloads that were refused.
-/

namespace TopicWatch.Bridge.Framing

variable {f : Framing}

/-! ## Chunks -/

theorem isSome_takeExactly_iff {n : Nat} {chunks : List Bytes} :
    (takeExactly n chunks).isSome ↔ n ≤ chunks.flatten.length := by
  induction chunks generalizing n with
  | nil => cases n <;> simp [takeExactly]
  | cons chunk chunks ih =>
      cases n with
      | zero => simp [takeExactly]
      | succ n =>
          rw [takeExactly, List.flatten_cons, List.length_append]
          split
          · next h => exact ⟨fun _ => by omega, fun _ => rfl⟩
          · next h =>
              rw [Option.isSome_map, ih]
              omega

theorem takeExactly_eq_none {n : Nat} {chunks : List Bytes} (h : chunks.flatten.length < n) :
    takeExactly n chunks = none := by
  rw [← Option.not_isSome_iff_eq_none, isSome_takeExactly_iff]
  exact Nat.not_le.2 h

/-- A whole stretch at the front of a stream is taken, however it is cut into chunks. -/
theorem takeExactly_of_append {chunks : List Bytes} {taken rest : Bytes}
    (h : chunks.flatten = taken ++ rest) :
    ∃ more, takeExactly taken.length chunks = some (taken, more) ∧ more.flatten = rest := by
  have hsome : (takeExactly taken.length chunks).isSome := by
    rw [isSome_takeExactly_iff, h, List.length_append]
    exact Nat.le_add_right _ _
  obtain ⟨⟨taken', more⟩, htaken⟩ := Option.isSome_iff_exists.1 hsome
  obtain ⟨hlength, happend⟩ := append_of_takeExactly htaken
  obtain ⟨rfl, rfl⟩ := List.append_inj (happend.trans h) hlength
  exact ⟨more, htaken, rfl⟩

/-- The next frame of a stream in chunks is the one at the front of the stream. -/
theorem readNext_of_frame {chunks : List Bytes} {payload rest : Bytes}
    (hfits : payload.length ≤ f.limit) (h : chunks.flatten = framed payload ++ rest) :
    ∃ more, f.readNext chunks = .ok (some (payload, more)) ∧ more.flatten = rest := by
  rw [framed, List.append_assoc] at h
  obtain ⟨behind, hheader, hbehind⟩ := takeExactly_of_append h
  obtain ⟨more, hpayload, hmore⟩ := takeExactly_of_append hbehind
  have hwide := Nat.le_trans hfits f.limit_le_widest
  have hcheck : f.check payload.length = .ok () := check_eq_ok_iff.2 hfits
  refine ⟨more, ?_, hmore⟩
  have hfour : takeExactly 4 chunks = some (header payload.length, behind) := hheader
  simp only [readNext, hfour, header, lengthOf_header hwide, hcheck, hpayload]

/-- A stream in chunks stops where the stream does. -/
theorem readNext_of_stops {chunks : List Bytes} {stop : Option FrameError}
    (h : f.Stops chunks.flatten stop) : f.readNext chunks = stop.elim (.ok none) .error := by
  generalize hs : chunks.flatten = s at h
  cases h with
  | ended h =>
      rw [readNext, takeExactly_eq_none (hs ▸ h)]
      rfl
  | @tooLarge a b c d more h =>
      have hsplit : chunks.flatten = [a, b, c, d] ++ more := hs
      obtain ⟨behind, hheader, -⟩ := takeExactly_of_append hsplit
      have hfour : takeExactly 4 chunks = some ([a, b, c, d], behind) := hheader
      simp only [readNext, hfour, check, if_pos h, Option.elim_some]
  | @cutShort a b c d more h hmore =>
      have hsplit : chunks.flatten = [a, b, c, d] ++ more := hs
      obtain ⟨behind, hheader, rfl⟩ := takeExactly_of_append hsplit
      have hfour : takeExactly 4 chunks = some ([a, b, c, d], behind) := hheader
      simp only [readNext, hfour, check, if_neg (Nat.not_lt.2 h), takeExactly_eq_none hmore,
        Option.elim_some]

/-- The frames of a stream do not depend on its chunks. -/
theorem readChunksAfter_eq (found : List Bytes) {chunks : List Bytes} {frames : List Bytes}
    {rest : Bytes} {stop : Option FrameError} (h : f.Splits chunks.flatten frames rest stop) :
    f.readChunksAfter found chunks = (found.reverse ++ frames, stop) := by
  induction frames generalizing found chunks with
  | nil =>
      have hstop := readNext_of_stops (h.append ▸ h.stops : f.Stops chunks.flatten stop)
      rw [readChunksAfter]
      split
      · next hread =>
          cases stop with
          | none => rw [List.append_nil]
          | some e => exact absurd (hread.symm.trans hstop) (by simp)
      · next e hread =>
          cases stop with
          | none => exact absurd (hread.symm.trans hstop) (by simp)
          | some e' => rw [Except.error.inj (hread.symm.trans hstop), List.append_nil]
      · next hread => cases stop <;> exact absurd (hread.symm.trans hstop) (by simp)
  | cons p frames ih =>
      have hwithin := List.forall_mem_cons.1 h.within
      obtain ⟨more, hnext, hmore⟩ := readNext_of_frame hwithin.1
        (h.append.trans (by rw [List.flatMap_cons, List.append_assoc]))
      rw [readChunksAfter]
      split
      · next hread => exact absurd (hread.symm.trans hnext) (by simp)
      · next hread => exact absurd (hread.symm.trans hnext) (by simp)
      · next payload more' hread =>
          have heq := Option.some.inj (Except.ok.inj (hread.symm.trans hnext))
          obtain ⟨rfl, rfl⟩ := Prod.mk.inj heq
          rw [ih (payload :: found) ⟨hmore, hwithin.2, h.stops⟩, List.reverse_cons, List.append_assoc]
          rfl

/-- Reading a stream in chunks is reading the stream. -/
theorem readChunks_eq (f : Framing) (chunks : List Bytes) :
    f.readChunks chunks = f.readAll chunks.flatten := by
  obtain ⟨frames, rest, stop, hsplits⟩ := Splits.exists_splits f chunks.flatten
  rw [readChunks, readChunksAfter_eq [] hsplits, hsplits.readAll_eq]
  rfl

/-! ## What was appended -/

theorem append_of_le {payload : Bytes} (h : payload.length ≤ f.limit) (buffer : Bytes) :
    f.append buffer payload = (.ok (), buffer ++ framed payload) := by
  rw [append, frame_of_le h]
  rfl

theorem append_of_lt {payload : Bytes} (h : f.limit < payload.length) (buffer : Bytes) :
    f.append buffer payload = (.error (.tooLarge payload.length f.limit), buffer) := by
  rw [append, frame_of_lt h]

/-- Appending payloads checks each of them and appends the frames of those within the limit. -/
theorem appendAll_eq (buffer : Bytes) (payloads : List Bytes) :
    f.appendAll buffer payloads =
      (payloads.map fun p => f.check p.length,
        buffer ++ (payloads.filter (·.length ≤ f.limit)).flatMap framed) := by
  induction payloads generalizing buffer with
  | nil => rw [appendAll, List.filter_nil, List.flatMap_nil, List.append_nil, List.map_nil]
  | cons p payloads ih =>
      rw [appendAll, ih, List.map_cons, List.filter_cons]
      by_cases h : p.length ≤ f.limit
      · rw [append_of_le h, check_eq_ok_iff.2 h, if_pos (decide_eq_true h), List.flatMap_cons,
          ← List.append_assoc]
      · have hlt := Nat.not_le.1 h
        rw [append_of_lt hlt, check, if_pos hlt, if_neg (by simp [h])]

/-- Payloads are appended one after the other. -/
theorem appendAll_append_cons (buffer : Bytes) (before : List Bytes) (payload : Bytes)
    (after : List Bytes) :
    let call := f.append (f.appendAll buffer before).2 payload
    let more := f.appendAll call.2 after
    f.appendAll buffer (before ++ payload :: after) =
      ((f.appendAll buffer before).1 ++ call.1 :: more.1, more.2) := by
  induction before generalizing buffer with
  | nil => rfl
  | cons p before ih =>
      have hmore := ih (f.append buffer p).2
      simp only [List.cons_append, appendAll, hmore]

/-- Frames survive the stream. Each payload of a sequence is taken exactly if it is within the
limit: then the buffer keeps what it held and grows by four bytes, which give the whole length,
and the payload. A payload that is refused leaves the buffer as it was. What was appended is
read back, in chunks of any sizes, as the payloads that were taken, and then the stream ends. -/
theorem frames_survive_stream (f : Framing) (buffer : Bytes) (payloads : List Bytes) :
    (f.limit = if f.greatest = 0 then 0xFFFFFFFF else min f.greatest 0xFFFFFFFF) ∧
      (∀ before payload after, payloads = before ++ payload :: after →
        let held := (f.appendAll buffer before).2
        let call := f.append held payload
        (f.appendAll buffer payloads).1[before.length]? = some call.1 ∧
          (f.appendAll buffer payloads).2 = (f.appendAll call.2 after).2 ∧
          (call.1 = .ok () ↔ payload.length ≤ f.limit) ∧
          (payload.length ≤ f.limit → ∃ a b c d,
            call.2 = held ++ a :: b :: c :: d :: payload ∧ lengthOf a b c d = payload.length) ∧
          (f.limit < payload.length →
            call = (.error (.tooLarge payload.length f.limit), held))) ∧
      ∃ appended, (f.appendAll buffer payloads).2 = buffer ++ appended ∧
        ∀ chunks, chunks.flatten = appended →
          f.readChunks chunks = (payloads.filter (·.length ≤ f.limit), none) := by
  refine ⟨rfl, ?_, _, congrArg Prod.snd (appendAll_eq buffer payloads), ?_⟩
  · rintro before payload after rfl
    have hlength : (f.appendAll buffer before).1.length = before.length := by
      rw [appendAll_eq, List.length_map]
    rw [appendAll_append_cons]
    refine ⟨?_, rfl, ?_, fun h => ?_, fun h => append_of_lt h _⟩
    · rw [List.getElem?_append_right (Nat.le_of_eq hlength), hlength, Nat.sub_self]
      rfl
    · by_cases h : payload.length ≤ f.limit
      · rw [append_of_le h]
        exact ⟨fun _ => h, fun _ => rfl⟩
      · rw [append_of_lt (Nat.not_le.1 h)]
        exact ⟨fun h' => (nomatch h'), fun h' => absurd h' h⟩
    · rw [append_of_le h]
      exact ⟨_, _, _, _, rfl, lengthOf_header (Nat.le_trans h f.limit_le_widest)⟩
  · intro chunks hchunks
    have hsplits : f.Splits chunks.flatten (payloads.filter (·.length ≤ f.limit)) [] none := by
      refine ⟨by rw [hchunks, List.append_nil], ?_, .ended (by simp)⟩
      intro p hp
      exact of_decide_eq_true (List.mem_filter.1 hp).2
    rw [readChunks_eq, hsplits.readAll_eq]

end TopicWatch.Bridge.Framing
