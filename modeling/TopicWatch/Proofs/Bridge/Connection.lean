import TopicWatch.Bridge.Connection
import TopicWatch.Proofs.Bridge.Request
import TopicWatch.Proofs.Bridge.Stream

/-!
# How a connection is served

The server does the same to each frame, whatever stands before or after it on its
connection. A request within the limit is handled and answered, because its answer is
shorter; a longer one ends the connection and is not handled.
-/

namespace TopicWatch.Bridge

variable {σ : Type} (handle : Handler σ)

theorem Handler.reply_encode (state : σ) (r : Request) :
    handle.reply state r.encode = handle state r := by
  rw [Handler.reply, Request.decode_encode]

/-- A connection ends where reading stops. -/
theorem Handler.serveAfter_of_stops {f : Framing} {rest : Bytes} {stop : Option FrameError}
    (h : f.Stops rest stop) (written : List Ack) (state : σ) :
    handle.serveAfter f written state rest = ⟨state, written.reverse, stop⟩ := by
  have hstop := Framing.read_of_stops h
  rw [Handler.serveAfter]
  split
  · next hread =>
      cases stop with
      | none => rfl
      | some e => exact absurd (hread.symm.trans hstop) (by simp)
  · next e hread =>
      cases stop with
      | none => exact absurd (hread.symm.trans hstop) (by simp)
      | some e' => rw [Framing.Reading.failed.inj (hread.symm.trans hstop)]
  · next hread => cases stop <;> exact absurd (hread.symm.trans hstop) (by simp)

/-- A frame within the limit is replied to. The connection goes on if the reply can be
written. -/
theorem Handler.serveAfter_framed_append {f : Framing} {payload : Bytes}
    (h : payload.length ≤ f.limit) (written : List Ack) (state : σ) (rest : Bytes) :
    handle.serveAfter f written state (Framing.framed payload ++ rest) =
      let replied := handle.reply state payload
      match f.frame replied.2.encode with
      | .error e => ⟨replied.1, written.reverse, some e⟩
      | .ok _ => handle.serveAfter f (replied.2 :: written) replied.1 rest := by
  have hframe := Framing.read_framed_append h rest
  rw [Handler.serveAfter]
  split
  · next hread => exact absurd (hread.symm.trans hframe) (by simp)
  · next hread => exact absurd (hread.symm.trans hframe) (by simp)
  · next hread =>
      obtain ⟨rfl, rfl⟩ := Framing.Reading.frame.inj (hread.symm.trans hframe)
      rfl

theorem Handler.serveAfter_nil (f : Framing) (written : List Ack) (state : σ) :
    handle.serveAfter f written state [] = ⟨state, written.reverse, none⟩ :=
  handle.serveAfter_of_stops (.ended (by simp)) written state

/-- A request within the limit is handled and answered before the next frame is read. -/
theorem Handler.serveAfter_request {f : Framing} {r : Request} (h : r.encode.length ≤ f.limit)
    (written : List Ack) (state : σ) (rest : Bytes) :
    handle.serveAfter f written state
        (Framing.header r.encode.length ++ (r.encode ++ rest)) =
      handle.serveAfter f ((handle state r).2 :: written) (handle state r).1 rest := by
  have hanswer : (handle state r).2.encode.length ≤ f.limit :=
    Nat.le_trans (length_answer_le_request _ r) h
  rw [← List.append_assoc]
  refine (handle.serveAfter_framed_append h written state rest).trans ?_
  simp only [Handler.reply_encode, Framing.frame_of_le hanswer]

/-- A request above the limit ends the connection before it is handled. -/
theorem Handler.serveAfter_tooLarge {f : Framing} {r : Request} (h : f.limit < r.encode.length)
    (hwide : r.encode.length ≤ Framing.widest) (written : List Ack) (state : σ) (s : Bytes) :
    handle.serveAfter f written state (Framing.header r.encode.length ++ s) =
      ⟨state, written.reverse, some (.tooLarge r.encode.length f.limit)⟩ :=
  handle.serveAfter_of_stops (Framing.stops_header h hwide s) written state

theorem Handler.serve_request {f : Framing} {r : Request} (h : r.encode.length ≤ f.limit)
    (state : σ) :
    handle.serve f state (Framing.header r.encode.length ++ r.encode) =
      ⟨(handle state r).1, [(handle state r).2], none⟩ := by
  have hserve := handle.serveAfter_request h [] state []
  rw [List.append_nil, Handler.serveAfter_nil] at hserve
  exact hserve

end TopicWatch.Bridge
