import TopicWatch.Bridge.Frame

/-!
# Frames survive the stream

The four bytes of a length give it back as long as it fits them, which every length within a
limit does. So a written frame is read back, and a longer one is refused with its length.
-/

namespace TopicWatch.Bridge.Framing

theorem limit_le_widest (f : Framing) : f.limit ≤ widest := by
  unfold limit
  split
  · exact Nat.le_refl _
  · exact Nat.min_le_right _ _

theorem widest_lt : widest < 0x100000000 := by decide

theorem lengthOf_header {n : Nat} (h : n ≤ widest) :
    lengthOf (UInt8.ofNat (n / 0x1000000)) (UInt8.ofNat (n / 0x10000)) (UInt8.ofNat (n / 0x100))
      (UInt8.ofNat n) = n := by
  have hwide := Nat.lt_of_le_of_lt h widest_lt
  simp only [lengthOf, UInt8.toNat_ofNat']
  omega

theorem header_lengthOf (a b c d : UInt8) : header (lengthOf a b c d) = [a, b, c, d] := by
  have ha := a.toNat_lt
  have hb := b.toNat_lt
  have hc := c.toNat_lt
  have hd := d.toNat_lt
  simp only [header, lengthOf, List.cons.injEq, and_true, ← UInt8.toNat_inj, UInt8.toNat_ofNat']
  omega

theorem check_eq_ok_iff {f : Framing} {n : Nat} : f.check n = .ok () ↔ n ≤ f.limit := by
  unfold check
  split
  · next h => exact ⟨fun h' => (nomatch h'), fun h' => absurd h' (Nat.not_le.2 h)⟩
  · next h => exact ⟨fun _ => Nat.not_lt.1 h, fun _ => rfl⟩

theorem frame_of_le {f : Framing} {payload : Bytes} (h : payload.length ≤ f.limit) :
    f.frame payload = .ok (header payload.length ++ payload) := by
  rw [frame, check, if_neg (Nat.not_lt.2 h)]
  rfl

theorem frame_of_lt {f : Framing} {payload : Bytes} (h : f.limit < payload.length) :
    f.frame payload = .error (.tooLarge payload.length f.limit) := by
  rw [frame, check, if_pos h]
  rfl

theorem read_header {f : Framing} {payload : Bytes} (h : payload.length ≤ widest) (s : Bytes) :
    f.read (header payload.length ++ s) =
      match f.check payload.length with
      | .error e => .failed e
      | .ok () =>
          if (s.take payload.length).length < payload.length then .failed .cutShort
          else .frame (s.take payload.length) (s.drop payload.length) := by
  cases hcheck : f.check payload.length <;>
    simp only [header, List.cons_append, List.nil_append, read, lengthOf_header h, hcheck,
      List.splitAt_eq]

/-- A frame within the limit is read back, whatever follows it. -/
theorem read_of_le {f : Framing} {payload : Bytes} (h : payload.length ≤ f.limit)
    (rest : Bytes) :
    f.read (header payload.length ++ (payload ++ rest)) = .frame payload rest := by
  rw [read_header (Nat.le_trans h f.limit_le_widest), check, if_neg (Nat.not_lt.2 h)]
  simp only [List.take_left, List.drop_left, Nat.lt_irrefl, if_false]

/-- A frame above the limit is refused, whatever follows its length. -/
theorem read_of_lt {f : Framing} {payload : Bytes} (h : f.limit < payload.length)
    (hwide : payload.length ≤ widest) (s : Bytes) :
    f.read (header payload.length ++ s) = .failed (.tooLarge payload.length f.limit) := by
  rw [read_header hwide, check, if_pos h]

/-- What is read as a frame stands at the front of the stream, behind its length. -/
theorem read_eq_frame_iff {f : Framing} {s payload rest : Bytes} :
    f.read s = .frame payload rest ↔
      payload.length ≤ f.limit ∧ s = header payload.length ++ (payload ++ rest) := by
  constructor
  · intro h
    match s, h with
    | a :: b :: c :: d :: s, h =>
        simp only [read] at h
        split at h
        · exact absurd h (by simp)
        · next hcheck =>
            have hfits := check_eq_ok_iff.1 hcheck
            split at h
            · exact absurd h (by simp)
            · next hlength =>
                obtain ⟨rfl, rfl⟩ := Reading.frame.inj h
                simp only [List.splitAt_eq, List.length_take] at hlength ⊢
                rw [Nat.min_eq_left (by omega), header_lengthOf, List.take_append_drop]
                exact ⟨hfits, rfl⟩
    | [], h | [_], h | [_, _], h | [_, _, _], h => exact absurd h (by simp [read])
  · rintro ⟨h, rfl⟩
    exact read_of_le h rest

end TopicWatch.Bridge.Framing
