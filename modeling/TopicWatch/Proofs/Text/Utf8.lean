import TopicWatch.Text.Utf8

/-!
# Text survives its UTF-8 form

The bytes of a character are cut as one piece whatever stands after them, so the bytes of a
text are cut into its characters and strict decoding gives the text back. They tell where a
character begins, so that one text ends with another one if its bytes do. The other way round,
what is read as a character are the bytes of that character, so strict decoding accepts nothing
but the bytes of a text.
-/

namespace TopicWatch.Utf8

theorem toNat_ofNat_of_lt {n : Nat} (h : n < 256) : (UInt8.ofNat n).toNat = n := by
  simp [Nat.mod_eq_of_lt h]

theorem ofNat_eq {n : Nat} {b : UInt8} (h : n = b.toNat) : UInt8.ofNat n = b := by
  rw [h, UInt8.ofNat_toNat]

/-- The bytes of a character outside ASCII are all greater than those of ASCII. -/
theorem mem_encodeChar {c : Char} {b : UInt8} (h : b ∈ String.utf8EncodeChar c) :
    b.toNat = c.toNat ∨ 0x80 ≤ b.toNat := by
  have hv : c.val.toNat = c.toNat := rfl
  simp only [String.utf8EncodeChar, hv] at h
  generalize c.toNat = v at h
  split at h
  · rw [List.mem_singleton] at h
    rw [h, toNat_ofNat_of_lt (by omega)]
    exact Or.inl rfl
  · right
    split at h
    · simp only [List.mem_cons, List.not_mem_nil, or_false] at h
      rcases h with rfl | rfl <;> rw [toNat_ofNat_of_lt (by omega)] <;> omega
    · split at h
      · simp only [List.mem_cons, List.not_mem_nil, or_false] at h
        rcases h with rfl | rfl | rfl <;> rw [toNat_ofNat_of_lt (by omega)] <;> omega
      · simp only [List.mem_cons, List.not_mem_nil, or_false] at h
        rcases h with rfl | rfl | rfl | rfl <;> rw [toNat_ofNat_of_lt (by omega)] <;> omega

theorem follow_succ {n m bits : Nat} {least greatest : UInt8} (hm : m < 256)
    (hleast : least.toNat ≤ m) (hgreatest : m ≤ greatest.toNat) (rest : Bytes) :
    follow (n + 1) least greatest bits (UInt8.ofNat m :: rest) =
      follow n 0x80 0xBF (bits * 64 + (m - 0x80)) rest := by
  rw [follow, if_pos, toNat_ofNat_of_lt hm]
  simp only [UInt8.le_iff_toNat_le, toNat_ofNat_of_lt hm]
  exact ⟨hleast, hgreatest⟩

/-- A byte that goes on with a character adds its six low bits. -/
theorem follow_continuation (n bits m : Nat) (rest : Bytes) :
    follow (n + 1) 0x80 0xBF bits (UInt8.ofNat (m % 64 + 0x80) :: rest) =
      follow n 0x80 0xBF (bits * 64 + (m % 64 + 0x80 - 0x80)) rest := by
  have hlow : m % 64 + 0x80 ≤ 0xBF := by omega
  exact follow_succ (by omega) (Nat.le_add_left 0x80 _) hlow rest

theorem lead?_two {n : Nat} (h : 0xC2 ≤ n) (h' : n < 0xE0) :
    lead? (UInt8.ofNat n) = some ⟨1, 0x80, 0xBF, n - 0xC0⟩ := by
  have hval : (UInt8.ofNat n).toNat = n := toNat_ofNat_of_lt (by omega)
  rw [lead?, if_neg, if_pos, hval]
  · simpa [UInt8.lt_iff_toNat_lt, hval] using h'
  · simpa [UInt8.lt_iff_toNat_lt, hval] using h

theorem lead?_three {n : Nat} (h : 0xE0 ≤ n) (h' : n < 0xF0) :
    lead? (UInt8.ofNat n) = some ⟨2, if n = 0xE0 then 0xA0 else 0x80,
      if n = 0xED then 0x9F else 0xBF, n - 0xE0⟩ := by
  have hval : (UInt8.ofNat n).toNat = n := toNat_ofNat_of_lt (by omega)
  unfold lead?
  simp only [UInt8.lt_iff_toNat_lt, ← UInt8.toNat_inj, hval]
  by_cases he : n = 0xE0
  · subst he
    rfl
  · by_cases hd : n = 0xED
    · subst hd
      rfl
    · rw [if_neg (by simp; omega), if_neg (by simp; omega), if_neg (by simpa using he),
        if_neg (by simpa using hd), if_pos (by simpa using h'), if_neg he, if_neg hd]

theorem lead?_four {n : Nat} (h : 0xF0 ≤ n) (h' : n < 0xF5) :
    lead? (UInt8.ofNat n) = some ⟨3, if n = 0xF0 then 0x90 else 0x80,
      if n = 0xF4 then 0x8F else 0xBF, n - 0xF0⟩ := by
  have hn : n = 0xF0 ∨ n = 0xF1 ∨ n = 0xF2 ∨ n = 0xF3 ∨ n = 0xF4 := by omega
  rcases hn with rfl | rfl | rfl | rfl | rfl <;> rfl

theorem next_ofNat {n following bits : Nat} {least greatest : UInt8} (h : 0x80 ≤ n)
    (h' : n < 256) (hl : lead? (UInt8.ofNat n) = some ⟨following, least, greatest, bits⟩)
    (rest : Bytes) :
    next (UInt8.ofNat n) rest = follow following least greatest bits rest := by
  rw [next, if_neg, hl]
  simpa [UInt8.lt_iff_toNat_lt, toNat_ofNat_of_lt h'] using h

theorem next_one {v : Nat} (h : v < 0x80) (rest : Bytes) :
    next (UInt8.ofNat v) rest = (.char (Char.ofNat v), rest) := by
  have hval : (UInt8.ofNat v).toNat = v := toNat_ofNat_of_lt (by omega)
  rw [next, if_pos, hval]
  simpa [UInt8.lt_iff_toNat_lt, hval] using h

theorem next_two {v : Nat} (h : 0x80 ≤ v) (h' : v < 0x800) (rest : Bytes) :
    next (UInt8.ofNat (v / 64 % 32 + 0xC0)) (UInt8.ofNat (v % 64 + 0x80) :: rest) =
      (.char (Char.ofNat v), rest) := by
  have hbits : (v / 64 % 32 + 0xC0 - 0xC0) * 64 + (v % 64 + 0x80 - 0x80) = v := by omega
  rw [next_ofNat (by omega) (by omega) (lead?_two (by omega) (by omega)),
    follow_continuation, follow, hbits]

/-- The second byte is in the narrowed range exactly because the code point is not below
`U+0800` and no surrogate. -/
theorem next_three {v : Nat} (h : 0x800 ≤ v) (h' : v < 0x10000)
    (hvalid : v < 0xD800 ∨ 0xDFFF < v) (rest : Bytes) :
    next (UInt8.ofNat (v / 4096 % 16 + 0xE0))
        (UInt8.ofNat (v / 64 % 64 + 0x80) :: UInt8.ofNat (v % 64 + 0x80) :: rest) =
      (.char (Char.ofNat v), rest) := by
  have hbits : ((v / 4096 % 16 + 0xE0 - 0xE0) * 64 + (v / 64 % 64 + 0x80 - 0x80)) * 64 +
      (v % 64 + 0x80 - 0x80) = v := by omega
  have hleast : (if v / 4096 % 16 + 0xE0 = 0xE0 then (0xA0 : UInt8) else 0x80).toNat ≤
      v / 64 % 64 + 0x80 := by
    split
    · show 0xA0 ≤ v / 64 % 64 + 0x80
      omega
    · exact Nat.le_add_left 0x80 _
  have hgreatest : v / 64 % 64 + 0x80 ≤
      (if v / 4096 % 16 + 0xE0 = 0xED then (0x9F : UInt8) else 0xBF).toNat := by
    split
    · show v / 64 % 64 + 0x80 ≤ 0x9F
      omega
    · show v / 64 % 64 + 0x80 ≤ 0xBF
      omega
  rw [next_ofNat (by omega) (by omega) (lead?_three (by omega) (by omega)),
    follow_succ (by omega) hleast hgreatest, follow_continuation, follow, hbits]

theorem next_four {v : Nat} (h : 0x10000 ≤ v) (h' : v < 0x110000) (rest : Bytes) :
    next (UInt8.ofNat (v / 262144 % 8 + 0xF0))
        (UInt8.ofNat (v / 4096 % 64 + 0x80) :: UInt8.ofNat (v / 64 % 64 + 0x80) ::
          UInt8.ofNat (v % 64 + 0x80) :: rest) =
      (.char (Char.ofNat v), rest) := by
  have hbits : (((v / 262144 % 8 + 0xF0 - 0xF0) * 64 + (v / 4096 % 64 + 0x80 - 0x80)) * 64 +
      (v / 64 % 64 + 0x80 - 0x80)) * 64 + (v % 64 + 0x80 - 0x80) = v := by omega
  have hleast : (if v / 262144 % 8 + 0xF0 = 0xF0 then (0x90 : UInt8) else 0x80).toNat ≤
      v / 4096 % 64 + 0x80 := by
    split
    · show 0x90 ≤ v / 4096 % 64 + 0x80
      omega
    · exact Nat.le_add_left 0x80 _
  have hgreatest : v / 4096 % 64 + 0x80 ≤
      (if v / 262144 % 8 + 0xF0 = 0xF4 then (0x8F : UInt8) else 0xBF).toNat := by
    split
    · show v / 4096 % 64 + 0x80 ≤ 0x8F
      omega
    · show v / 4096 % 64 + 0x80 ≤ 0xBF
      omega
  rw [next_ofNat (by omega) (by omega) (lead?_four (by omega) (by omega)),
    follow_succ (by omega) hleast hgreatest, follow_continuation, follow_continuation, follow,
    hbits]

/-- The bytes of a character are one piece, whatever follows them. -/
theorem next_of_encodeChar {c : Char} {b : UInt8} {tail : Bytes}
    (h : String.utf8EncodeChar c = b :: tail) (rest : Bytes) :
    next b (tail ++ rest) = (.char c, rest) := by
  have hvalid : c.val.toNat < 0xD800 ∨ 0xDFFF < c.val.toNat ∧ c.val.toNat < 0x110000 := c.valid
  have hchar : Char.ofNat c.val.toNat = c := Char.ofNat_toNat c
  unfold String.utf8EncodeChar at h
  generalize c.val.toNat = v at h hvalid hchar
  rw [← hchar]
  simp only at h
  split at h
  · obtain ⟨rfl, rfl⟩ := List.cons.inj h
    exact next_one (by omega) rest
  · split at h
    · obtain ⟨rfl, rfl⟩ := List.cons.inj h
      exact next_two (by omega) (by omega) rest
    · split at h
      · obtain ⟨rfl, rfl⟩ := List.cons.inj h
        exact next_three (by omega) (by omega) (by omega) rest
      · obtain ⟨rfl, rfl⟩ := List.cons.inj h
        exact next_four (by omega) (by omega) rest

theorem pieces_encodeChar_append (c : Char) (rest : Bytes) :
    pieces (String.utf8EncodeChar c ++ rest) = .char c :: pieces rest := by
  cases h : String.utf8EncodeChar c with
  | nil => exact absurd h String.utf8EncodeChar_ne_nil
  | cons b tail =>
      rw [List.cons_append, pieces_cons, next_of_encodeChar h]

theorem pieces_encode_append (cs : List Char) (rest : Bytes) :
    pieces (cs.flatMap String.utf8EncodeChar ++ rest) = cs.map .char ++ pieces rest := by
  induction cs with
  | nil => rfl
  | cons c cs ih =>
      rw [List.flatMap_cons, List.append_assoc, pieces_encodeChar_append, ih]
      rfl

theorem pieces_encode (s : String) : pieces (encode s) = s.toList.map .char := by
  have h := pieces_encode_append s.toList []
  rwa [List.append_nil, pieces_nil, List.append_nil] at h

/-- The bytes of a text are shown as that text. -/
theorem lossy_encode (s : String) : lossy (encode s) = s := by
  have hshown : (s.toList.map Piece.char).map Piece.shown = s.toList := by
    rw [List.map_map]
    exact List.map_id _
  rw [lossy, pieces_encode, hshown, String.ofList_toList]

theorem decode?_encode (s : String) : decode? (encode s) = some s := by
  have hchars : (s.toList.map Piece.char).map Piece.char? = s.toList.map some := by
    rw [List.map_map]
    rfl
  rw [decode?, pieces_encode, hchars]
  simp [List.filterMap_map]

theorem encode_injective {a b : String} (h : encode a = encode b) : a = b := by
  have hdecoded := decode?_encode a
  rw [h, decode?_encode] at hdecoded
  exact (Option.some.inj hdecoded).symm

theorem flatMap_encodeChar_injective {cs ds : List Char}
    (h : cs.flatMap String.utf8EncodeChar = ds.flatMap String.utf8EncodeChar) : cs = ds := by
  apply String.ofList_injective
  apply encode_injective
  rwa [encode, encode, String.toList_ofList, String.toList_ofList]

theorem exists_firstByte {cs : List Char} (h : cs ≠ []) :
    ∃ b rest, cs.flatMap String.utf8EncodeChar = b :: rest ∧ b.IsUTF8FirstByte := by
  cases cs with
  | nil => exact absurd rfl h
  | cons c cs =>
      rw [List.flatMap_cons]
      cases hc : String.utf8EncodeChar c with
      | nil => exact absurd hc String.utf8EncodeChar_ne_nil
      | cons b tail =>
          have hfirst := UInt8.isUTF8FirstByte_getElem_zero_utf8EncodeChar (c := c)
          simp only [hc, List.getElem_cons_zero] at hfirst
          exact ⟨b, _, rfl, hfirst⟩

/-- No byte of a character but its first one begins a character. -/
theorem not_firstByte_of_encodeChar {c : Char} {front rest : Bytes} {b : UInt8}
    (h : String.utf8EncodeChar c = front ++ b :: rest) (hfront : front ≠ []) :
    ¬b.IsUTF8FirstByte := by
  have hlt : front.length < (String.utf8EncodeChar c).length := by
    rw [h, List.length_append, List.length_cons]
    omega
  have hat : (String.utf8EncodeChar c)[front.length] = b := by
    simp only [h, List.getElem_append_right (Nat.le_refl _), Nat.sub_self,
      List.getElem_cons_zero]
  rw [← hat, UInt8.isUTF8FirstByte_getElem_utf8EncodeChar, List.length_eq_zero_iff]
  exact hfront

/-- Where the bytes of a text end the bytes of another one, the characters do: the bytes of a
text do not begin inside a character. -/
theorem suffix_of_flatMap {cs ds : List Char}
    (h : cs.flatMap String.utf8EncodeChar <:+ ds.flatMap String.utf8EncodeChar) : cs <:+ ds := by
  by_cases hempty : cs = []
  · rw [hempty]
    exact List.nil_suffix
  obtain ⟨b, rest, hbytes, hfirst⟩ := exists_firstByte hempty
  induction ds with
  | nil =>
      rw [hbytes] at h
      exact absurd (List.suffix_nil.1 h) (List.cons_ne_nil b rest)
  | cons d ds ih =>
      obtain ⟨front, hfront⟩ := h
      rw [List.flatMap_cons, List.append_eq_append_iff] at hfront
      rcases hfront with ⟨inside, hd, hcs⟩ | ⟨before, rfl, hds⟩
      · cases front with
        | nil =>
            rw [← List.nil_append inside, ← hd, ← List.flatMap_cons] at hcs
            exact flatMap_encodeChar_injective hcs ▸ List.suffix_refl cs
        | cons x front =>
            cases inside with
            | nil => exact (ih ⟨[], hcs⟩).trans (List.suffix_cons d ds)
            | cons b' inside =>
                obtain rfl : b = b' := (List.cons.inj (hbytes.symm.trans hcs)).1
                exact absurd hfirst (not_firstByte_of_encodeChar hd (List.cons_ne_nil x front))
      · exact (ih ⟨before, hds.symm⟩).trans (List.suffix_cons d ds)

/-- The bytes of a text end with those of another one exactly if its characters do. -/
theorem encode_suffix_iff {a b : String} : encode a <:+ encode b ↔ a.toList <:+ b.toList := by
  constructor
  · exact suffix_of_flatMap
  · rintro ⟨front, hfront⟩
    refine ⟨front.flatMap String.utf8EncodeChar, ?_⟩
    rw [encode, encode, ← hfront, List.flatMap_append]

/-! ## What is read as a character -/

theorem toNat_charOf {v : Nat} (h : v.isValidChar) : (Char.ofNat v).val.toNat = v := by
  rw [Char.ofNat, dif_pos h]
  rfl

theorem encodeChar_one {v : Nat} (h : v < 0x80) :
    String.utf8EncodeChar (Char.ofNat v) = [UInt8.ofNat v] := by
  have hvalid : v.isValidChar := Or.inl (by omega)
  unfold String.utf8EncodeChar
  simp only [toNat_charOf hvalid]
  rw [if_pos (by omega)]

theorem encodeChar_two {v : Nat} (h : 0x80 ≤ v) (h' : v < 0x800) :
    String.utf8EncodeChar (Char.ofNat v) =
      [UInt8.ofNat (v / 64 % 32 + 0xC0), UInt8.ofNat (v % 64 + 0x80)] := by
  have hvalid : v.isValidChar := Or.inl (by omega)
  unfold String.utf8EncodeChar
  simp only [toNat_charOf hvalid]
  rw [if_neg (by omega), if_pos (by omega)]

theorem encodeChar_three {v : Nat} (h : 0x800 ≤ v) (h' : v < 0x10000)
    (hvalid : v < 0xD800 ∨ 0xDFFF < v) :
    String.utf8EncodeChar (Char.ofNat v) = [UInt8.ofNat (v / 4096 % 16 + 0xE0),
      UInt8.ofNat (v / 64 % 64 + 0x80), UInt8.ofNat (v % 64 + 0x80)] := by
  have hvalid : v.isValidChar := hvalid.imp id fun hv => ⟨hv, by omega⟩
  unfold String.utf8EncodeChar
  simp only [toNat_charOf hvalid]
  rw [if_neg (by omega), if_neg (by omega), if_pos (by omega)]

theorem encodeChar_four {v : Nat} (h : 0x10000 ≤ v) (h' : v < 0x110000) :
    String.utf8EncodeChar (Char.ofNat v) = [UInt8.ofNat (v / 262144 % 8 + 0xF0),
      UInt8.ofNat (v / 4096 % 64 + 0x80), UInt8.ofNat (v / 64 % 64 + 0x80),
      UInt8.ofNat (v % 64 + 0x80)] := by
  have hvalid : v.isValidChar := Or.inr ⟨by omega, h'⟩
  unfold String.utf8EncodeChar
  simp only [toNat_charOf hvalid]
  rw [if_neg (by omega), if_neg (by omega), if_neg (by omega)]

/-- Bytes that begin no multi-byte character: those of ASCII, those that only follow others, and
those that would begin an overlong form or one of a number above the greatest code point. -/
theorem lead?_eq_none {b : UInt8} (h : b.toNat < 0xC2 ∨ 0xF5 ≤ b.toNat) : lead? b = none := by
  unfold lead?
  simp only [UInt8.lt_iff_toNat_lt, ← UInt8.toNat_inj]
  rcases h with hlow | hhigh
  · exact if_pos hlow
  · rw [if_neg (by simp; omega), if_neg (by simp; omega), if_neg (by simp; omega),
      if_neg (by simp; omega), if_neg (by simp; omega), if_neg (by simp; omega),
      if_neg (by simp; omega), if_neg (by simp; omega)]

/-- How a byte that begins a multi-byte character goes on. -/
theorem lead?_cases {b : UInt8} {l : Lead} (h : lead? b = some l) :
    (0xC2 ≤ b.toNat ∧ b.toNat < 0xE0 ∧ l = ⟨1, 0x80, 0xBF, b.toNat - 0xC0⟩) ∨
      (0xE0 ≤ b.toNat ∧ b.toNat < 0xF0 ∧ l = ⟨2, if b.toNat = 0xE0 then 0xA0 else 0x80,
        if b.toNat = 0xED then 0x9F else 0xBF, b.toNat - 0xE0⟩) ∨
      0xF0 ≤ b.toNat ∧ b.toNat < 0xF5 ∧ l = ⟨3, if b.toNat = 0xF0 then 0x90 else 0x80,
        if b.toNat = 0xF4 then 0x8F else 0xBF, b.toNat - 0xF0⟩ := by
  have hbyte : UInt8.ofNat b.toNat = b := UInt8.ofNat_toNat
  have hbegins : ¬(b.toNat < 0xC2 ∨ 0xF5 ≤ b.toNat) := by
    intro hnone
    rw [lead?_eq_none hnone] at h
    cases h
  by_cases htwo : b.toNat < 0xE0
  · have hlead := lead?_two (n := b.toNat) (by omega) htwo
    rw [hbyte, h] at hlead
    exact Or.inl ⟨by omega, htwo, Option.some.inj hlead⟩
  · by_cases hthree : b.toNat < 0xF0
    · have hlead := lead?_three (n := b.toNat) (by omega) hthree
      rw [hbyte, h] at hlead
      exact Or.inr (Or.inl ⟨by omega, hthree, Option.some.inj hlead⟩)
    · have hlead := lead?_four (n := b.toNat) (by omega) (by omega)
      rw [hbyte, h] at hlead
      exact Or.inr (Or.inr ⟨by omega, by omega, Option.some.inj hlead⟩)

theorem exists_of_follow_char {n bits : Nat} {least greatest : UInt8} {c : Char}
    {s rest : Bytes} (h : follow (n + 1) least greatest bits s = (.char c, rest)) :
    ∃ b tail, s = b :: tail ∧ least.toNat ≤ b.toNat ∧ b.toNat ≤ greatest.toNat ∧
      follow n 0x80 0xBF (bits * 64 + (b.toNat - 0x80)) tail = (.char c, rest) := by
  cases s with
  | nil => cases h
  | cons b tail =>
      rw [follow] at h
      split at h
      · next hrange =>
          exact ⟨b, tail, rfl, UInt8.le_iff_toNat_le.1 hrange.1,
            UInt8.le_iff_toNat_le.1 hrange.2, h⟩
      · cases h

theorem eq_of_follow_zero {bits : Nat} {least greatest : UInt8} {c : Char} {s rest : Bytes}
    (h : follow 0 least greatest bits s = (.char c, rest)) : c = Char.ofNat bits ∧ rest = s := by
  obtain ⟨hc, hrest⟩ := Prod.mk.inj h
  exact ⟨(Piece.char.inj hc).symm, hrest.symm⟩

theorem least_le_of_narrowed {narrow : Prop} [Decidable narrow] {least b : UInt8}
    (hleast : 0x80 ≤ least.toNat) (h : (if narrow then least else 0x80).toNat ≤ b.toNat) :
    0x80 ≤ b.toNat ∧ (narrow → least.toNat ≤ b.toNat) := by
  split at h
  · exact ⟨Nat.le_trans hleast h, fun _ => h⟩
  · next hwide => exact ⟨h, fun hnarrow => absurd hnarrow hwide⟩

theorem le_greatest_of_narrowed {narrow : Prop} [Decidable narrow] {greatest b : UInt8}
    (hgreatest : greatest.toNat ≤ 0xBF)
    (h : b.toNat ≤ (if narrow then greatest else 0xBF).toNat) :
    b.toNat ≤ 0xBF ∧ (narrow → b.toNat ≤ greatest.toNat) := by
  split at h
  · exact ⟨Nat.le_trans h hgreatest, fun _ => h⟩
  · next hwide => exact ⟨h, fun hnarrow => absurd hnarrow hwide⟩

theorem encodeChar_of_two {b : UInt8} (h : 0xC2 ≤ b.toNat) (h' : b.toNat < 0xE0) {c : Char}
    {s rest : Bytes} (hc : follow 1 0x80 0xBF (b.toNat - 0xC0) s = (.char c, rest)) :
    b :: s = String.utf8EncodeChar c ++ rest := by
  obtain ⟨x, s, rfl, hx, hx', hc⟩ := exists_of_follow_char hc
  obtain ⟨hchar, hrest⟩ := eq_of_follow_zero hc
  have hx : 0x80 ≤ x.toNat ∧ x.toNat ≤ 0xBF := ⟨hx, hx'⟩
  rw [hchar, hrest, encodeChar_two (by omega) (by omega), ofNat_eq (b := b) (by omega),
    ofNat_eq (b := x) (by omega)]
  rfl

/-- The second byte is narrowed exactly so that the number is not below `U+0800` and no
surrogate. -/
theorem encodeChar_of_three {b : UInt8} (h : 0xE0 ≤ b.toNat) (h' : b.toNat < 0xF0) {c : Char}
    {s rest : Bytes}
    (hc : follow 2 (if b.toNat = 0xE0 then 0xA0 else 0x80) (if b.toNat = 0xED then 0x9F else 0xBF)
      (b.toNat - 0xE0) s = (.char c, rest)) :
    b :: s = String.utf8EncodeChar c ++ rest := by
  obtain ⟨x, s, rfl, hx, hx', hc⟩ := exists_of_follow_char hc
  obtain ⟨y, s, rfl, hy, hy', hc⟩ := exists_of_follow_char hc
  obtain ⟨hchar, hrest⟩ := eq_of_follow_zero hc
  have hy : 0x80 ≤ y.toNat ∧ y.toNat ≤ 0xBF := ⟨hy, hy'⟩
  have hleast : 0x80 ≤ x.toNat ∧ (b.toNat = 0xE0 → 0xA0 ≤ x.toNat) :=
    least_le_of_narrowed (by decide) hx
  have hgreatest : x.toNat ≤ 0xBF ∧ (b.toNat = 0xED → x.toNat ≤ 0x9F) :=
    le_greatest_of_narrowed (by decide) hx'
  rw [hchar, hrest, encodeChar_three (by omega) (by omega) (by omega),
    ofNat_eq (b := b) (by omega), ofNat_eq (b := x) (by omega),
    ofNat_eq (b := y) (by omega)]
  rfl

theorem encodeChar_of_four {b : UInt8} (h : 0xF0 ≤ b.toNat) (h' : b.toNat < 0xF5) {c : Char}
    {s rest : Bytes}
    (hc : follow 3 (if b.toNat = 0xF0 then 0x90 else 0x80) (if b.toNat = 0xF4 then 0x8F else 0xBF)
      (b.toNat - 0xF0) s = (.char c, rest)) :
    b :: s = String.utf8EncodeChar c ++ rest := by
  obtain ⟨x, s, rfl, hx, hx', hc⟩ := exists_of_follow_char hc
  obtain ⟨y, s, rfl, hy, hy', hc⟩ := exists_of_follow_char hc
  obtain ⟨z, s, rfl, hz, hz', hc⟩ := exists_of_follow_char hc
  obtain ⟨hchar, hrest⟩ := eq_of_follow_zero hc
  have hy : 0x80 ≤ y.toNat ∧ y.toNat ≤ 0xBF := ⟨hy, hy'⟩
  have hz : 0x80 ≤ z.toNat ∧ z.toNat ≤ 0xBF := ⟨hz, hz'⟩
  have hleast : 0x80 ≤ x.toNat ∧ (b.toNat = 0xF0 → 0x90 ≤ x.toNat) :=
    least_le_of_narrowed (by decide) hx
  have hgreatest : x.toNat ≤ 0xBF ∧ (b.toNat = 0xF4 → x.toNat ≤ 0x8F) :=
    le_greatest_of_narrowed (by decide) hx'
  rw [hchar, hrest, encodeChar_four (by omega) (by omega), ofNat_eq (b := b) (by omega),
    ofNat_eq (b := x) (by omega), ofNat_eq (b := y) (by omega),
    ofNat_eq (b := z) (by omega)]
  rfl

/-- What is read as a character are the bytes of that character. -/
theorem encodeChar_of_next {b : UInt8} {c : Char} {s rest : Bytes}
    (h : next b s = (.char c, rest)) : b :: s = String.utf8EncodeChar c ++ rest := by
  rw [next] at h
  split at h
  · next hlow =>
      have hlow : b.toNat < 0x80 := UInt8.lt_iff_toNat_lt.1 hlow
      have hwhole : follow 0 0x80 0xBF b.toNat s = (.char c, rest) := h
      obtain ⟨rfl, rfl⟩ := eq_of_follow_zero hwhole
      rw [encodeChar_one hlow, UInt8.ofNat_toNat]
      rfl
  · split at h
    · cases h
    · next l hl =>
        rcases lead?_cases hl with ⟨hb, hb', rfl⟩ | ⟨hb, hb', rfl⟩ | ⟨hb, hb', rfl⟩
        · exact encodeChar_of_two hb hb' h
        · exact encodeChar_of_three hb hb' h
        · exact encodeChar_of_four hb hb' h

theorem eq_of_pieces {s : Bytes} {cs : List Char} (h : pieces s = cs.map .char) :
    s = cs.flatMap String.utf8EncodeChar := by
  induction cs generalizing s with
  | nil =>
      cases s with
      | nil => rfl
      | cons b rest =>
          rw [pieces_cons] at h
          cases h
  | cons c cs ih =>
      cases s with
      | nil =>
          rw [pieces_nil] at h
          cases h
      | cons b rest =>
          rw [pieces_cons, List.map_cons] at h
          obtain ⟨hfirst, hrest⟩ := List.cons.inj h
          have hnext : next b rest = (.char c, (next b rest).2) := Prod.ext hfirst rfl
          rw [encodeChar_of_next hnext, ih hrest]
          rfl

theorem eq_map_char_of_all {found : List Piece}
    (h : (found.map Piece.char?).all Option.isSome = true) :
    found = ((found.map Piece.char?).filterMap id).map .char := by
  induction found with
  | nil => rfl
  | cons p found ih =>
      rw [List.map_cons, List.all_cons, Bool.and_eq_true] at h
      cases p with
      | damaged => cases h.1
      | char c => exact congrArg (Piece.char c :: ·) (ih h.2)

/-- Strict decoding accepts bytes exactly as the form of a text. -/
theorem decode?_eq_some_iff {s : Bytes} {text : String} :
    decode? s = some text ↔ encode text = s := by
  constructor
  · intro h
    rw [decode?] at h
    obtain ⟨hall, htext⟩ := Option.ite_none_right_eq_some.1 h
    have hchars := eq_of_pieces (eq_map_char_of_all hall)
    rw [← Option.some.inj htext, encode, String.toList_ofList, ← hchars]
  · rintro rfl
    exact decode?_encode text

end TopicWatch.Utf8
