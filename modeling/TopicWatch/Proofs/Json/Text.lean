import TopicWatch.Json.Token
import TopicWatch.Json.Writer
import TopicWatch.Proofs.Json.Cut
import TopicWatch.Proofs.Text.Utf8

/-!
# Strings survive their JSON form

Reading the escape of a character has the same effect as reading the UTF-8 bytes of the
character, so the bytes between the quotes of a written string are the UTF-8 form of it. A
string that breaks off, be it within an escape or a character, is unfinished.
-/

namespace TopicWatch.Json

/-- A byte that stands for itself within a string. -/
def IsPlain (b : UInt8) : Prop := 0x20 ≤ b.toNat ∧ b ≠ 0x22 ∧ b ≠ 0x5C

theorem textAfter_plain {b : UInt8} (hb : IsPlain b) (read s : Bytes) :
    textAfter read none (b :: s) = textAfter (b :: read) none s := by
  obtain ⟨hlow, hquote, hslash⟩ := hb
  have hcontrol : ¬b < 0x20 := by
    rw [UInt8.lt_iff_toNat_lt]
    exact Nat.not_lt.2 hlow
  rw [textAfter, if_neg (by simp), if_neg hquote, if_neg hcontrol]
  all_goals
    intros
    contradiction

theorem textAfter_plain_append {bs : Bytes} (hbs : ∀ b ∈ bs, IsPlain b) (read s : Bytes) :
    textAfter read none (bs ++ s) = textAfter (bs.reverse ++ read) none s := by
  induction bs generalizing read with
  | nil => rfl
  | cons b bs ih =>
      obtain ⟨hb, hrest⟩ := List.forall_mem_cons.1 hbs
      rw [List.cons_append, textAfter_plain hb, ih hrest]
      simp

theorem textAfter_short {e x : UInt8} (h : shortEscape? e = some x) (read s : Bytes) :
    textAfter read none (0x5C :: e :: s) = textAfter (x :: read) none s := by
  have hne : e ≠ 0x75 := by
    rintro rfl
    have hnone : shortEscape? 0x75 = none := by decide
    rw [hnone] at h
    exact absurd h (by simp)
  rw [textAfter, if_neg hne, h]
  · rfl
  · intro a b c d rest heq
    exact absurd heq hne

theorem textAfter_unit {a b c d : UInt8} {ch : Char} {n : Nat} (h : hexFour? a b c d = some n)
    (hunit : Unit16.of none n = .char ch) (read s : Bytes) :
    textAfter read none (0x5C :: 0x75 :: a :: b :: c :: d :: s) =
      textAfter ((String.utf8EncodeChar ch).reverse ++ read) none s := by
  rw [textAfter, h]
  simp only [hunit]

theorem hexDigit?_hexByte {n : Nat} (h : n < 16) : Ascii.hexDigit? (hexByte n) = some n := by
  revert n
  decide

theorem isPlain_of_mem_encodeChar {c : Char} (hlow : ' ' ≤ c) (hquote : c ≠ '"')
    (hslash : c ≠ '\\') {b : UInt8} (h : b ∈ String.utf8EncodeChar c) : IsPlain b := by
  have hspace : 0x20 ≤ c.toNat := hlow
  have hne (x : Char) (hx : c ≠ x) : c.toNat ≠ x.toNat := fun heq => hx (Char.toNat_inj.1 heq)
  have hquote' : c.toNat ≠ 0x22 := hne _ hquote
  have hslash' : c.toNat ≠ 0x5C := hne _ hslash
  refine ⟨?_, ?_, ?_⟩
  · rcases Utf8.mem_encodeChar h with heq | hgt <;> omega
  · rintro rfl
    rcases Utf8.mem_encodeChar h with heq | hgt
    · exact hquote' heq.symm
    · exact absurd hgt (by decide)
  · rintro rfl
    rcases Utf8.mem_encodeChar h with heq | hgt
    · exact hslash' heq.symm
    · exact absurd hgt (by decide)

theorem hexFour?_control {c : Char} (h : c < ' ') :
    hexFour? 0x30 0x30 (hexByte (c.toNat / 16)) (hexByte (c.toNat % 16)) = some c.toNat := by
  have hlt : c.toNat < 0x20 := h
  have hzero : Ascii.hexDigit? 0x30 = some 0 := by decide
  rw [hexFour?, hzero, hexDigit?_hexByte (by omega), hexDigit?_hexByte (by omega)]
  simp only [Option.bind_eq_bind, Option.bind_some, Option.some.injEq]
  omega

theorem textAfter_control {c : Char} (h : c < ' ') (read s : Bytes) :
    textAfter read none
        ([0x5C, 0x75, 0x30, 0x30, hexByte (c.toNat / 16), hexByte (c.toNat % 16)] ++ s) =
      textAfter ((String.utf8EncodeChar c).reverse ++ read) none s := by
  have hlt : c.toNat < 0x20 := h
  have hunit : Unit16.of none c.toNat = .char c := by
    rw [Unit16.of, if_neg (by omega), if_neg (by omega), Char.ofNat_toNat]
  exact textAfter_unit (hexFour?_control h) hunit read s

/-- An escaped character is read as its UTF-8 bytes. -/
theorem textAfter_escape (c : Char) (read s : Bytes) :
    textAfter read none (escape c ++ s) =
      textAfter ((String.utf8EncodeChar c).reverse ++ read) none s := by
  unfold escape
  split
  · exact textAfter_short rfl read s
  · exact textAfter_short rfl read s
  · exact textAfter_short rfl read s
  · exact textAfter_short rfl read s
  · exact textAfter_short rfl read s
  · exact textAfter_short rfl read s
  · exact textAfter_short rfl read s
  · next hquote hslash _ _ _ _ _ =>
      split
      · next hlt => exact textAfter_control hlt read s
      · next hge =>
          apply textAfter_plain_append
          intro b hb
          exact isPlain_of_mem_encodeChar (Char.not_lt.1 hge) hquote hslash hb

theorem textAfter_escapes (cs : List Char) (read s : Bytes) :
    textAfter read none (cs.flatMap escape ++ s) =
      textAfter ((cs.flatMap String.utf8EncodeChar).reverse ++ read) none s := by
  induction cs generalizing read with
  | nil => rfl
  | cons c cs ih =>
      rw [List.flatMap_cons, List.append_assoc, textAfter_escape, ih]
      simp

theorem textAfter_close (read s : Bytes) :
    textAfter read none (0x22 :: s) =
      match Utf8.decode? read.reverse with
      | some text => .ok (text, s)
      | none => .error .malformed := by
  unfold textAfter
  rfl

/-- A string is read back from its escaped characters and its closing quote. -/
theorem readText_escapes (text : String) (s : Bytes) :
    readText (text.toList.flatMap escape ++ 0x22 :: s) = .ok (text, s) := by
  have hbytes : ((text.toList.flatMap String.utf8EncodeChar).reverse ++ []).reverse =
      Utf8.encode text := by
    rw [List.append_nil, List.reverse_reverse]
    rfl
  rw [readText, textAfter_escapes, textAfter_close, hbytes, Utf8.decode?_encode]

/-! ## Strings that break off -/

theorem textAfter_nil (read : Bytes) (high : Option Nat) :
    textAfter read high [] = .error .unfinished := by
  unfold textAfter
  rfl

theorem textAfter_slash (read : Bytes) (high : Option Nat) :
    textAfter read high [0x5C] = .error .unfinished := by
  unfold textAfter
  rfl

/-- Fewer than four bytes after the `u` of an escape are not looked at. -/
theorem textAfter_unit_cut {digits : Bytes} (h : digits.length < 4) (read : Bytes)
    (high : Option Nat) :
    textAfter read high (0x5C :: 0x75 :: digits) = .error .unfinished := by
  match digits, h with
  | [], _ | [_], _ | [_, _], _ | [_, _, _], _ =>
      unfold textAfter
      rfl

theorem textAfter_escape_cut {c : Char} {t : Bytes} (h : Cut t (escape c)) (read : Bytes) :
    textAfter read none t = .error .unfinished := by
  have hshort : ∀ e, Cut t [0x5C, e] → textAfter read none t = .error .unfinished := by
    intro e h
    rcases h.cons with rfl | ⟨t', rfl, ht'⟩
    · exact textAfter_nil read none
    · rw [ht'.of_singleton]
      exact textAfter_slash read none
  unfold escape at h
  split at h
  · exact hshort _ h
  · exact hshort _ h
  · exact hshort _ h
  · exact hshort _ h
  · exact hshort _ h
  · exact hshort _ h
  · exact hshort _ h
  · next hquote hslash _ _ _ _ _ =>
      split at h
      · rcases h.cons with rfl | ⟨t', rfl, ht'⟩
        · exact textAfter_nil read none
        · rcases ht'.cons with rfl | ⟨digits, rfl, hdigits⟩
          · exact textAfter_slash read none
          · exact textAfter_unit_cut hdigits.length_lt read none
      · next hge =>
          -- the cut may be inside the character; its bytes are not put together before the end
          have hplain : ∀ b ∈ t, IsPlain b := fun b hb =>
            isPlain_of_mem_encodeChar (Char.not_lt.1 hge) hquote hslash (h.isPrefix.subset hb)
          have hread := textAfter_plain_append hplain read []
          rw [List.append_nil] at hread
          rw [hread, textAfter_nil]

/-- A string without its end is unfinished, wherever it breaks off. -/
theorem readText_cut {text : String} {t : Bytes}
    (h : Cut t (text.toList.flatMap escape ++ [0x22])) : readText t = .error .unfinished := by
  rw [readText]
  generalize text.toList = cs at h
  generalize ([] : Bytes) = read
  induction cs generalizing t read with
  | nil =>
      rw [h.of_singleton]
      exact textAfter_nil read none
  | cons c cs ih =>
      rw [List.flatMap_cons, List.append_assoc] at h
      rcases h.append with hc | ⟨t', rfl, ht'⟩
      · exact textAfter_escape_cut hc read
      · rw [textAfter_escape]
        exact ih ht' _

end TopicWatch.Json
