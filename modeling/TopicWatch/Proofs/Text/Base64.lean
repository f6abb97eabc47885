import TopicWatch.Proofs.Text.Utf8
import TopicWatch.Text.Base64

/-!
# Bytes survive their base64 text

Six bits and their letter determine each other, so every group is read back, and the padded
last group with it. The other way round, a group that is read is what its bytes are written
as, so nothing is accepted but what is written.
-/

namespace TopicWatch.Base64

open Utf8 (ofNat_eq)

theorem value?_letter {n : Nat} (h : n < 64) : value? (letter n) = some n := by
  revert n
  decide

theorem letter_ne_pad {n : Nat} (h : n < 64) : letter n ≠ '=' := by
  intro heq
  have hval := value?_letter h
  have hnone : value? '=' = none := by decide
  rw [heq, hnone] at hval
  exact absurd hval (by simp)

theorem ungroup?_group (a b c : UInt8) :
    ungroup? (letter (a.toNat / 4)) (letter (a.toNat % 4 * 16 + b.toNat / 16))
      (letter (b.toNat % 16 * 4 + c.toNat / 64)) (letter (c.toNat % 64)) = some [a, b, c] := by
  have ha := a.toNat_lt
  have hb := b.toNat_lt
  have hc := c.toNat_lt
  rw [ungroup?, value?_letter (by omega), value?_letter (by omega), value?_letter (by omega),
    value?_letter (by omega)]
  simp only [Option.bind_eq_bind, Option.bind_some, Option.some.injEq, List.cons.injEq, and_true]
  exact ⟨ofNat_eq (by omega), ofNat_eq (by omega), ofNat_eq (by omega)⟩

theorem unpad?_one (a : UInt8) :
    unpad? (letter (a.toNat / 4)) (letter (a.toNat % 4 * 16)) '=' = some [a] := by
  have ha := a.toNat_lt
  rw [unpad?, value?_letter (by omega), value?_letter (by omega)]
  simp only [Option.bind_eq_bind, Option.bind_some, if_true]
  rw [if_pos (by omega), ofNat_eq (b := a) (by omega)]

theorem unpad?_two (a b : UInt8) :
    unpad? (letter (a.toNat / 4)) (letter (a.toNat % 4 * 16 + b.toNat / 16))
      (letter (b.toNat % 16 * 4)) = some [a, b] := by
  have ha := a.toNat_lt
  have hb := b.toNat_lt
  rw [unpad?, value?_letter (by omega), value?_letter (by omega), value?_letter (by omega)]
  simp only [Option.bind_eq_bind, Option.bind_some]
  rw [if_neg (letter_ne_pad (by omega)), if_pos (by omega), ofNat_eq (b := a) (by omega),
    ofNat_eq (b := b) (by omega)]

theorem readAfter?_group {z : Char} (hz : z ≠ '=') {w x y : Char} {bytes : Bytes}
    (h : ungroup? w x y z = some bytes) (read : Bytes) (rest : List Char) :
    readAfter? read (w :: x :: y :: z :: rest) = readAfter? (bytes.reverse ++ read) rest := by
  rw [readAfter?, h]
  intro heq
  exact absurd heq hz

theorem readAfter?_writeAfter (s : Bytes) (read : Bytes) :
    readAfter? read (writeAfter [] s) = some (read.reverse ++ s) := by
  induction h : s.length using Nat.strongRecOn generalizing s read with
  | ind n ih =>
      match s, h with
      | [], _ => simp [writeAfter, readAfter?]
      | [a], _ => simp [writeAfter, readAfter?, unpad?_one]
      | [a, b], _ => simp [writeAfter, readAfter?, unpad?_two]
      | a :: b :: c :: rest, h =>
          have hlt : rest.length < n := by
            simp only [List.length_cons] at h
            omega
          rw [writeAfter_cons₃, group]
          simp only [List.cons_append, List.nil_append]
          rw [readAfter?_group (letter_ne_pad (Nat.mod_lt _ (by decide))) (ungroup?_group a b c),
            ih _ hlt rest _ rfl]
          simp

theorem decode?_encode (s : Bytes) : decode? (encode s) = some s := by
  rw [decode?, encode, String.toList_ofList, readAfter?_writeAfter]
  rfl

theorem toNat_lt_of_value? {c : Char} {n : Nat} (h : value? c = some n) : c.toNat < 128 := by
  have hrange : ∀ {greatest : Char}, c ≤ greatest → greatest.toNat < 128 → c.toNat < 128 :=
    fun hle hlt => Nat.lt_of_le_of_lt (UInt32.le_iff_toNat_le.1 hle) hlt
  rw [value?] at h
  split at h
  · next hupper => exact hrange hupper.2 (by decide)
  · split at h
    · next hlower => exact hrange hlower.2 (by decide)
    · split at h
      · next hdigit => exact hrange hdigit.2 (by decide)
      · split at h
        · next hplus => exact hplus ▸ (by decide)
        · split at h
          · next hslash => exact hslash ▸ (by decide)
          · cases h

/-- A character that has a value is the letter of that value. -/
theorem letter_of_value? {c : Char} {n : Nat} (h : value? c = some n) :
    n < 64 ∧ letter n = c := by
  have hascii : ∀ m < 128, ∀ n ∈ value? (Char.ofNat m), n < 64 ∧ letter n = Char.ofNat m := by
    decide
  have hc := hascii c.toNat (toNat_lt_of_value? h) n
  rw [Char.ofNat_toNat] at hc
  exact hc h

/-- A full group that is read is the one that its three bytes are written as. -/
theorem group_of_ungroup? {w x y z : Char} {bytes : Bytes} (h : ungroup? w x y z = some bytes) :
    ∃ a b c, bytes = [a, b, c] ∧ group a b c = [w, x, y, z] := by
  simp only [ungroup?, Option.bind_eq_bind, Option.bind_eq_some_iff, Option.some.injEq] at h
  obtain ⟨p, hp, q, hq, r, hr, s, hs, rfl⟩ := h
  obtain ⟨hp, rfl⟩ := letter_of_value? hp
  obtain ⟨hq, rfl⟩ := letter_of_value? hq
  obtain ⟨hr, rfl⟩ := letter_of_value? hr
  obtain ⟨hs, rfl⟩ := letter_of_value? hs
  have hfirst : (UInt8.ofNat (p * 4 + q / 16)).toNat = p * 4 + q / 16 :=
    Utf8.toNat_ofNat_of_lt (by omega)
  have hsecond : (UInt8.ofNat (q % 16 * 16 + r / 4)).toNat = q % 16 * 16 + r / 4 :=
    Utf8.toNat_ofNat_of_lt (by omega)
  have hthird : (UInt8.ofNat (r % 4 * 64 + s)).toNat = r % 4 * 64 + s :=
    Utf8.toNat_ofNat_of_lt (by omega)
  refine ⟨_, _, _, rfl, ?_⟩
  rw [group, hfirst, hsecond, hthird, show (p * 4 + q / 16) / 4 = p by omega,
    show (p * 4 + q / 16) % 4 * 16 + (q % 16 * 16 + r / 4) / 16 = q by omega,
    show (q % 16 * 16 + r / 4) % 16 * 4 + (r % 4 * 64 + s) / 64 = r by omega,
    show (r % 4 * 64 + s) % 64 = s by omega]

/-- A padded group that is read is what its one or two bytes are written as. -/
theorem writeAfter_of_unpad? {w x y : Char} {bytes : Bytes} (h : unpad? w x y = some bytes) :
    writeAfter [] bytes = [w, x, y, '='] := by
  simp only [unpad?, Option.bind_eq_bind, Option.bind_eq_some_iff] at h
  obtain ⟨p, hp, q, hq, h⟩ := h
  obtain ⟨hp, rfl⟩ := letter_of_value? hp
  obtain ⟨hq, rfl⟩ := letter_of_value? hq
  have hfirst : (UInt8.ofNat (p * 4 + q / 16)).toNat = p * 4 + q / 16 :=
    Utf8.toNat_ofNat_of_lt (by omega)
  split at h
  · next hpad =>
      obtain ⟨hspare, hbytes⟩ := Option.ite_none_right_eq_some.1 h
      obtain rfl := Option.some.inj hbytes
      rw [writeAfter, hfirst, hpad, show (p * 4 + q / 16) / 4 = p by omega,
        show (p * 4 + q / 16) % 4 * 16 = q by omega]
      rfl
  · obtain ⟨r, hr, hbytes⟩ := Option.bind_eq_some_iff.1 h
    obtain ⟨hr, rfl⟩ := letter_of_value? hr
    obtain ⟨hspare, hbytes⟩ := Option.ite_none_right_eq_some.1 hbytes
    obtain rfl := Option.some.inj hbytes
    have hsecond : (UInt8.ofNat (q % 16 * 16 + r / 4)).toNat = q % 16 * 16 + r / 4 :=
      Utf8.toNat_ofNat_of_lt (by omega)
    rw [writeAfter, hfirst, hsecond, show (p * 4 + q / 16) / 4 = p by omega,
      show (p * 4 + q / 16) % 4 * 16 + (q % 16 * 16 + r / 4) / 16 = q by omega,
      show (q % 16 * 16 + r / 4) % 16 * 4 = r by omega]
    rfl

/-- What is read of a text is written as that text. -/
theorem exists_of_readAfter? {read bytes : Bytes} {cs : List Char}
    (h : readAfter? read cs = some bytes) :
    ∃ s, bytes = read.reverse ++ s ∧ writeAfter [] s = cs := by
  fun_induction readAfter? read cs with
  | case1 read =>
      obtain rfl := Option.some.inj h
      exact ⟨[], (List.append_nil _).symm, rfl⟩
  | case2 read w x y =>
      obtain ⟨s, hs, rfl⟩ := Option.map_eq_some_iff.1 h
      exact ⟨s, rfl, writeAfter_of_unpad? hs⟩
  | case3 read w x y z rest _ group hgroup ih =>
      obtain ⟨a, b, c, rfl, hwritten⟩ := group_of_ungroup? hgroup
      obtain ⟨s, rfl, hs⟩ := ih h
      refine ⟨a :: b :: c :: s, by simp, ?_⟩
      rw [writeAfter_cons₃, hwritten, hs]
      rfl
  | case4 => cases h
  | case5 => cases h

/-- Reading accepts a text exactly as what it is written from. -/
theorem decode?_eq_some_iff {text : String} {s : Bytes} :
    decode? text = some s ↔ encode s = text := by
  constructor
  · intro h
    obtain ⟨s', rfl, hwritten⟩ := exists_of_readAfter? h
    exact (congrArg String.ofList hwritten).trans text.ofList_toList
  · rintro rfl
    exact decode?_encode s

end TopicWatch.Base64
