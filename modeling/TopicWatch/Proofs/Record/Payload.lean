import Mathlib.Algebra.Group.Nat.Defs
import TopicWatch.Proofs.Json.Consumption
import TopicWatch.Proofs.Json.Form

/-!
# The text of a payload

What a payload text looks like, said without reading or writing it: letters of the alphabet in
groups of four, the last of which may end with padding in place of bits that are not there. A
text is the payload of something exactly if it looks like that, and then of one thing only.
-/

namespace TopicWatch

open Json

namespace Base64

/-- The letters in the order of their values. -/
def alphabet : List Char :=
  (List.range' 0x41 26 ++ List.range' 0x61 26 ++ List.range' 0x30 10).map Char.ofNat ++ ['+', '/']

/-- Letters and the number of characters of padding after them that make a canonical text.
Padding fills up the last group, and the last letter before it has zeros in its lowest bits, two
for each character of padding. -/
structure Canonical (letters : List Char) (pads : Nat) : Prop where
  inAlphabet : ∀ c ∈ letters, c ∈ alphabet
  pads_le : pads ≤ 2
  inGroups : 4 ∣ letters.length + pads
  spareBits : ∀ c ∈ letters.getLast?, 4 ^ pads ∣ alphabet.idxOf c

/-- How many characters of padding the text of a byte string ends with. -/
def padsOf (s : Bytes) : Nat := (3 - s.length % 3) % 3

theorem alphabet_eq : alphabet = (List.range 64).map letter := by
  decide

theorem mem_alphabet_iff {c : Char} : c ∈ alphabet ↔ ∃ n < 64, letter n = c := by
  simp only [alphabet_eq, List.mem_map, List.mem_range]

theorem letter_mem_alphabet {n : Nat} (h : n < 64) : letter n ∈ alphabet :=
  mem_alphabet_iff.2 ⟨n, h, rfl⟩

theorem idxOf_letter {n : Nat} (h : n < 64) : alphabet.idxOf (letter n) = n := by
  revert n
  decide

theorem value?_of_mem_alphabet (c : Char) (h : c ∈ alphabet) :
    value? c = some (alphabet.idxOf c) := by
  obtain ⟨n, hn, rfl⟩ := mem_alphabet_iff.1 h
  rw [value?_letter hn, idxOf_letter hn]

theorem ne_pad_of_mem_alphabet (c : Char) (h : c ∈ alphabet) : c ≠ '=' := by
  obtain ⟨n, hn, rfl⟩ := mem_alphabet_iff.1 h
  exact letter_ne_pad hn

/-- A canonical text goes on as one after four letters. -/
theorem canonical_cons₄ {w x y z : Char} {letters : List Char} {pads : Nat} :
    Canonical (w :: x :: y :: z :: letters) pads ↔
      (∀ c ∈ [w, x, y, z], c ∈ alphabet) ∧ Canonical letters pads := by
  have hlength : (w :: x :: y :: z :: letters).length + pads = letters.length + pads + 4 := by
    simp only [List.length_cons]
    omega
  -- the last letter is the same, unless no padding can follow
  have hspare : ∀ n ≤ 2, 4 ∣ letters.length + n →
      ((∀ c ∈ (w :: x :: y :: z :: letters).getLast?, 4 ^ n ∣ alphabet.idxOf c) ↔
        ∀ c ∈ letters.getLast?, 4 ^ n ∣ alphabet.idxOf c) := by
    intro n hle hdvd
    cases letters with
    | nil =>
        have hzero : n = 0 := by
          rw [List.length_nil, Nat.zero_add] at hdvd
          omega
        subst hzero
        simp
    | cons c letters => simp only [List.getLast?_cons_cons]
  constructor
  · intro h
    have hgroups : 4 ∣ letters.length + pads := by
      have hwhole := h.inGroups
      omega
    refine ⟨fun c hc => h.inAlphabet c ?_, fun c hc => h.inAlphabet c ?_, h.pads_le, hgroups,
      (hspare pads h.pads_le hgroups).1 h.spareBits⟩
    · exact List.mem_append_left letters hc
    · exact List.mem_append_right [w, x, y, z] hc
  · rintro ⟨hfour, h⟩
    refine ⟨fun c hc => ?_, h.pads_le, ?_, (hspare pads h.pads_le h.inGroups).2 h.spareBits⟩
    · rcases List.mem_append.1 (show c ∈ [w, x, y, z] ++ letters from hc) with hc | hc
      · exact hfour c hc
      · exact h.inAlphabet c hc
    · have hrest := h.inGroups
      omega

theorem mem_alphabet_of_mem_group {a b c : UInt8} {x : Char} (h : x ∈ group a b c) :
    x ∈ alphabet := by
  have ha := a.toNat_lt
  have hb := b.toNat_lt
  have hc := c.toNat_lt
  simp only [group, List.mem_cons, List.not_mem_nil, or_false] at h
  rcases h with rfl | rfl | rfl | rfl
  all_goals exact letter_mem_alphabet (by omega)

/-- Letters are canonical by their values. -/
theorem canonical_letters {values : List Nat} {pads : Nat} (hlt : ∀ n ∈ values, n < 64)
    (hpads : pads ≤ 2) (hgroups : 4 ∣ values.length + pads)
    (hspare : ∀ n ∈ values.getLast?, 4 ^ pads ∣ n) : Canonical (values.map letter) pads := by
  refine ⟨?_, hpads, by rwa [List.length_map], ?_⟩
  · intro c hc
    obtain ⟨n, hn, rfl⟩ := List.mem_map.1 hc
    exact letter_mem_alphabet (hlt n hn)
  · intro c hc
    rw [List.getLast?_map] at hc
    obtain ⟨n, hn, rfl⟩ := Option.map_eq_some_iff.1 hc
    rw [idxOf_letter (hlt n (List.mem_of_getLast? hn))]
    exact hspare n hn

/-- The letters of one last byte: the second one has four bits to spare. -/
theorem canonical_one (a : UInt8) :
    Canonical [letter (a.toNat / 4), letter (a.toNat % 4 * 16)] 2 := by
  have hlt : ∀ n ∈ [a.toNat / 4, a.toNat % 4 * 16], n < 64 := by
    have ha := a.toNat_lt
    intro n hn
    simp only [List.mem_cons, List.not_mem_nil, or_false] at hn
    omega
  refine canonical_letters hlt (Nat.le_refl 2) (Nat.dvd_refl 4) fun n hn => ?_
  obtain rfl : a.toNat % 4 * 16 = n := Option.some.inj hn
  exact Nat.dvd_mul_left 16 _

/-- The letters of two last bytes: the third one has two bits to spare. -/
theorem canonical_two (a b : UInt8) :
    Canonical [letter (a.toNat / 4), letter (a.toNat % 4 * 16 + b.toNat / 16),
      letter (b.toNat % 16 * 4)] 1 := by
  have hlt : ∀ n ∈ [a.toNat / 4, a.toNat % 4 * 16 + b.toNat / 16, b.toNat % 16 * 4], n < 64 := by
    have ha := a.toNat_lt
    have hb := b.toNat_lt
    intro n hn
    simp only [List.mem_cons, List.not_mem_nil, or_false] at hn
    omega
  refine canonical_letters hlt (by decide) (Nat.dvd_refl 4) fun n hn => ?_
  obtain rfl : b.toNat % 16 * 4 = n := Option.some.inj hn
  exact Nat.dvd_mul_left 4 _

/-- What is written is canonical, with padding by the length of what it is written from. -/
theorem canonical_writeAfter (s : Bytes) :
    ∃ letters, writeAfter [] s = letters ++ List.replicate (padsOf s) '=' ∧
      Canonical letters (padsOf s) := by
  induction h : s.length using Nat.strongRecOn generalizing s with
  | ind n ih =>
      match s, h with
      | [], _ => exact ⟨[], rfl, ⟨by simp, by decide, by decide, by simp⟩⟩
      | [a], _ => exact ⟨_, rfl, canonical_one a⟩
      | [a, b], _ => exact ⟨_, rfl, canonical_two a b⟩
      | a :: b :: c :: rest, h =>
          have hlt : rest.length < n := by
            simp only [List.length_cons] at h
            omega
          have hpads : padsOf (a :: b :: c :: rest) = padsOf rest := by
            simp only [padsOf, List.length_cons]
            omega
          obtain ⟨letters, hwritten, hcanonical⟩ := ih _ hlt rest rfl
          refine ⟨group a b c ++ letters, ?_, ?_⟩
          · rw [writeAfter_cons₃, hwritten, hpads, List.append_assoc]
          · rw [hpads]
            exact canonical_cons₄.2 ⟨fun _ => mem_alphabet_of_mem_group, hcanonical⟩

/-- A last group whose spare bits are zero is read. -/
theorem isSome_unpad?_one {w x : Char} (h : Canonical [w, x] 2) : (unpad? w x '=').isSome := by
  have hspare : 16 ∣ alphabet.idxOf x := h.spareBits x rfl
  have hw := value?_of_mem_alphabet w (h.inAlphabet w (by simp))
  have hx := value?_of_mem_alphabet x (h.inAlphabet x (by simp))
  simp only [unpad?, hw, hx, Option.bind_eq_bind, Option.bind_some, if_true]
  rw [if_pos (Nat.mod_eq_zero_of_dvd hspare)]
  rfl

theorem isSome_unpad?_two {w x y : Char} (h : Canonical [w, x, y] 1) :
    (unpad? w x y).isSome := by
  have hspare : 4 ∣ alphabet.idxOf y := h.spareBits y rfl
  have hw := value?_of_mem_alphabet w (h.inAlphabet w (by simp))
  have hx := value?_of_mem_alphabet x (h.inAlphabet x (by simp))
  have hy := h.inAlphabet y (by simp)
  simp only [unpad?, hw, hx, value?_of_mem_alphabet y hy, Option.bind_eq_bind, Option.bind_some]
  rw [if_neg (ne_pad_of_mem_alphabet y hy), if_pos (Nat.mod_eq_zero_of_dvd hspare)]
  rfl

theorem exists_ungroup? {w x y z : Char} (h : ∀ c ∈ [w, x, y, z], c ∈ alphabet) :
    ∃ bytes, ungroup? w x y z = some bytes := by
  have hw := value?_of_mem_alphabet w (h w (by simp))
  have hx := value?_of_mem_alphabet x (h x (by simp))
  have hy := value?_of_mem_alphabet y (h y (by simp))
  have hz := value?_of_mem_alphabet z (h z (by simp))
  simp only [ungroup?, hw, hx, hy, hz, Option.bind_eq_bind, Option.bind_some]
  exact ⟨_, rfl⟩

/-- A canonical text is read. -/
theorem isSome_readAfter? {letters : List Char} {pads : Nat} (h : Canonical letters pads)
    (read : Bytes) : (readAfter? read (letters ++ List.replicate pads '=')).isSome := by
  induction hlen : letters.length using Nat.strongRecOn generalizing letters read with
  | ind n ih =>
      have hle := h.pads_le
      -- fewer than four letters need just the padding that fills up their group
      match letters, hlen with
      | [], _ =>
          have hgroups : 4 ∣ 0 + pads := h.inGroups
          obtain rfl : pads = 0 := by omega
          rfl
      | [_], _ =>
          have hgroups : 4 ∣ 1 + pads := h.inGroups
          omega
      | [w, x], _ =>
          have hgroups : 4 ∣ 2 + pads := h.inGroups
          obtain rfl : pads = 2 := by omega
          exact (Option.isSome_map ..).trans (isSome_unpad?_one h)
      | [w, x, y], _ =>
          have hgroups : 4 ∣ 3 + pads := h.inGroups
          obtain rfl : pads = 1 := by omega
          exact (Option.isSome_map ..).trans (isSome_unpad?_two h)
      | w :: x :: y :: z :: rest, hlen =>
          obtain ⟨hfour, hrest⟩ := canonical_cons₄.1 h
          obtain ⟨bytes, hbytes⟩ := exists_ungroup? hfour
          have hlt : rest.length < n := by
            simp only [List.length_cons] at hlen
            omega
          simp only [List.cons_append]
          rw [readAfter?_group (ne_pad_of_mem_alphabet z (hfour z (by simp))) hbytes]
          exact ih _ hlt hrest _ rfl

/-- A text is read exactly if it is canonical. -/
theorem isSome_decode?_iff {text : String} :
    (decode? text).isSome ↔
      ∃ letters pads, text.toList = letters ++ List.replicate pads '=' ∧ Canonical letters pads := by
  constructor
  · intro h
    obtain ⟨s, hs⟩ := Option.isSome_iff_exists.1 h
    obtain ⟨letters, hwritten, hcanonical⟩ := canonical_writeAfter s
    refine ⟨letters, padsOf s, ?_, hcanonical⟩
    rw [← decode?_eq_some_iff.1 hs, encode, String.toList_ofList, hwritten]
  · rintro ⟨letters, pads, htext, hcanonical⟩
    rw [decode?, htext]
    exact isSome_readAfter? hcanonical []

end Base64

namespace Json.Form

variable {α β : Type} {f : α → Option β} {step : Step α}

theorem accept_eq_ok_iff {b : β} {rest : Bytes} :
    accept f step = .ok (b, rest) ↔ ∃ a, step = .ok (a, rest) ∧ f a = some b := by
  constructor
  · exact exists_of_accept
  · rintro ⟨a, rfl, hb⟩
    rw [accept, hb]

theorem accept_eq_error_iff {e : Fault} :
    accept f step = .error e ↔
      step = .error e ∨ e = .unsuitable ∧ ∃ a rest, step = .ok (a, rest) ∧ f a = none := by
  cases step with
  | error e' => simp [accept]
  | ok p =>
      obtain ⟨a, rest⟩ := p
      cases hf : f a with
      | none => simp [accept, hf, eq_comm]
      | some b => simp [accept, hf]

/-- The text of a payload is canonical. A payload is read back from its text, and a text that
is read is the one that the payload is written as, so no two texts stand for one payload. The
texts that are read are those that look canonical: of letters in groups of four, the last group
filled up with one or two characters of padding, and no bit set that belongs to none of the
bytes. This is so for the payload of a record, wherever it is read: where a string of JSON
stands for a payload it is the one that the payload is written as, and every other string is
refused as unsuitable. -/
theorem payload_text_canonical :
    (∀ s, Base64.decode? (Base64.encode s) = some s) ∧
      (∀ text s, Base64.decode? text = some s ↔ Base64.encode s = text) ∧
      (∀ text, (Base64.decode? text).isSome ↔
        ∃ letters pads, text.toList = letters ++ List.replicate pads '=' ∧
          Base64.Canonical letters pads) ∧
      (∀ text text', (∃ s, Base64.decode? text = some s ∧ Base64.decode? text' = some s) ↔
        text = text' ∧ (Base64.decode? text).isSome) ∧
      (∀ s, bytes.decode (bytes.encode s) = .ok s) ∧
      (∀ v s, bytes.fromValue v = some s ↔ bytes.toValue s = v) ∧
      (∀ l t s rest, bytes.fromText l t = .ok (s, rest) ↔
        text.fromText l t = .ok (Base64.encode s, rest)) ∧
      ∀ l t e, bytes.fromText l t = .error e ↔
        text.fromText l t = .error e ∨
          e = .unsuitable ∧ ∃ written rest, text.fromText l t = .ok (written, rest) ∧
            ¬∃ s, Base64.encode s = written := by
  have hread : ∀ written s, Base64.decode? written = some s ↔ Base64.encode s = written :=
    fun _ _ => Base64.decode?_eq_some_iff
  refine ⟨Base64.decode?_encode, hread, fun _ => Base64.isSome_decode?_iff, ?_,
    faithful_bytes.decode_encode (Nat.zero_le _), ?_, ?_, ?_⟩
  · intro written written'
    constructor
    · rintro ⟨s, hs, hs'⟩
      refine ⟨?_, Option.isSome_iff_exists.2 ⟨s, hs⟩⟩
      rw [← (hread written s).1 hs, (hread written' s).1 hs']
    · rintro ⟨rfl, hsome⟩
      obtain ⟨s, hs⟩ := Option.isSome_iff_exists.1 hsome
      exact ⟨s, hs, hs⟩
  · intro v s
    cases v with
    | text written =>
        show Base64.decode? written = some s ↔ Value.text (Base64.encode s) = .text written
        rw [hread, Value.text.injEq]
    | null | bool | number | array | object => exact ⟨nofun, nofun⟩
  · intro l t s rest
    show accept Base64.decode? (text.fromText l t) = _ ↔ _
    rw [accept_eq_ok_iff]
    constructor
    · rintro ⟨written, hwritten, hs⟩
      rwa [(hread written s).1 hs]
    · intro hwritten
      exact ⟨_, hwritten, Base64.decode?_encode s⟩
  · intro l t e
    show accept Base64.decode? (text.fromText l t) = _ ↔ _
    simp only [accept_eq_error_iff, Option.eq_none_iff_forall_ne_some, ne_eq, hread, not_exists]

/-- Of the texts of one byte only the one whose spare bits are zero is read, and it must have
all of its padding. -/
example :
    Base64.decode? "QQ==" = some [0x41] ∧ Base64.decode? "QR==" = none ∧
      Base64.decode? "QQ=" = none ∧ Base64.decode? "QQ" = none := by
  decide

end Json.Form

end TopicWatch
