import TopicWatch.Json.Token
import TopicWatch.Json.Writer

/-!
# Integers survive their JSON form

The decimal digits of a natural number have no leading zero and add up to the number again.
A reader takes exactly these digits, provided that nothing after them continues a number.
-/

namespace TopicWatch.Json

/-- What cannot continue a number: neither a digit nor a point nor an exponent. -/
def EndsNumber (s : Bytes) : Prop :=
  ∀ c ∈ s.head?, Ascii.isDigit c = false ∧ c ≠ 0x2E ∧ c ≠ 0x65 ∧ c ≠ 0x45

/-- The decimal digits of a natural number. -/
def decimal (n : Nat) : Bytes := (Nat.toDigits 10 n).map fun c => UInt8.ofNat c.toNat

theorem toNat_of_isDigit {c : Char} (h : c.isDigit = true) : 48 ≤ c.toNat ∧ c.toNat ≤ 57 := by
  simp only [Char.isDigit, Bool.and_eq_true, decide_eq_true_eq] at h
  exact h

theorem mem_toDigits {n : Nat} {c : Char} (h : c ∈ Nat.toDigits 10 n) :
    48 ≤ c.toNat ∧ c.toNat ≤ 57 :=
  toNat_of_isDigit (Nat.isDigit_of_mem_toDigits (by decide) (by decide) h)

theorem encode_repr (n : Nat) : Utf8.encode (Nat.repr n) = decimal n := by
  rw [Utf8.encode, decimal, Nat.toList_repr]
  have hdigits : ∀ c ∈ Nat.toDigits 10 n, c.toNat < 0x80 := by
    intro c hc
    have := mem_toDigits hc
    omega
  generalize Nat.toDigits 10 n = cs at hdigits
  induction cs with
  | nil => rfl
  | cons c cs ih =>
      obtain ⟨hc, hcs⟩ := List.forall_mem_cons.1 hdigits
      have hone : String.utf8EncodeChar c = [UInt8.ofNat c.toNat] :=
        if_pos (show c.val.toNat ≤ 0x7F from Nat.le_of_lt_succ hc)
      rw [List.flatMap_cons, hone, ih hcs]
      rfl

theorem isDigit_of_mem_decimal {n : Nat} {b : UInt8} (h : b ∈ decimal n) :
    Ascii.isDigit b = true := by
  obtain ⟨c, hc, rfl⟩ := List.mem_map.1 h
  have hrange := mem_toDigits hc
  have hval : (UInt8.ofNat c.toNat).toNat = c.toNat := by
    simp [Nat.mod_eq_of_lt (show c.toNat < 256 by omega)]
  simp only [Ascii.isDigit, UInt8.le_iff_toNat_le, hval]
  exact decide_eq_true hrange

theorem ofDigits_decimal (n : Nat) : Ascii.ofDigits 10 ((decimal n).map Ascii.digit) = n := by
  have hfold : ∀ (cs : List Char), (∀ c ∈ cs, c.toNat ≤ 57) → ∀ start : Nat,
      ((cs.map fun c => UInt8.ofNat c.toNat).map Ascii.digit).foldl (fun m d => m * 10 + d) start =
        Nat.ofDigitChars 10 cs start := by
    intro cs hcs
    induction cs with
    | nil =>
        intro start
        simp
    | cons c cs ih =>
        intro start
        obtain ⟨hc, hrest⟩ := List.forall_mem_cons.1 hcs
        have hdigit : Ascii.digit (UInt8.ofNat c.toNat) = c.toNat - '0'.toNat := by
          simp [Ascii.digit, Nat.mod_eq_of_lt (show c.toNat < 256 by omega)]
        rw [List.map_cons, List.map_cons, List.foldl_cons, ih hrest, Nat.ofDigitChars_cons, hdigit,
          Nat.mul_comm start]
  rw [Ascii.ofDigits, decimal, hfold _ fun c hc => (mem_toDigits hc).2]
  exact Nat.ofDigitChars_ten_toDigits

theorem toDigits_head {n : Nat} (hn : 0 < n) : (Nat.toDigits 10 n).head? ≠ some '0' := by
  induction n using Nat.strongRecOn with
  | ind n ih =>
      by_cases hlt : n < 10
      · rw [Nat.toDigits_of_lt_base hlt]
        intro hzero
        have hchar : n.digitChar.toNat - 48 = 0 := by
          rw [Option.some.inj hzero]
          rfl
        rw [Nat.toNat_digitChar_sub_48_of_lt_ten hlt] at hchar
        omega
      · rw [Nat.toDigits_of_base_le (by decide) (by omega)]
        have hfront := ih (n / 10) (by omega) (by omega)
        cases hcs : Nat.toDigits 10 (n / 10) with
        | nil => exact absurd hcs Nat.toDigits_ne_nil
        | cons c cs =>
            rw [hcs] at hfront
            exact hfront

/-- A decimal number is zero or begins with a digit other than zero. -/
theorem decimal_cons (n : Nat) :
    ∃ c t, decimal n = c :: t ∧ Ascii.isDigit c = true ∧ (c = 0x30 → t = []) := by
  cases hcs : Nat.toDigits 10 n with
  | nil => exact absurd hcs Nat.toDigits_ne_nil
  | cons x xs =>
      have heq : decimal n = UInt8.ofNat x.toNat :: xs.map fun c => UInt8.ofNat c.toNat := by
        rw [decimal, hcs, List.map_cons]
      refine ⟨_, _, heq, isDigit_of_mem_decimal (heq ▸ List.mem_cons_self), ?_⟩
      intro hzero
      have hx : 48 ≤ x.toNat ∧ x.toNat ≤ 57 := mem_toDigits (hcs ▸ List.mem_cons_self)
      have hxzero : x = '0' := by
        have hval := congrArg UInt8.toNat hzero
        simp [Nat.mod_eq_of_lt (show x.toNat < 256 by omega)] at hval
        exact Char.toNat_inj.1 hval
      by_cases hn : n = 0
      · rw [hn, Nat.toDigits_zero] at hcs
        rw [← (List.cons.inj hcs).2]
        rfl
      · have hhead := toDigits_head (Nat.pos_of_ne_zero hn)
        rw [hcs, hxzero] at hhead
        exact absurd rfl hhead

theorem spanDigits_append {ds rest : Bytes} (hds : ∀ b ∈ ds, Ascii.isDigit b = true)
    (hrest : EndsNumber rest) : spanDigits (ds ++ rest) = (ds.map Ascii.digit, rest) := by
  have hstop : rest.takeWhile Ascii.isDigit = [] ∧ rest.dropWhile Ascii.isDigit = rest := by
    cases rest with
    | nil => exact ⟨rfl, rfl⟩
    | cons c t =>
        have hc := (hrest c rfl).1
        simp [hc]
  rw [spanDigits, List.takeWhile_append_of_pos hds, List.dropWhile_append_of_pos hds, hstop.1,
    hstop.2, List.append_nil]

theorem le_foldl_digits (ds : List Nat) (start : Nat) :
    start ≤ ds.foldl (fun n d => n * 10 + d) start := by
  induction ds generalizing start with
  | nil => exact Nat.le_refl _
  | cons d ds ih =>
      have h := ih (start * 10 + d)
      rw [List.foldl_cons]
      omega

theorem absorb_eq {ds : List Nat} {start : Nat}
    (h : ds.foldl (fun n d => n * 10 + d) start ≤ greatestSignificand) :
    absorb start ds = (ds.foldl (fun n d => n * 10 + d) start, []) := by
  induction ds generalizing start with
  | nil => rfl
  | cons d ds ih =>
      have hfirst := le_foldl_digits ds (start * 10 + d)
      rw [List.foldl_cons] at h
      rw [absorb, if_pos (Nat.le_trans hfirst h), ih h, List.foldl_cons]

/-- A decimal number that fits 64 bits is read as an integer, up to where it ends. -/
theorem readNumber_decimal (negative : Bool) {n : Nat} (hn : n ≤ greatestSignificand)
    {rest : Bytes} (hrest : EndsNumber rest) :
    readNumber negative (decimal n ++ rest) = integerOf negative n rest := by
  obtain ⟨c, t, heq, hdigit, hzero⟩ := decimal_cons n
  have hspan : spanDigits (decimal n ++ rest) = ((decimal n).map Ascii.digit, rest) :=
    spanDigits_append (fun b hb => isDigit_of_mem_decimal hb) hrest
  have hvalue := ofDigits_decimal n
  have habsorb : absorb 0 ((decimal n).map Ascii.digit) = (n, []) := by
    rw [Ascii.ofDigits] at hvalue
    rw [absorb_eq (by rw [hvalue]; exact hn), hvalue]
  have hlead : (c == 0x30 && (t ++ rest).head?.any Ascii.isDigit) = false := by
    rw [Bool.and_eq_false_iff]
    by_cases hc : c = 0x30
    · right
      rw [hzero hc, List.nil_append]
      cases hhead : rest.head? with
      | none => rfl
      | some b => exact (hrest b hhead).1
    · left
      exact beq_false_of_ne hc
  rw [heq, List.cons_append] at hspan ⊢
  rw [heq] at habsorb
  rw [readNumber, hdigit, hlead]
  simp only [Bool.not_true, Bool.or_false, Bool.false_eq_true, if_false, hspan, habsorb]
  split
  · exact absurd rfl (hrest _ rfl).2.1
  · exact absurd rfl (hrest _ rfl).2.2.1
  · exact absurd rfl (hrest _ rfl).2.2.2
  · rfl

theorem writeInteger_natural (n : Nat) : writeInteger (n : Int) = decimal n := encode_repr n

theorem writeInteger_negative {n : Nat} (hn : 0 < n) :
    writeInteger (-(n : Int)) = 0x2D :: decimal n := by
  obtain ⟨m, rfl⟩ := Nat.exists_eq_add_one_of_ne_zero (Nat.ne_of_gt hn)
  have htext : toString (-((m + 1 : Nat) : Int)) = "-" ++ Nat.repr (m + 1) := rfl
  rw [writeInteger, htext, ← encode_repr, Utf8.encode, String.toList_append, List.flatMap_append]
  rfl

/-- The beginning of a decimal number is a decimal number again, and zero only for zero. -/
theorem eq_decimal_of_prefix {n : Nat} {t : Bytes} (h : t <+: decimal n) (hne : t ≠ []) :
    ∃ m ≤ n, (0 < n → 0 < m) ∧ t = decimal m := by
  -- without its last digit, the text of a number is that of a tenth of it
  induction n using Nat.strongRecOn generalizing t with
  | ind n ih =>
      by_cases hlt : n < 10
      · have hone : decimal n = [UInt8.ofNat n.digitChar.toNat] := by
          rw [decimal, Nat.toDigits_of_lt_base hlt]
          rfl
        rw [hone] at h
        rcases List.prefix_cons_iff.1 h with rfl | ⟨t', rfl, ht'⟩
        · exact absurd rfl hne
        · rw [List.prefix_nil.1 ht']
          exact ⟨n, Nat.le_refl n, id, hone.symm⟩
      · have hsplit : decimal n = decimal (n / 10) ++ [UInt8.ofNat (n % 10).digitChar.toNat] := by
          rw [decimal, Nat.toDigits_of_base_le (by decide) (by omega), List.map_append]
          rfl
        rw [hsplit, List.prefix_concat_iff] at h
        rcases h with rfl | h
        · exact ⟨n, Nat.le_refl n, id, hsplit.symm⟩
        · obtain ⟨m, hm, hpos, rfl⟩ := ih (n / 10) (by omega) h hne
          exact ⟨m, by omega, fun _ => hpos (by omega), rfl⟩

end TopicWatch.Json
