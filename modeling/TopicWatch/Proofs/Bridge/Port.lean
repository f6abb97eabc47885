import Mathlib.Data.List.Induction
import TopicWatch.Bridge.Port
import TopicWatch.Harness
import TopicWatch.Proofs.Text.Blank
import TopicWatch.Proofs.Text.Utf8
import TopicWatch.Publish.Recorder

/-!
# What names a port

The variable names a port by a decimal numeral, in front of which a plus sign may stand, with white
space around it. The digits are counted up in 16 bits, and that ends in a port exactly if the
number that they denote, however many they are, has no more bits than that.
-/

namespace TopicWatch.Bridge.Port

/-- Decimal digits, one or more, and the number that they denote. -/
inductive Numeral : List Char → Nat → Prop
  | digit {d : Nat} (h : d < 10) : Numeral [Nat.digitChar d] d
  | behind {digits : List Char} {n d : Nat} (h : Numeral digits n) (hd : d < 10) :
      Numeral (digits ++ [Nat.digitChar d]) (n * 10 + d)

/-- A text is a numeral with white space around it, or one behind a plus sign. -/
def Names (text : String) (n : Nat) : Prop :=
  ∃ front core back digits, text.toList = front ++ core ++ back ∧ Blank.Blanks front ∧
    Blank.Blanks back ∧ (core = digits ∨ core = '+' :: digits) ∧ Numeral digits n

/-! ## Numerals -/

theorem digitChar_of_isDigit {c : Char} (h : c.isDigit = true) :
    c.toNat - '0'.toNat < 10 ∧ Nat.digitChar (c.toNat - '0'.toNat) = c := by
  simp only [Char.isDigit, Bool.and_eq_true, decide_eq_true_eq] at h
  have hrange : 48 ≤ c.toNat ∧ c.toNat ≤ 57 := h
  have hzero : '0'.toNat = 48 := rfl
  rw [hzero]
  refine ⟨by omega, Char.toNat_inj.1 ?_⟩
  rw [Nat.toNat_digitChar_of_lt_ten (by omega)]
  omega

theorem ofDigitChars_digitChar {d : Nat} (h : d < 10) (n : Nat) :
    Nat.ofDigitChars 10 [Nat.digitChar d] n = n * 10 + d := by
  have hvalue : (Nat.digitChar d).toNat - '0'.toNat = d := Nat.toNat_digitChar_sub_48_of_lt_ten h
  rw [Nat.ofDigitChars_cons, Nat.ofDigitChars_nil, hvalue, Nat.mul_comm]

/-- Digits denote one number. -/
theorem numeral_iff {digits : List Char} {n : Nat} :
    Numeral digits n ↔
      digits ≠ [] ∧ (∀ c ∈ digits, c.isDigit = true) ∧ Nat.ofDigitChars 10 digits 0 = n := by
  constructor
  · intro h
    induction h with
    | @digit d hd =>
        refine ⟨List.cons_ne_nil _ _, ?_, ?_⟩
        · rw [List.forall_mem_singleton, Nat.isDigit_digitChar]
          exact decide_eq_true hd
        · rw [ofDigitChars_digitChar hd, Nat.zero_mul, Nat.zero_add]
    | @behind digits n d _ hd ih =>
        obtain ⟨-, hdigits, hvalue⟩ := ih
        refine ⟨List.append_ne_nil_of_right_ne_nil _ (List.cons_ne_nil _ _), ?_, ?_⟩
        · rw [List.forall_mem_append, List.forall_mem_singleton, Nat.isDigit_digitChar]
          exact ⟨hdigits, decide_eq_true hd⟩
        · rw [Nat.ofDigitChars_append, hvalue, ofDigitChars_digitChar hd]
  · rintro ⟨hne, hdigits, rfl⟩
    induction digits using List.reverseRecOn with
    | nil => exact absurd rfl hne
    | append_singleton digits c ih =>
        rw [List.forall_mem_append, List.forall_mem_singleton] at hdigits
        obtain ⟨hd, hchar⟩ := digitChar_of_isDigit hdigits.2
        rw [← hchar, Nat.ofDigitChars_append, ofDigitChars_digitChar hd]
        by_cases hempty : digits = []
        · subst hempty
          rw [Nat.ofDigitChars_nil, Nat.zero_mul, Nat.zero_add]
          exact Numeral.digit hd
        · exact Numeral.behind (ih hempty hdigits.1) hd

theorem numeral_repr (n : Nat) : Numeral (Nat.repr n).toList n := by
  rw [Nat.toList_repr]
  induction n using Nat.strongRecOn with
  | ind n ih =>
      by_cases hlt : n < 10
      · rw [Nat.toDigits_of_lt_base hlt]
        exact Numeral.digit hlt
      · have hsum : n / 10 * 10 + n % 10 = n := by omega
        have hbehind := Numeral.behind (ih (n / 10) (by omega)) (Nat.mod_lt n (by decide))
        rw [hsum] at hbehind
        rw [Nat.toDigits_of_base_le (by decide) (by omega)]
        exact hbehind

/-! ## Counting up in 16 bits -/

theorem fitting?_eq_some_iff {n : Nat} {port : UInt16} :
    fitting? n = some port ↔ n = port.toNat := by
  rw [fitting?, Option.ite_none_right_eq_some, Option.some_inj]
  constructor
  · rintro ⟨hlt, rfl⟩
    exact (UInt16.toNat_ofNat_of_lt hlt).symm
  · rintro rfl
    exact ⟨port.toNat_lt, UInt16.ofNat_toNat⟩

theorem exists_port {n : Nat} (h : n < UInt16.size) : ∃ port : UInt16, n = port.toNat :=
  ⟨UInt16.ofNat n, (UInt16.toNat_ofNat_of_lt h).symm⟩

theorem le_ofDigitChars (digits : List Char) (n : Nat) : n ≤ Nat.ofDigitChars 10 digits n := by
  induction digits generalizing n with
  | nil => exact Nat.le_refl n
  | cons c digits ih =>
      rw [Nat.ofDigitChars_cons]
      have := ih (10 * n + (c.toNat - '0'.toNat))
      omega

/-- Nothing on the way has more bits than what is reached in the end. -/
theorem digitsAfter?_eq_some_iff {read port : UInt16} {digits : List Char} :
    digitsAfter? read digits = some port ↔
      (∀ c ∈ digits, c.isDigit = true) ∧
        Nat.ofDigitChars 10 digits read.toNat = port.toNat := by
  induction digits generalizing read with
  | nil =>
      rw [digitsAfter?, Option.some_inj, Nat.ofDigitChars_nil, UInt16.toNat_inj]
      exact ⟨fun h => ⟨fun _ hc => absurd hc List.not_mem_nil, h⟩, And.right⟩
  | cons c digits ih =>
      rw [digitsAfter?, List.forall_mem_cons, Nat.ofDigitChars_cons]
      by_cases hc : c.isDigit = true
      · rw [if_pos hc]
        simp only [Option.bind_eq_bind, Option.bind_eq_some_iff, fitting?_eq_some_iff, ih]
        constructor
        · rintro ⟨tenfold, htenfold, more, hmore, hdigits, hvalue⟩
          refine ⟨⟨hc, hdigits⟩, ?_⟩
          rw [← hvalue, ← hmore, ← htenfold, Nat.mul_comm]
        · rintro ⟨⟨-, hdigits⟩, hvalue⟩
          have hle := le_ofDigitChars digits (10 * read.toNat + (c.toNat - '0'.toNat))
          have hport : port.toNat < UInt16.size := port.toNat_lt
          obtain ⟨tenfold, htenfold⟩ := exists_port (n := read.toNat * 10) (by omega)
          obtain ⟨more, hmore⟩ :=
            exists_port (n := 10 * read.toNat + (c.toNat - '0'.toNat)) (by omega)
          refine ⟨tenfold, htenfold, more, ?_, hdigits, ?_⟩
          · rw [← htenfold, ← hmore, Nat.mul_comm]
          · rw [← hmore, hvalue]
      · rw [if_neg hc]
        constructor
        · intro h
          cases h
        · rintro ⟨⟨h, -⟩, -⟩
          exact absurd h hc

/-! ## The value of the variable -/

theorem ne_plus_of_isDigit {c : Char} (h : c.isDigit = true) : c ≠ '+' := by
  rintro rfl
  cases h

theorem isBlank_of_isDigit {c : Char} (h : c.isDigit = true) : Blank.isBlank c = false := by
  have hdigits : ∀ d < 10, Blank.isBlank (Nat.digitChar d) = false := by decide
  obtain ⟨hd, hchar⟩ := digitChar_of_isDigit h
  rw [← hchar]
  exact hdigits _ hd

theorem unsigned_of_digits {digits : List Char} (h : ∀ c ∈ digits, c.isDigit = true) :
    unsigned digits = digits := by
  cases digits with
  | nil => rfl
  | cons c digits =>
      have hne := ne_plus_of_isDigit (h c List.mem_cons_self)
      rw [unsigned]
      rintro _ heq
      exact absurd (List.cons.inj heq).1 hne

theorem eq_or_eq_of_unsigned (cs : List Char) : cs = unsigned cs ∨ cs = '+' :: unsigned cs := by
  unfold unsigned
  split
  · exact Or.inr rfl
  · exact Or.inl rfl

theorem ofChars?_eq_some_iff {cs : List Char} {port : UInt16} :
    ofChars? cs = some port ↔ Numeral (unsigned cs) port.toNat := by
  rw [numeral_iff, ofChars?]
  cases unsigned cs with
  | nil => simp
  | cons c digits => simp [digitsAfter?_eq_some_iff]

/-- White space around a numeral, and a plus sign in front of it, are told from it. -/
theorem unsigned_trim {text : String} {front core back digits : List Char} {n : Nat}
    (htext : text.toList = front ++ core ++ back) (hfront : Blank.Blanks front)
    (hback : Blank.Blanks back) (hcore : core = digits ∨ core = '+' :: digits)
    (hdigits : Numeral digits n) : unsigned (Blank.trim text.toList) = digits := by
  obtain ⟨hne, hall, -⟩ := numeral_iff.1 hdigits
  have hplus : Blank.isBlank '+' = false := by decide
  have hbare : ∀ c ∈ core, Blank.isBlank c = false := by
    intro c hc
    rcases hcore with rfl | rfl
    · exact isBlank_of_isDigit (hall c hc)
    · rcases List.mem_cons.1 hc with rfl | hc
      · exact hplus
      · exact isBlank_of_isDigit (hall c hc)
  have hnotNil : core ≠ [] := by
    rcases hcore with rfl | rfl
    · exact hne
    · exact List.cons_ne_nil _ _
  rw [htext, Blank.trim_append hfront (Blank.bare_of_forall hbare) hnotNil hback]
  rcases hcore with rfl | rfl
  · exact unsigned_of_digits hall
  · rfl

/-- The variable names a port exactly if its text names a number of 16 bits. -/
theorem ofText?_eq_some_iff {text : String} {port : UInt16} :
    ofText? text = some port ↔ Names text port.toNat := by
  rw [ofText?, ofChars?_eq_some_iff]
  constructor
  · intro h
    obtain ⟨front, back, htext, hfront, hback⟩ := Blank.exists_eq_trim text.toList
    exact ⟨front, _, back, _, htext, hfront, hback, eq_or_eq_of_unsigned _, h⟩
  · rintro ⟨front, core, back, digits, htext, hfront, hback, hcore, hdigits⟩
    rw [unsigned_trim htext hfront hback hcore hdigits]
    exact hdigits

/-- A text names one number. -/
theorem Names.unique {text : String} {n m : Nat} (h : Names text n) (h' : Names text m) :
    n = m := by
  obtain ⟨front, core, back, digits, htext, hfront, hback, hcore, hdigits⟩ := h
  obtain ⟨front', core', back', digits', htext', hfront', hback', hcore', hdigits'⟩ := h'
  have hsame : digits = digits' :=
    (unsigned_trim htext hfront hback hcore hdigits).symm.trans
      (unsigned_trim htext' hfront' hback' hcore' hdigits')
  calc n = Nat.ofDigitChars 10 digits 0 := (numeral_iff.1 hdigits).2.2.symm
    _ = Nat.ofDigitChars 10 digits' 0 := by rw [hsame]
    _ = m := (numeral_iff.1 hdigits').2.2

/-- The variable is set to the bytes of a text that names a number. -/
def Told (value : Option Bytes) (n : Nat) : Prop :=
  ∃ text, value = some (Utf8.encode text) ∧ Names text n

theorem named_eq_some_iff {value : Option Bytes} {port : UInt16} :
    (value.bind Utf8.decode?).bind ofText? = some port ↔ Told value port.toNat := by
  simp only [Option.bind_eq_some_iff, Utf8.decode?_eq_some_iff, ofText?_eq_some_iff]
  constructor
  · rintro ⟨text, ⟨bytes, rfl, rfl⟩, hnames⟩
    exact ⟨text, rfl, hnames⟩
  · rintro ⟨text, rfl, hnames⟩
    exact ⟨text, ⟨_, rfl, rfl⟩, hnames⟩

theorem Told.unique {value : Option Bytes} {n m : Nat} (h : Told value n) (h' : Told value m) :
    n = m := by
  obtain ⟨text, rfl, hnames⟩ := h
  obtain ⟨text', htext, hnames'⟩ := h'
  rw [Utf8.encode_injective (Option.some.inj htext)] at hnames
  exact hnames.unique hnames'

theorem ofVariable_of_told {value : Option Bytes} {port : UInt16} (h : Told value port.toNat) :
    ofVariable value = port := by
  rw [ofVariable, named_eq_some_iff.2 h, Option.getD_some]

theorem ofVariable_of_not_told {value : Option Bytes} (h : ¬∃ n, n ≤ 65535 ∧ Told value n) :
    ofVariable value = usual := by
  rw [ofVariable]
  cases hnamed : (value.bind Utf8.decode?).bind ofText? with
  | none => rfl
  | some port =>
      have hle : port.toNat ≤ 65535 := Nat.le_of_lt_succ port.toNat_lt
      exact absurd ⟨port.toNat, hle, named_eq_some_iff.1 hnamed⟩ h

theorem ofVariable_eq_iff {value : Option Bytes} {port : UInt16} :
    ofVariable value = port ↔
      Told value port.toNat ∨ (¬∃ n, n ≤ 65535 ∧ Told value n) ∧ port = usual := by
  constructor
  · rintro rfl
    by_cases htold : ∃ n, n ≤ 65535 ∧ Told value n
    · obtain ⟨n, hle, h⟩ := htold
      obtain ⟨port, rfl⟩ := exists_port (Nat.lt_succ_of_le hle)
      rw [ofVariable_of_told h]
      exact Or.inl h
    · exact Or.inr ⟨htold, ofVariable_of_not_told htold⟩
  · rintro (h | ⟨h, rfl⟩)
    · exact ofVariable_of_told h
    · exact ofVariable_of_not_told h

theorem names_toVariable (port : UInt16) {front back : List Char} (hfront : Blank.Blanks front)
    (hback : Blank.Blanks back) :
    Names (String.ofList front ++ toVariable port ++ String.ofList back) port.toNat := by
  refine ⟨front, (toVariable port).toList, back, _, ?_, hfront, hback, Or.inl rfl,
    numeral_repr port.toNat⟩
  rw [String.toList_append, String.toList_append, String.toList_ofList, String.toList_ofList]

/-- A harness listens on the port that it told its own environment. -/
theorem port_of_start {π : Type} {host : Host} {config : Config.Observer}
    {publisher : Publish.Publisher π} {broker : π} {h : Harness π}
    (hstart : Harness.start host config publisher broker = .ok h) :
    h.port = Harness.boundPort host config := by
  rw [Harness.start] at hstart
  split at hstart
  · dsimp only at hstart
    split at hstart
    · cases hstart
    · cases hstart
      rfl
  · cases hstart

/-- The variable names a port by its grammar and by nothing else. The port is read exactly if the
variable is set to the bytes of a text that names its number, and it is the usual one in every
other case: where the variable is not set, is no text, is a text without such a numeral, or one
with a numeral of a number above 65535, however long. What a harness tells the process under test
is read as the port that its bridge is bound to, also with white space around it. -/
theorem port_of_variable :
    (∀ (value : Option Bytes) (port : UInt16), ofVariable value = port ↔
      Told value port.toNat ∨ (¬∃ n, n ≤ 65535 ∧ Told value n) ∧ port = usual) ∧
      (∀ (value : Option Bytes) (n : Nat), Told value n → 65535 < n →
        ofVariable value = usual) ∧
      ∀ (π : Type) (host : Host) (config : Config.Observer) (publisher : Publish.Publisher π)
        (broker : π) (h : Harness π) (front back : List Char),
        Harness.start host config publisher broker = .ok h → Blank.Blanks front →
          Blank.Blanks back →
            h.environment.1 = variableName ∧
              ofVariable (some (Utf8.encode
                (String.ofList front ++ h.environment.2 ++ String.ofList back))) =
                  Harness.boundPort host config := by
  refine ⟨fun _ _ => ofVariable_eq_iff, ?_, ?_⟩
  · intro value n htold hgreat
    apply ofVariable_of_not_told
    rintro ⟨m, hle, htold'⟩
    obtain rfl := htold.unique htold'
    exact absurd hgreat (Nat.not_lt.2 hle)
  · intro π host config publisher broker h front back hstart hfront hback
    refine ⟨rfl, ?_⟩
    rw [← port_of_start hstart]
    exact ofVariable_of_told ⟨_, rfl, names_toVariable h.port hfront hback⟩

/-- Leading zeros do not make a number greater, and a number above 65535 is none of a port. The
port of a harness is read with white space of any sort around it. -/
theorem port_of_variable_padded :
    let config := Config.Observer.usual
    Told (some (Utf8.encode " +00065536")) 65536 ∧
      ofVariable (some (Utf8.encode " +00065536")) = usual ∧
      ∃ h, Harness.start Host.loopback config Publish.Recorder.publish .empty = .ok h ∧
        Blank.Blanks ['\t'] ∧ Blank.Blanks ['\u3000', '\n'] ∧
        ofVariable (some (Utf8.encode
          (String.ofList ['\t'] ++ h.environment.2 ++ String.ofList ['\u3000', '\n']))) =
            Harness.boundPort Host.loopback config := by
  intro config
  obtain ⟨-, hgreat, hharness⟩ := port_of_variable
  have htold : Told (some (Utf8.encode " +00065536")) 65536 := by
    have hdigits : ∀ c ∈ "00065536".toList, c.isDigit = true := List.all_eq_true.1 (by decide)
    refine ⟨" +00065536", rfl, [' '], "+00065536".toList, [], "00065536".toList, rfl, ?_, ?_,
      Or.inr rfl, numeral_iff.2 ⟨?_, hdigits, ?_⟩⟩
    · decide
    · decide
    · decide
    · decide
  have hfront : Blank.Blanks ['\t'] := by decide
  have hback : Blank.Blanks ['\u3000', '\n'] := by decide
  have hstarts : (Harness.start Host.loopback config Publish.Recorder.publish .empty).isOk =
      true := by decide +kernel
  refine ⟨htold, hgreat _ 65536 htold (by decide), ?_⟩
  cases hstart : Harness.start Host.loopback config Publish.Recorder.publish .empty with
  | error e =>
      rw [hstart] at hstarts
      cases hstarts
  | ok h =>
      exact ⟨h, rfl, hfront, hback, (hharness _ _ _ _ _ h _ _ hstart hfront hback).2⟩

end TopicWatch.Bridge.Port
