import TopicWatch.Json.Record
import TopicWatch.Proofs.Json.Number
import TopicWatch.Proofs.Json.Text
import TopicWatch.Proofs.Text.Base64

/-!
# Single values read back what they write

A written value is read back up to where it ends, whatever stands after it, as long as that
does not continue a number. Of the beginning of a written value nothing is refused. The first
byte of a scalar leads the reader to it.
-/

namespace TopicWatch.Json

/-! ## Readers of written texts -/

theorem endsNumber_nil : EndsNumber [] := by
  intro c hc
  exact absurd hc (by simp)

/-- A reader follows a text that was written for a value: it takes the whole text and gives
the value, and it runs out on a text that is cut short. In both cases what it is given must
not be longer than it has room for. -/
structure Follows {α : Type} (read : Bytes → Step α) (room : Nat) (text : Bytes) (a : α) :
    Prop where
  whole : text.length ≤ room → ∀ rest, EndsNumber rest → read (text ++ rest) = .ok (a, rest)
  cut : ∀ t, Cut t text → t.length ≤ room → RunsOut (read t)

namespace Follows

variable {α β : Type} {read : Bytes → Step α} {room : Nat} {text : Bytes} {a : α}

theorem map (h : Follows read room text a) (f : α → β) :
    Follows (fun s => (read s).map fun p => (f p.1, p.2)) room text (f a) := by
  constructor
  · intro hroom rest hrest
    simp only [h.whole hroom rest hrest]
    rfl
  · intro t ht hroom
    exact (h.cut t ht hroom).map f

theorem afterColon (h : Follows read room text a) :
    Follows (afterColon read) room (0x3A :: text) a := by
  constructor
  · intro hroom rest hrest
    exact h.whole (Nat.le_of_succ_le hroom) rest hrest
  · intro t ht hroom
    rcases ht.cons with rfl | ⟨t', rfl, ht'⟩
    · exact Or.inl rfl
    · exact h.cut t' ht' (Nat.le_of_succ_le hroom)

end Follows

/-! ## Values that open no bracket -/

/-- The values that stand on their own, without numbers that are no integers. -/
inductive Value.IsScalar : Value → Prop where
  | null : IsScalar .null
  | bool (b : Bool) : IsScalar (.bool b)
  | text (s : String) : IsScalar (.text s)
  | integer {n : Int} (least : -0x8000000000000000 ≤ n) (greatest : n < 0x10000000000000000) :
      IsScalar (.number (.integer n))

theorem isBlank_iff (b : UInt8) :
    isBlank b = true ↔ b = 0x20 ∨ b = 0x0A ∨ b = 0x09 ∨ b = 0x0D := by
  simp only [isBlank, Bool.or_eq_true, beq_iff_eq, or_assoc]

theorem ne_of_isDigit {c x : UInt8} (h : Ascii.isDigit c = true) (hx : Ascii.isDigit x = false) :
    c ≠ x := by
  rintro rfl
  exact Bool.false_ne_true (hx.symm.trans h)

theorem not_isBlank_of_isDigit {c : UInt8} (h : Ascii.isDigit c = true) :
    isBlank c = false ∧ Bracket.ofOpen? c = none := by
  have hne (x : UInt8) (hx : Ascii.isDigit x = false) : c ≠ x := ne_of_isDigit h hx
  constructor
  · simp only [isBlank, Bool.or_eq_false_iff, beq_eq_false_iff_ne]
    exact ⟨⟨⟨hne _ rfl, hne _ rfl⟩, hne _ rfl⟩, hne _ rfl⟩
  · rw [Bracket.ofOpen?, if_neg (hne _ rfl), if_neg (hne _ rfl)]

theorem scalar_digit {c : UInt8} (h : Ascii.isDigit c = true) (rest : Bytes) :
    scalar c rest = (readNumber false (c :: rest)).map fun p => (.number p.1, p.2) := by
  have hne (x : UInt8) (hx : Ascii.isDigit x = false) : c ≠ x := ne_of_isDigit h hx
  rw [scalar, if_neg (hne _ rfl), if_neg (hne _ rfl), if_neg (hne _ rfl), if_neg (hne _ rfl),
    if_neg (hne _ rfl), if_pos h]

theorem scalar_quote (rest : Bytes) :
    scalar 0x22 rest = (readText rest).map fun p => (.text p.1, p.2) := by
  rw [scalar, if_neg (by decide), if_neg (by decide), if_neg (by decide), if_pos rfl]

theorem scalar_natural {n : Nat} (hn : n < 0x10000000000000000) {c : UInt8} {t rest : Bytes}
    (hwrite : decimal n = c :: t) (hrest : EndsNumber rest) :
    scalar c (t ++ rest) = .ok (.number (.integer n), rest) := by
  have hdigit : Ascii.isDigit c = true :=
    isDigit_of_mem_decimal (hwrite ▸ List.mem_cons_self)
  have hle : n ≤ greatestSignificand := Nat.le_sub_one_of_lt hn
  rw [scalar_digit hdigit, ← List.cons_append, ← hwrite, readNumber_decimal false hle hrest,
    integerOf, if_neg Bool.false_ne_true]
  rfl

theorem scalar_negative {n : Nat} (hpos : 0 < n) (hn : n ≤ 0x8000000000000000) {rest : Bytes}
    (hrest : EndsNumber rest) :
    scalar 0x2D (decimal n ++ rest) = .ok (.number (.integer (-(n : Int))), rest) := by
  have hle : n ≤ greatestSignificand := Nat.le_trans hn (by decide)
  have hfits : ¬(n = 0 ∨ UInt64.size / 2 < n) := by
    have hhalf : UInt64.size / 2 = 0x8000000000000000 := by decide
    omega
  have hread : readNumber true (decimal n ++ rest) = .ok (.integer (-(n : Int)), rest) := by
    rw [readNumber_decimal true hle hrest, integerOf, if_pos rfl, if_neg hfits]
  rw [scalar, if_neg (by decide), if_neg (by decide), if_neg (by decide), if_neg (by decide),
    if_pos rfl, hread]
  rfl

/-- The first byte of a written scalar leads the reader to it. -/
theorem scalar_write {v : Value} (hv : v.IsScalar) {rest : Bytes} (hrest : EndsNumber rest) :
    ∃ c t, v.write = c :: t ∧ isBlank c = false ∧ Bracket.ofOpen? c = none ∧
      scalar c (t ++ rest) = .ok (v, rest) := by
  cases hv with
  | null => exact ⟨0x6E, [0x75, 0x6C, 0x6C], rfl, rfl, rfl, rfl⟩
  | bool b =>
      cases b with
      | true => exact ⟨0x74, [0x72, 0x75, 0x65], rfl, rfl, rfl, rfl⟩
      | false => exact ⟨0x66, [0x61, 0x6C, 0x73, 0x65], rfl, rfl, rfl, rfl⟩
  | text s =>
      refine ⟨0x22, _, rfl, rfl, rfl, ?_⟩
      rw [scalar_quote, List.append_assoc, List.singleton_append, readText_escapes]
      rfl
  | @integer n least greatest =>
      rcases Int.lt_or_le n 0 with hneg | hnonneg
      · obtain ⟨k, rfl⟩ : ∃ k : Nat, n = -(k : Int) := ⟨n.natAbs, by omega⟩
        exact ⟨0x2D, decimal k, writeInteger_negative (by omega), rfl, rfl,
          scalar_negative (by omega) (by omega) hrest⟩
      · obtain ⟨k, rfl⟩ := Int.eq_ofNat_of_zero_le hnonneg
        obtain ⟨c, t, hwrite, hdigit, _⟩ := decimal_cons k
        obtain ⟨hblank, hopen⟩ := not_isBlank_of_isDigit hdigit
        exact ⟨c, t, (writeInteger_natural k).trans hwrite, hblank, hopen,
          scalar_natural (by omega) hwrite hrest⟩

/-- Integers on the way from zero to another one: those that its beginnings denote. -/
def Toward (m n : Int) : Prop := (0 ≤ m ∧ m ≤ n) ∨ (n ≤ m ∧ m ≤ 0)

/-- A scalar that breaks off is unfinished, or it is an integer whose beginning is one too. -/
theorem scalar_cut {v : Value} (hv : v.IsScalar) {c : UInt8} {t : Bytes}
    (h : Cut (c :: t) v.write) :
    scalar c t = .error .unfinished ∨
      ∃ n m, v = .number (.integer n) ∧ Toward m n ∧
        scalar c t = .ok (.number (.integer m), []) := by
  cases hv with
  | null =>
      rcases h.cons with h | ⟨t', heq, ht'⟩
      · exact absurd h (List.cons_ne_nil c t)
      · obtain ⟨rfl, rfl⟩ := List.cons.inj heq
        rw [scalar, if_pos rfl, literal_cut ht']
        exact Or.inl rfl
  | bool b =>
      cases b with
      | true =>
          rcases h.cons with h | ⟨t', heq, ht'⟩
          · exact absurd h (List.cons_ne_nil c t)
          · obtain ⟨rfl, rfl⟩ := List.cons.inj heq
            rw [scalar, if_neg (by decide), if_pos rfl, literal_cut ht']
            exact Or.inl rfl
      | false =>
          rcases h.cons with h | ⟨t', heq, ht'⟩
          · exact absurd h (List.cons_ne_nil c t)
          · obtain ⟨rfl, rfl⟩ := List.cons.inj heq
            rw [scalar, if_neg (by decide), if_neg (by decide), if_pos rfl, literal_cut ht']
            exact Or.inl rfl
  | text s =>
      rcases h.cons with h | ⟨t', heq, ht'⟩
      · exact absurd h (List.cons_ne_nil c t)
      · obtain ⟨rfl, rfl⟩ := List.cons.inj heq
        rw [scalar_quote, readText_cut ht']
        exact Or.inl rfl
  | @integer n least greatest =>
      rcases Int.lt_or_le n 0 with hneg | hnonneg
      · obtain ⟨k, rfl⟩ : ∃ k : Nat, n = -(k : Int) := ⟨n.natAbs, by omega⟩
        have hwrite : (Value.number (.integer (-(k : Int)))).write = 0x2D :: decimal k :=
          writeInteger_negative (by omega)
        rw [hwrite] at h
        rcases h.cons with h | ⟨t', heq, ht'⟩
        · exact absurd h (List.cons_ne_nil c t)
        · obtain ⟨rfl, rfl⟩ := List.cons.inj heq
          by_cases hempty : t = []
          · rw [hempty]
            exact Or.inl rfl
          · -- what is left is no zero, which a minus would make a number of another kind
            obtain ⟨m, hm, hpos, rfl⟩ := eq_decimal_of_prefix ht'.isPrefix hempty
            have hread := scalar_negative (hpos (by omega)) (by omega) endsNumber_nil
            rw [List.append_nil] at hread
            exact Or.inr ⟨_, _, rfl, Or.inr ⟨by omega, by omega⟩, hread⟩
      · obtain ⟨k, rfl⟩ := Int.eq_ofNat_of_zero_le hnonneg
        have hwrite : (Value.number (.integer (k : Int))).write = decimal k :=
          writeInteger_natural k
        rw [hwrite] at h
        obtain ⟨m, hm, -, hdecimal⟩ := eq_decimal_of_prefix h.isPrefix (List.cons_ne_nil c t)
        have hread := scalar_natural (by omega) hdecimal.symm endsNumber_nil
        rw [List.append_nil] at hread
        exact Or.inr ⟨_, _, rfl, Or.inl ⟨by omega, by omega⟩, hread⟩

theorem skipBlanks_cons {c : UInt8} (h : isBlank c = false) (s : Bytes) :
    skipBlanks (c :: s) = c :: s := by
  rw [skipBlanks, List.dropWhile_cons_of_neg (by simp [h])]

namespace Form

variable {α β : Type}

/-- Under limits, a reader follows the text that is written for a value. -/
def ReadsBack (form : Form α) (l : Limits) (a : α) : Prop :=
  Follows (form.fromText l) l.steps (form.encode a) a

/-- The text of every value is followed where its brackets may be opened. -/
def Faithful (form : Form α) (depth : Nat) : Prop :=
  ∀ l a, depth ≤ l.opens → form.ReadsBack l a

theorem Faithful.mono {form : Form α} {depth depth' : Nat} (h : form.Faithful depth)
    (hle : depth ≤ depth') : form.Faithful depth' :=
  fun l a hopens => h l a (Nat.le_trans hle hopens)

/-- A whole text that was written denotes the value it was written for. -/
theorem Faithful.decode_encode {form : Form α} {depth : Nat} (h : form.Faithful depth)
    (hdepth : depth ≤ greatestDepth) (a : α) : form.decode (form.encode a) = .ok a := by
  have hread := (h (Limits.whole (form.encode a)) a hdepth).whole (Nat.le_succ _) []
    endsNumber_nil
  rw [List.append_nil] at hread
  rw [decode, hread]
  rfl

theorem readScalar_cons (want : Value → Option α) {c : UInt8} (hblank : isBlank c = false)
    (hopen : Bracket.ofOpen? c = none) (t : Bytes) :
    readScalar want (c :: t) = accept want (scalar c t) := by
  rw [readScalar, skipBlanks_cons hblank]
  simp only [hopen, Option.isSome_none, Bool.false_eq_true, if_false]

/-- A form of scalars reads one back when it wants it, and with an integer all those that its
beginnings denote. -/
theorem ReadsBack.ofScalar {want : Value → Option α} {toValue : α → Value} {a : α}
    (hscalar : (toValue a).IsScalar) (hwant : want (toValue a) = some a)
    (htoward : ∀ n m, toValue a = .number (.integer n) → Toward m n →
      (want (.number (.integer m))).isSome) (l : Limits) :
    (Form.ofScalar want toValue).ReadsBack l a := by
  constructor
  · intro _ rest hrest
    obtain ⟨c, t, hwrite, hblank, hopen, hread⟩ := scalar_write hscalar hrest
    show readScalar want ((toValue a).write ++ rest) = _
    rw [hwrite, List.cons_append, readScalar_cons want hblank hopen, hread, accept, hwant]
  · intro t ht _
    have hcut : Cut t (toValue a).write := ht
    cases t with
    | nil => exact Or.inl rfl
    | cons c t =>
        obtain ⟨c', t', hwrite, hblank, hopen, -⟩ := scalar_write hscalar endsNumber_nil
        obtain rfl : c = c' := by
          rcases (hwrite ▸ hcut).cons with h | ⟨u, heq, -⟩
          · exact absurd h (List.cons_ne_nil c t)
          · exact (List.cons.inj heq).1
        show RunsOut (readScalar want (c :: t))
        rw [readScalar_cons want hblank hopen]
        rcases scalar_cut hscalar hcut with hread | ⟨n, m, hvalue, hm, hread⟩
        · rw [hread]
          exact Or.inl rfl
        · refine RunsOut.accept (Or.inr ⟨_, hread⟩) fun v hv => ?_
          rw [hread] at hv
          obtain rfl := (Prod.mk.inj (Except.ok.inj hv)).1
          exact htoward n m hvalue hm

theorem ReadsBack.restrict {form : Form α} {l : Limits} {read : α → Option β} {show' : β → α}
    {b : β} (h : form.ReadsBack l (show' b)) (hread : read (show' b) = some b)
    (hcut : ∀ t a, Cut t (form.encode (show' b)) → form.fromText l t = .ok (a, []) →
      (read a).isSome) :
    (form.restrict read show').ReadsBack l b := by
  constructor
  · intro hroom rest hrest
    show accept read (form.fromText l (form.encode (show' b) ++ rest)) = _
    rw [h.whole hroom rest hrest, accept, hread]
  · intro t ht hroom
    exact (h.cut t ht hroom).accept fun a => hcut t a ht

theorem faithful_text : text.Faithful 0 := by
  intro l s _
  exact ReadsBack.ofScalar (.text s) rfl (fun _ _ h => nomatch h) l

/-- A text never ends before its closing quote. -/
theorem fromText_text_cut {s : String} {t : Bytes} (h : Cut t (text.encode s)) (l : Limits) :
    text.fromText l t = .error .unfinished := by
  rcases h.cons with rfl | ⟨t', rfl, ht'⟩
  · rfl
  · show readScalar _ (0x22 :: t') = _
    rw [readScalar_cons _ rfl rfl, scalar_quote, readText_cut ht']
    rfl

theorem faithful_bytes : bytes.Faithful 0 := by
  intro l b hopens
  refine (faithful_text l (Base64.encode b) hopens).restrict (Base64.decode?_encode b) ?_
  intro t s ht hread
  rw [fromText_text_cut ht] at hread
  cases hread

theorem readsBack_integer {least greatest n : Int}
    (hleast : -0x8000000000000000 ≤ least ∧ least ≤ 0)
    (hgreatest : 0 ≤ greatest ∧ greatest < 0x10000000000000000)
    (h : least ≤ n ∧ n ≤ greatest) (l : Limits) :
    (integer least greatest).ReadsBack l n := by
  apply ReadsBack.ofScalar
  · exact .integer (by omega) (by omega)
  · exact if_pos h
  · intro n' m hn hm
    obtain rfl : n = n' := by
      injection hn with hn
      injection hn
    have hrange : least ≤ m ∧ m ≤ greatest := by
      rcases hm with hm | hm <;> omega
    simp only [if_pos hrange, Option.isSome_some]

theorem faithful_int32 : int32.Faithful 0 := by
  intro l n _
  have hrange : Int32.minValue.toInt ≤ n.toInt ∧ n.toInt ≤ Int32.maxValue.toInt :=
    ⟨n.minValue_le_toInt, n.toInt_le⟩
  have hread := readsBack_integer (by decide) (by decide) hrange l
  exact hread.restrict (congrArg some (Int32.ofInt_toInt n)) fun _ _ _ _ => rfl

theorem faithful_int64 : int64.Faithful 0 := by
  intro l n _
  have hrange : Int64.minValue.toInt ≤ n.toInt ∧ n.toInt ≤ Int64.maxValue.toInt :=
    ⟨n.minValue_le_toInt, n.toInt_le⟩
  have hread := readsBack_integer (by decide) (by decide) hrange l
  exact hread.restrict (congrArg some (Int64.ofInt_toInt n)) fun _ _ _ _ => rfl

theorem faithful_named {table : List (String × α)} {name : α → String}
    (h : ∀ a, lookUp table (name a) = some a) : (named table name).Faithful 0 := by
  intro l a _
  have hquote : ∀ s, (named table name).fromText l (0x22 :: s) =
      accept (lookUp table) (readText s) := by
    intro s
    simp only [named, skipBlanks_cons (show isBlank 0x22 = false from rfl)]
    rw [if_pos trivial]
  constructor
  · intro _ rest _
    show (named table name).fromText l (writeText (name a) ++ rest) = _
    rw [writeText, List.cons_append, hquote, List.append_assoc, List.singleton_append,
      readText_escapes, accept, h]
  · intro t ht _
    rcases ht.cons with rfl | ⟨t', rfl, ht'⟩
    · exact Or.inl rfl
    · rw [hquote, readText_cut ht']
      exact Or.inl rfl

/-- An optional value is told from null by its first byte. -/
theorem Faithful.optional {form : Form α} {depth : Nat} (h : form.Faithful depth)
    (hstart : ∀ a, ∃ c t, form.encode a = c :: t ∧ isBlank c = false ∧ c ≠ 0x6E)
    (hempty : ∀ l, form.fromText l [] = .error .unfinished) :
    form.optional.Faithful depth := by
  intro l value hopens
  have hnil : form.optional.fromText l [] = .error .unfinished := by
    show (form.fromText l []).map _ = _
    rw [hempty]
    rfl
  cases value with
  | none =>
      refine ⟨fun _ _ _ => rfl, fun t ht _ => Or.inl ?_⟩
      have hcut : Cut t (0x6E :: [0x75, 0x6C, 0x6C]) := ht
      rcases hcut.cons with rfl | ⟨t', rfl, ht'⟩
      · exact hnil
      · show (literal [0x75, 0x6C, 0x6C] t').map _ = _
        rw [literal_cut ht']
        rfl
  | some a =>
      obtain ⟨c, u, hwrite, hblank, hne⟩ := hstart a
      have hsome : ∀ s, form.optional.fromText l (c :: s) =
          (form.fromText l (c :: s)).map fun p => (some p.1, p.2) := by
        intro s
        simp only [Form.optional, skipBlanks_cons hblank]
        split
        · next heq => exact absurd (List.cons.inj heq).1 hne
        · rfl
      have hread := (h l a hopens).map some
      constructor
      · intro hroom rest hrest
        have hwhole := hread.whole hroom rest hrest
        rw [hwrite, List.cons_append] at hwhole
        show form.optional.fromText l (form.encode a ++ rest) = _
        rw [hwrite, List.cons_append, hsome, hwhole]
      · intro t ht hroom
        have hcut : Cut t (c :: u) := hwrite ▸ ht
        rcases hcut.cons with rfl | ⟨t', rfl, -⟩
        · exact Or.inl hnil
        · rw [hsome]
          exact hread.cut (c :: t') ht hroom

end Form

end TopicWatch.Json
