import TopicWatch.Proofs.Json.Layout

/-!
# Texts that are JSON

The grammar of JSON texts. A text of the grammar is passed over up to its end, however deep its
brackets are nested and whatever its strings and numbers may stand for.
-/

namespace TopicWatch.Json

/-! ## Grammar -/

/-- What may stand between the quotes of a string: a byte that stands for itself, or an escape. -/
inductive StringPiece : Bytes → Prop
  | plain {b : UInt8} (h : IsPlain b) : StringPiece [b]
  | short {e : UInt8} (h : e ∈ shortEscapes.map Prod.snd) : StringPiece [0x5C, e]
  | unit {a b c d : UInt8} (h : (hexFour? a b c d).isSome) : StringPiece [0x5C, 0x75, a, b, c, d]

/-- The texts of strings. -/
def IsString (t : Bytes) : Prop :=
  ∃ pieces : List Bytes, (∀ p ∈ pieces, StringPiece p) ∧ t = 0x22 :: (pieces.flatten ++ [0x22])

/-- Digits, of which there is one at least. -/
def IsDigits (t : Bytes) : Prop := t ≠ [] ∧ ∀ c ∈ t, Ascii.isDigit c

/-- The fraction of a number, which may be missing. -/
inductive IsFraction : Bytes → Prop
  | none : IsFraction []
  | places {digits : Bytes} (h : IsDigits digits) : IsFraction (0x2E :: digits)

/-- The exponent of a number, which may be missing. -/
inductive IsExponent : Bytes → Prop
  | none : IsExponent []
  | power {e : UInt8} {sign digits : Bytes} (he : e = 0x65 ∨ e = 0x45)
      (hsign : sign = [] ∨ sign = [0x2B] ∨ sign = [0x2D]) (h : IsDigits digits) :
      IsExponent (e :: (sign ++ digits))

/-- The texts of numbers. A zero stands alone before the fraction. -/
inductive IsNumber : Bytes → Prop
  | parts {sign whole fraction exponent : Bytes} (hsign : sign = [] ∨ sign = [0x2D])
      (hwhole : IsDigits whole) (hzero : whole.head? = some 0x30 → whole = [0x30])
      (hfraction : IsFraction fraction) (hexponent : IsExponent exponent) :
      IsNumber (sign ++ (whole ++ (fraction ++ exponent)))

/-- The texts of values, without blanks around them. -/
inductive Wellformed : Bytes → Prop
  | null : Wellformed [0x6E, 0x75, 0x6C, 0x6C]
  | true : Wellformed [0x74, 0x72, 0x75, 0x65]
  | false : Wellformed [0x66, 0x61, 0x6C, 0x73, 0x65]
  | string {t : Bytes} (h : IsString t) : Wellformed t
  | number {t : Bytes} (h : IsNumber t) : Wellformed t
  | array {items : List Padded} {blanks : Bytes} (h : ∀ p ∈ items, Wellformed p.text)
      (hblanks : Blanks blanks) : Wellformed (enclosed .array (items.map Padded.bytes) blanks)
  | object {members : List (Padded × Padded)} {blanks : Bytes}
      (htitles : ∀ m ∈ members, IsString m.1.text) (h : ∀ m ∈ members, Wellformed m.2.text)
      (hblanks : Blanks blanks) :
      Wellformed (enclosed .object (members.map fun m => m.1.bytes ++ 0x3A :: m.2.bytes) blanks)

/-! ## Layouts -/

theorem SpellsChar.pieces {ch : Char} {t : Bytes} (h : SpellsChar ch t) :
    ∃ pieces : List Bytes, (∀ p ∈ pieces, StringPiece p) ∧ t = pieces.flatten := by
  cases h with
  | plain hlow hquote hslash =>
      refine ⟨(String.utf8EncodeChar ch).map ([·]), List.forall_mem_map.2 fun b hb => ?_, ?_⟩
      · exact .plain (isPlain_of_mem_encodeChar hlow hquote hslash hb)
      · rw [← List.flatMap_def, List.flatMap_singleton']
  | @short e h =>
      have hpiece : StringPiece [0x5C, e] := .short (List.mem_map_of_mem h)
      exact ⟨[_], List.forall_mem_singleton.2 hpiece, (List.append_nil _).symm⟩
  | @unit a b c d h =>
      have hpiece : StringPiece [0x5C, 0x75, a, b, c, d] := .unit (h ▸ rfl)
      exact ⟨[_], List.forall_mem_singleton.2 hpiece, (List.append_nil _).symm⟩
  | @pair a b c d a' b' c' d' high low hhigh hlow =>
      have hfirst : StringPiece [0x5C, 0x75, a, b, c, d] := .unit (hhigh ▸ rfl)
      have hsecond : StringPiece [0x5C, 0x75, a', b', c', d'] := .unit (hlow ▸ rfl)
      exact ⟨[_, _], List.forall_mem_cons.2 ⟨hfirst, List.forall_mem_singleton.2 hsecond⟩, rfl⟩

theorem SpellsChars.pieces {cs : List Char} {ts : Bytes} (h : SpellsChars cs ts) :
    ∃ pieces : List Bytes, (∀ p ∈ pieces, StringPiece p) ∧ ts = pieces.flatten := by
  induction h with
  | nil => exact ⟨[], List.forall_mem_nil _, rfl⟩
  | cons head _ ih =>
      obtain ⟨first, hfirst, rfl⟩ := head.pieces
      obtain ⟨more, hmore, rfl⟩ := ih
      exact ⟨first ++ more, List.forall_mem_append.2 ⟨hfirst, hmore⟩, List.flatten_append.symm⟩

theorem SpellsText.isString {s : String} {t : Bytes} (h : SpellsText s t) : IsString t := by
  obtain ⟨ts, hchars, rfl⟩ := h
  obtain ⟨pieces, hpieces, rfl⟩ := hchars.pieces
  exact ⟨pieces, hpieces, rfl⟩

theorem isNumber_decimal {sign : Bytes} (hsign : sign = [] ∨ sign = [0x2D]) (n : Nat) :
    IsNumber (sign ++ decimal n) := by
  obtain ⟨c, t, heq, -, hzero⟩ := decimal_cons n
  have hwhole : IsDigits (decimal n) :=
    ⟨heq ▸ List.cons_ne_nil c t, fun b hb => isDigit_of_mem_decimal hb⟩
  have hlone : (decimal n).head? = some 0x30 → decimal n = [0x30] := by
    rw [heq]
    intro hc
    obtain rfl : c = 0x30 := Option.some.inj hc
    rw [hzero rfl]
  have hnumber := IsNumber.parts hsign hwhole hlone .none .none
  rwa [List.append_nil, List.append_nil] at hnumber

theorem isNumber_writeInteger (n : Int) : IsNumber (writeInteger n) := by
  cases n with
  | ofNat n =>
      show IsNumber (writeInteger (n : Int))
      rw [writeInteger_natural]
      exact isNumber_decimal (.inl rfl) n
  | negSucc n =>
      show IsNumber (writeInteger (-((n + 1 : Nat) : Int)))
      rw [writeInteger_negative (Nat.succ_pos n)]
      exact isNumber_decimal (.inr rfl) (n + 1)

theorem wellformed_scalar {v : Value} (h : v.IsScalar) : Wellformed v.write := by
  cases h with
  | null => exact .null
  | bool b =>
      cases b with
      | true => exact .true
      | false => exact .false
  | text s => exact .string (spells_writeText s).isString
  | @integer n => exact .number (isNumber_writeInteger n)

/-- An object of members whose values are texts of the grammar is one of them. -/
theorem wellformed_members {ms : List Member} (h : ∀ m ∈ ms, Wellformed m.value.text)
    {blanks : Bytes} (hblanks : Blanks blanks) :
    Wellformed (enclosed .object (ms.map Member.bytes) blanks) := by
  have hobject : Wellformed (enclosed .object ((ms.map fun m => (m.title, m.value)).map fun m =>
      m.1.bytes ++ 0x3A :: m.2.bytes) blanks) :=
    .object (List.forall_mem_map.2 fun m _ => m.spells.isString) (List.forall_mem_map.2 h) hblanks
  rwa [List.map_map] at hobject

/-- Each layout of a value is a text of the grammar. -/
theorem Lays.wellformed {v : Value} {t : Bytes} (h : Lays v t) : Wellformed t := by
  induction h with
  | scalar h => exact wellformed_scalar h
  | text h => exact .string h.isString
  | @array items blanks _ hblanks ih =>
      have harray : Wellformed (enclosed .array ((items.map Prod.snd).map Padded.bytes) blanks) :=
        .array (List.forall_mem_map.2 ih) hblanks
      rwa [List.map_map] at harray
  | @object ms blanks _ hblanks ih =>
      have hobject : Wellformed (enclosed .object ((ms.map Prod.snd).map Member.bytes) blanks) :=
        wellformed_members (List.forall_mem_map.2 ih) hblanks
      rwa [List.map_map] at hobject

/-! ## Scalars -/

theorem skipText_pieces {pieces : List Bytes} (h : ∀ p ∈ pieces, StringPiece p) (behind : Bytes) :
    skipText (pieces.flatten ++ 0x22 :: behind) = .ok behind := by
  induction pieces with
  | nil => rfl
  | cons p pieces ih =>
      obtain ⟨hp, hmore⟩ := List.forall_mem_cons.1 h
      rw [List.flatten_cons, List.append_assoc]
      cases hp with
      | @plain b hb =>
          obtain ⟨hlow, hquote, hslash⟩ := hb
          have hcontrol : ¬b < 0x20 := by
            rw [UInt8.lt_iff_toNat_lt]
            exact Nat.not_lt.2 hlow
          rw [List.singleton_append, skipText, if_neg hquote, if_neg hcontrol, ih hmore]
          all_goals
            intros
            contradiction
      | @short e he =>
          have hshort : (shortEscapes.map Prod.snd).all
              (fun e => e ≠ 0x75 ∧ (shortEscape? e).isSome) = true := by
            decide
          obtain ⟨hne, hsome⟩ := of_decide_eq_true (List.all_eq_true.1 hshort e he)
          simp only [List.cons_append, List.nil_append]
          rw [skipText, if_neg hne, if_pos hsome, ih hmore]
          intro a b c d rest heq
          exact absurd heq hne
      | unit hdigits =>
          simp only [List.cons_append, List.nil_append]
          rw [skipText, if_pos hdigits, ih hmore]

/-- Digits are dropped up to what cannot continue them. -/
theorem dropWhile_digits {digits behind : Bytes} (h : ∀ c ∈ digits, Ascii.isDigit c)
    (hbehind : ∀ c ∈ behind.head?, Ascii.isDigit c = false) :
    (digits ++ behind).dropWhile Ascii.isDigit = behind := by
  rw [List.dropWhile_append_of_pos h]
  cases behind with
  | nil => rfl
  | cons c t => exact List.dropWhile_cons_of_neg (by simp [hbehind c rfl])

theorem skipExponent_digits {sign digits behind : Bytes}
    (hsign : sign = [] ∨ sign = [0x2B] ∨ sign = [0x2D]) (h : IsDigits digits)
    (hbehind : EndsNumber behind) : skipExponent (sign ++ digits ++ behind) = .ok behind := by
  obtain ⟨hne, hdigits⟩ := h
  cases digits with
  | nil => exact absurd rfl hne
  | cons c digits =>
      obtain ⟨hc, hmore⟩ := List.forall_mem_cons.1 hdigits
      have hdrop := dropWhile_digits hmore fun x hx => (hbehind x hx).1
      have hplus : c ≠ 0x2B := ne_of_isDigit hc rfl
      have hminus : c ≠ 0x2D := ne_of_isDigit hc rfl
      obtain rfl | rfl | rfl := hsign <;> simp [skipExponent, hc, hdrop, hplus, hminus]

theorem finishes_exponent {exponent behind : Bytes} (h : IsExponent exponent)
    (hbehind : EndsNumber behind) : Finishes (exponent ++ behind) behind := by
  cases h with
  | none =>
      refine .plain rfl (fun after heq => ?_) fun after heq => ?_
      · exact (hbehind 0x65 (by rw [← List.nil_append behind, heq]; rfl)).2.2.1 rfl
      · exact (hbehind 0x45 (by rw [← List.nil_append behind, heq]; rfl)).2.2.2 rfl
  | power he hsign hdigits =>
      obtain rfl | rfl := he
      · exact .lower rfl (skipExponent_digits hsign hdigits hbehind)
      · exact .upper rfl (skipExponent_digits hsign hdigits hbehind)

/-- What follows the digits of a number continues them no more. -/
theorem head_exponent {exponent behind : Bytes} (h : IsExponent exponent)
    (hbehind : EndsNumber behind) :
    ∀ c ∈ (exponent ++ behind).head?, Ascii.isDigit c = false ∧ c ≠ 0x2E := by
  intro c hc
  cases h with
  | none => exact ⟨(hbehind c hc).1, (hbehind c hc).2.1⟩
  | @power e _ _ he =>
      obtain rfl : e = c := Option.some.inj hc
      obtain rfl | rfl := he <;> decide

theorem skipNumber_parts {whole fraction exponent behind : Bytes} (hwhole : IsDigits whole)
    (hzero : whole.head? = some 0x30 → whole = [0x30]) (hfraction : IsFraction fraction)
    (hexponent : IsExponent exponent) (hbehind : EndsNumber behind) :
    skipNumber (whole ++ (fraction ++ (exponent ++ behind))) = .ok behind := by
  have hstop := head_exponent hexponent hbehind
  have hfinishes := finishes_exponent hexponent hbehind
  have hafter : ∀ c ∈ (fraction ++ (exponent ++ behind)).head?, Ascii.isDigit c = false := by
    intro c hc
    cases hfraction with
    | none => exact (hstop c hc).1
    | places h =>
        obtain rfl : 0x2E = c := Option.some.inj hc
        rfl
  obtain ⟨hne, hdigits⟩ := hwhole
  cases whole with
  | nil => exact absurd rfl hne
  | cons c more =>
      obtain ⟨hc, hmore⟩ := List.forall_mem_cons.1 hdigits
      have hplain : ¬(!Ascii.isDigit c || (c == 0x30 &&
          (more ++ (fraction ++ (exponent ++ behind))).head?.any Ascii.isDigit)) = true := by
        rw [Bool.or_eq_true, Bool.and_eq_true, hc]
        rintro (h | ⟨h, hany⟩)
        · cases h
        · obtain rfl := beq_iff_eq.1 h
          obtain rfl := (List.cons.inj (hzero rfl)).2
          obtain ⟨d, hd, hdigit⟩ := (Option.any_eq_true _ _).1 hany
          rw [hafter d hd] at hdigit
          cases hdigit
      have hdrop := dropWhile_digits hmore hafter
      cases hfraction with
      | none =>
          refine skipNumber_whole hplain hdrop (fun fraction heq => ?_) hfinishes
          exact (hstop 0x2E (by rw [← List.nil_append (exponent ++ behind), heq]; rfl)).2 rfl
      | @places digits h =>
          obtain ⟨hne, hdigits⟩ := h
          have hplace : (digits ++ (exponent ++ behind)).head?.any Ascii.isDigit := by
            cases digits with
            | nil => exact absurd rfl hne
            | cons d t => exact hdigits d List.mem_cons_self
          exact skipNumber_fraction hplain hdrop hplace
            (dropWhile_digits hdigits fun c hc => (hstop c hc).1) hfinishes

/-- A text over which one passes as over a value, whatever stands behind it. -/
structure Stands (t : Bytes) : Prop where
  begins : Begins t
  passes : ∀ {behind}, EndsNumber behind → Passes (t ++ behind) behind

theorem Stands.padded {p : Padded} (h : Stands p.text) {behind : Bytes}
    (hbehind : EndsNumber behind) :
    Passes (p.bytes ++ behind) (p.after ++ behind) := by
  apply Passes.of_skipBlanks
  rw [Padded.skipBlanks_bytes h.begins]
  exact h.passes (p.after_blanks.endsNumber hbehind)

theorem stands_scalar {c : UInt8} {u : Bytes} (hblank : isBlank c = false)
    (hopen : Bracket.ofOpen? c = none) (hclose : ∀ b : Bracket, c ≠ b.close)
    (h : ∀ {behind}, EndsNumber behind → skipScalar c (u ++ behind) = .ok behind) :
    Stands (c :: u) :=
  ⟨⟨c, u, rfl, hblank, hclose⟩, fun hbehind =>
    passes_scalar (skipBlanks_cons hblank _) hopen (h hbehind)⟩

theorem skipScalar_digit {c : UInt8} (h : Ascii.isDigit c = true) (rest : Bytes) :
    skipScalar c rest = skipNumber (c :: rest) := by
  have hne (x : UInt8) (hx : Ascii.isDigit x = false) : c ≠ x := ne_of_isDigit h hx
  rw [skipScalar, if_neg (hne _ rfl), if_neg (hne _ rfl), if_neg (hne _ rfl), if_neg (hne _ rfl),
    if_neg (hne _ rfl), if_pos h]

theorem stands_string {t : Bytes} (h : IsString t) : Stands t := by
  obtain ⟨pieces, hpieces, rfl⟩ := h
  refine stands_scalar rfl rfl (fun b => by cases b <;> decide) fun {behind} _ => ?_
  rw [List.append_assoc, List.singleton_append]
  exact skipText_pieces hpieces behind

theorem stands_number {t : Bytes} (h : IsNumber t) : Stands t := by
  cases h with
  | @parts sign whole fraction exponent hsign hwhole hzero hfraction hexponent =>
      have hskip : ∀ {behind}, EndsNumber behind →
          skipNumber (whole ++ (fraction ++ exponent) ++ behind) = .ok behind := by
        intro behind hbehind
        rw [List.append_assoc, List.append_assoc]
        exact skipNumber_parts hwhole hzero hfraction hexponent hbehind
      obtain rfl | rfl := hsign
      · cases whole with
        | nil => exact absurd rfl hwhole.1
        | cons c more =>
            have hc := hwhole.2 c List.mem_cons_self
            obtain ⟨hblank, hopen⟩ := not_isBlank_of_isDigit hc
            have hclose : ∀ b : Bracket, c ≠ b.close := fun b =>
              ne_of_isDigit hc (by cases b <;> rfl)
            refine stands_scalar hblank hopen hclose fun hbehind => ?_
            rw [skipScalar_digit hc]
            exact hskip hbehind
      · exact stands_scalar rfl rfl (fun b => by cases b <;> decide) hskip

/-! ## Brackets -/

/-- A part of a bracket over which one passes up to what follows its value. -/
structure PassesPart (b : Bracket) (part after : Bytes) : Prop where
  blanks : Blanks after
  passes : ∀ {behind}, EndsNumber behind → ∃ d more mid, skipBlanks (part ++ behind) = d :: more ∧
    d ≠ b.close ∧ skipName b (d :: more) = .ok mid ∧ Passes mid (after ++ behind)

/-- Blanks before a name do not matter, and where no name stands they belong to the value. -/
theorem passes_skipName {b : Bracket} {s mid rest : Bytes}
    (hname : skipName b (skipBlanks s) = .ok mid) (h : Passes mid rest) :
    ∃ mid', skipName b s = .ok mid' ∧ Passes mid' rest := by
  cases b with
  | array =>
      obtain rfl := Except.ok.inj hname
      exact ⟨s, rfl, h.of_skipBlanks⟩
  | object =>
      have hsame : skipName .object (skipBlanks s) = skipName .object s := by
        unfold skipName
        rw [skipBlanks_skipBlanks]
        cases skipBlanks s <;> rfl
      exact ⟨mid, hsame ▸ hname, h⟩

theorem passesRest_parts {b : Bracket} {parts : List (Bytes × Bytes)}
    (h : ∀ p ∈ parts, PassesPart b p.1 p.2) (first : Bool) {blanks blanks' : Bytes}
    (hblanks : Blank blanks) (hblanks' : Blanks blanks') (rest : Bytes) :
    PassesRest b first
      (blanks ++ (itemsSpelled first (parts.map Prod.fst) ++ (blanks' ++ b.close :: rest))) rest := by
  induction parts generalizing first blanks with
  | nil =>
      apply passesRest_close
      rw [hblanks, List.map_nil, itemsSpelled, List.nil_append, hblanks'.blank]
      exact skipBlanks_cons (by cases b <;> decide) _
  | cons p parts ih =>
      obtain ⟨hp, hmore⟩ := List.forall_mem_cons.1 h
      obtain ⟨d, more, mid, hd, hne, hname, hvalue⟩ :=
        hp.passes (endsNumber_parts b (parts.map Prod.fst) hblanks' rest)
      have hon := ih hmore false hp.blanks.blank
      rw [List.map_cons, itemsSpelled, List.append_assoc, List.append_assoc]
      cases first with
      | true =>
          refine .value ?_ hne hname hvalue hon
          rw [hblanks, if_pos rfl, List.nil_append, hd]
      | false =>
          obtain ⟨mid', hname', hvalue'⟩ := passes_skipName (hd ▸ hname) hvalue
          refine passesOn_comma ?_ hname' hvalue' hon
          rw [hblanks, if_neg Bool.false_ne_true]
          exact skipBlanks_cons rfl _

theorem stands_enclosed {b : Bracket} {parts : List (Bytes × Bytes)}
    (h : ∀ p ∈ parts, PassesPart b p.1 p.2) {blanks : Bytes} (hblanks : Blanks blanks) :
    Stands (enclosed b (parts.map Prod.fst) blanks) := by
  refine ⟨begins_enclosed _ _ _, fun {behind} _ => ?_⟩
  have hopen : Bracket.ofOpen? b.opening = some b := by cases b <;> rfl
  exact passes_bracket (skipBlanks_enclosed b _ blanks behind) hopen
    (passesRest_parts h true blank_nil hblanks behind)

theorem Stands.item {p : Padded} (h : Stands p.text) : PassesPart .array p.bytes p.after := by
  refine ⟨p.after_blanks, fun {behind} hbehind => ?_⟩
  obtain ⟨c, u, htext, -, hclose⟩ := h.begins
  refine ⟨c, u ++ (p.after ++ behind), _, ?_, hclose .array, rfl, ?_⟩
  · rw [Padded.skipBlanks_bytes h.begins, htext]
    rfl
  · rw [← List.cons_append, ← htext]
    exact h.passes (p.after_blanks.endsNumber hbehind)

theorem Stands.member {title p : Padded} (htitle : IsString title.text) (h : Stands p.text) :
    PassesPart .object (title.bytes ++ 0x3A :: p.bytes) p.after := by
  refine ⟨p.after_blanks, fun {behind} hbehind => ?_⟩
  have hbegins := (stands_string htitle).begins
  obtain ⟨pieces, hpieces, htext⟩ := htitle
  have hcolon : colon (title.after ++ 0x3A :: (p.bytes ++ behind)) = .ok (p.bytes ++ behind) := by
    rw [colon, title.after_blanks.blank, skipBlanks_cons rfl]
    rfl
  refine ⟨0x22, pieces.flatten ++ 0x22 :: (title.after ++ 0x3A :: (p.bytes ++ behind)), _, ?_,
    by decide, ?_, h.padded hbehind⟩
  · rw [List.append_assoc, Padded.skipBlanks_bytes hbegins, htext]
    simp
  · simp only [skipName, skipBlanks_cons (show isBlank 0x22 = false from rfl), if_true,
      skipText_pieces hpieces, hcolon]

/-- A text of the grammar is passed over up to its end, wherever it stands. -/
theorem Wellformed.stands {t : Bytes} (h : Wellformed t) : Stands t := by
  induction h with
  | null | true | false =>
      exact stands_scalar rfl rfl (fun b => by cases b <;> decide) fun _ => rfl
  | string h => exact stands_string h
  | number h => exact stands_number h
  | @array items blanks _ hblanks ih =>
      have hparts : ∀ p ∈ items.map fun p => (p.bytes, p.after), PassesPart .array p.1 p.2 :=
        List.forall_mem_map.2 fun p hp => (ih p hp).item
      have hstands := stands_enclosed hparts hblanks
      rwa [List.map_map] at hstands
  | @object members blanks htitles _ hblanks ih =>
      have hparts : ∀ p ∈ members.map fun m => (m.1.bytes ++ 0x3A :: m.2.bytes, m.2.after),
          PassesPart .object p.1 p.2 :=
        List.forall_mem_map.2 fun m hm => (ih m hm).member (htitles m hm)
      have hstands := stands_enclosed hparts hblanks
      rwa [List.map_map] at hstands

/-! ## Runs over members -/

/-- The value of a member is passed over, whatever it is. -/
theorem Member.skip {m : Member} (h : Wellformed m.value.text) {behind : Bytes}
    (hbehind : EndsNumber behind) {steps : Nat} (hroom : (m.afterName behind).length ≤ steps) :
    afterColon (fun t => (skipValue steps t).map ((), ·)) (m.afterName behind) =
      .ok ((), m.value.after ++ behind) := by
  have hskip : skipValue steps (m.value.bytes ++ behind) = .ok (m.value.after ++ behind) := by
    refine (h.stands.padded hbehind).skipValue ?_
    rw [Member.length_afterName] at hroom
    rw [List.length_append]
    omega
  rw [afterColon, m.colon_afterName]
  simp only [hskip]
  rfl

/-- A reader of members went from one state to the next over a member before something that followed
it. -/
def Advanced {σ : Type} (member : σ → String → Bytes → Step σ) (room : Nat) (found : σ) (m : Member)
    (next : σ) : Prop :=
  ∃ behind, EndsNumber behind ∧ (m.afterName behind).length ≤ room ∧
    member found m.name (m.afterName behind) = .ok (next, m.value.after ++ behind)

/-- What is read of members that are laid out is read of them one after the other, and it ends
with the last one. -/
theorem chain_of_membersAfter {σ : Type} {member : σ → String → Bytes → Step σ}
    (hends : ∀ found name, EndsMember (member found name)) {room : Nat} {ms : List Member}
    (hms : ∀ m ∈ ms, Stands m.value.text) {n : Nat} {first : Bool}
    {blanks blanks' rest rest' : Bytes} (hblanks : Blank blanks) (hblanks' : Blanks blanks')
    {found last : σ}
    (hroom : (itemsSpelled first (ms.map Member.bytes) ++ (blanks' ++ 0x7D :: rest)).length ≤ room)
    (h : membersAfter member n first found
      (blanks ++ (itemsSpelled first (ms.map Member.bytes) ++ (blanks' ++ 0x7D :: rest))) =
        .ok (last, rest')) :
    rest' = rest ∧ Chain (Advanced member room) found ms last := by
  induction ms generalizing n first blanks found with
  | nil =>
      cases n with
      | zero => cases h
      | succ n =>
          rw [membersAfter, List.map_nil, nextMember_close hblanks hblanks'.blank] at h
          obtain ⟨rfl, rfl⟩ := Prod.mk.inj (Except.ok.inj h)
          exact ⟨rfl, .nil _⟩
  | cons m ms ih =>
      cases n with
      | zero => cases h
      | succ n =>
          obtain ⟨hfirst, hmore⟩ := List.forall_mem_cons.1 hms
          rw [membersAfter, List.map_cons, nextMember_part m hblanks] at h
          simp only at h
          split at h
          · cases h
          · next next mid hread =>
              have hbehind : EndsNumber (itemsSpelled false (ms.map Member.bytes) ++
                  (blanks' ++ 0x7D :: rest)) :=
                endsNumber_parts .object _ hblanks' rest
              rw [List.map_cons, itemsSpelled] at hroom
              simp only [List.length_append, Member.length_bytes, m.title.length_bytes] at hroom
              obtain ⟨t, hcolon, hpasses⟩ := hends _ _ hread
              rw [m.colon_afterName] at hcolon
              obtain rfl := Except.ok.inj hcolon
              obtain rfl := hpasses.unique (hfirst.padded hbehind)
              obtain ⟨hrest, hchain⟩ := ih hmore m.value.after_blanks.blank
                (by simp only [List.length_append]; omega) h
              refine ⟨hrest, .cons ⟨_, hbehind, ?_, hread⟩ hchain⟩
              simp only [Member.length_afterName, List.length_append]
              omega

end TopicWatch.Json
