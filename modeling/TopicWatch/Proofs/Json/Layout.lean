import TopicWatch.Proofs.Json.Skip

/-!
# Layouts of values

A value may be laid out in many ways: blanks may stand between its tokens, and the characters of
its strings may be escaped. It is read from each of its layouts, and the reader is left behind it.
-/

namespace TopicWatch.Json

/-! ## Blanks -/

/-- Bytes that may stand between tokens. -/
def Blanks (s : Bytes) : Prop := ∀ b ∈ s, b = 0x20 ∨ b = 0x0A ∨ b = 0x09 ∨ b = 0x0D

instance (s : Bytes) : Decidable (Blanks s) :=
  List.decidableBAll (fun b => b = 0x20 ∨ b = 0x0A ∨ b = 0x09 ∨ b = 0x0D) s

theorem Blanks.blank {s : Bytes} (h : Blanks s) : Blank s := by
  apply blank_of_skipBlanks
  rw [skipBlanks, List.isEmpty_iff, List.dropWhile_eq_nil_iff]
  exact fun b hb => (isBlank_iff b).2 (h b hb)

theorem Blanks.endsNumber {s behind : Bytes} (h : Blanks s) (hbehind : EndsNumber behind) :
    EndsNumber (s ++ behind) := by
  cases s with
  | nil => exact hbehind
  | cons b s =>
      intro c hc
      obtain rfl : b = c := Option.some.inj hc
      obtain rfl | rfl | rfl | rfl := h b List.mem_cons_self <;> decide

/-- A text with blanks before it and behind it. -/
structure Padded where
  before : Bytes
  text : Bytes
  after : Bytes
  before_blanks : Blanks before
  after_blanks : Blanks after

namespace Padded

/-- The text together with the blanks. -/
def bytes (p : Padded) : Bytes := p.before ++ (p.text ++ p.after)

theorem length_bytes (p : Padded) :
    p.bytes.length = p.before.length + (p.text.length + p.after.length) := by
  rw [bytes, List.length_append, List.length_append]

/-- A text without blanks around it. -/
def bare (text : Bytes) : Padded := ⟨[], text, [], nofun, nofun⟩

end Padded

/-- A text that begins with a token which closes no bracket. -/
def Begins (t : Bytes) : Prop := ∃ c u, t = c :: u ∧ isBlank c = false ∧ ∀ b : Bracket, c ≠ b.close

theorem Padded.skipBlanks_bytes {p : Padded} (h : Begins p.text) (behind : Bytes) :
    skipBlanks (p.bytes ++ behind) = p.text ++ (p.after ++ behind) := by
  obtain ⟨c, u, htext, hblank, -⟩ := h
  rw [bytes, List.append_assoc, List.append_assoc, p.before_blanks.blank, htext]
  exact skipBlanks_cons hblank _

/-! ## Strings -/

/-- The escapes of one letter. -/
def shortEscapes : List (Char × UInt8) :=
  [('"', 0x22), ('\\', 0x5C), ('/', 0x2F), ('\x08', 0x62), ('\x0c', 0x66), ('\n', 0x6E),
    ('\r', 0x72), ('\t', 0x74)]

/-- The ways to spell a character in a string: as it stands, if it is no control character, quote
or backslash, by one letter, by four digits, or by the two halves of a pair. -/
inductive SpellsChar : Char → Bytes → Prop
  | plain {ch : Char} (hlow : ' ' ≤ ch) (hquote : ch ≠ '"') (hslash : ch ≠ '\\') :
      SpellsChar ch (String.utf8EncodeChar ch)
  | short {ch : Char} {e : UInt8} (h : (ch, e) ∈ shortEscapes) : SpellsChar ch [0x5C, e]
  | unit {ch : Char} {a b c d : UInt8} (h : hexFour? a b c d = some ch.toNat) :
      SpellsChar ch [0x5C, 0x75, a, b, c, d]
  | pair {ch : Char} {a b c d a' b' c' d' : UInt8} {high low : Nat}
      (hhigh : hexFour? a b c d = some (0xD800 + high))
      (hlow : hexFour? a' b' c' d' = some (0xDC00 + low)) (hfirst : high < 0x400)
      (hsecond : low < 0x400)
      (hch : ch.toNat = 0x10000 + high * 0x400 + low) :
      SpellsChar ch [0x5C, 0x75, a, b, c, d, 0x5C, 0x75, a', b', c', d']

/-- The ways to spell characters one after the other. -/
inductive SpellsChars : List Char → Bytes → Prop
  | nil : SpellsChars [] []
  | cons {ch : Char} {cs : List Char} {t ts : Bytes} (head : SpellsChar ch t)
      (tail : SpellsChars cs ts) : SpellsChars (ch :: cs) (t ++ ts)

/-- The ways to spell a string between its quotes. -/
def SpellsText (s : String) (t : Bytes) : Prop :=
  ∃ ts, SpellsChars s.toList ts ∧ t = 0x22 :: (ts ++ [0x22])

theorem textAfter_pair {a b c d a' b' c' d' : UInt8} {ch : Char} {high low : Nat}
    (hhigh : hexFour? a b c d = some (0xD800 + high))
    (hlow : hexFour? a' b' c' d' = some (0xDC00 + low)) (hfirst : high < 0x400)
    (hsecond : low < 0x400) (hch : ch.toNat = 0x10000 + high * 0x400 + low) (read s : Bytes) :
    textAfter read none
        ([0x5C, 0x75, a, b, c, d, 0x5C, 0x75, a', b', c', d'] ++ s) =
      textAfter ((String.utf8EncodeChar ch).reverse ++ read) none s := by
  have hhalf : Unit16.of none (0xD800 + high) = .firstHalf (0xD800 + high) := by
    rw [Unit16.of, if_pos (by omega)]
  have hchar : Unit16.of (some (0xD800 + high)) (0xDC00 + low) = .char ch := by
    rw [Unit16.of, if_pos (by omega)]
    have hnumber : (0xD800 + high - 0xD800) * 0x400 + (0xDC00 + low - 0xDC00) + 0x10000 =
        ch.toNat := by omega
    rw [hnumber, Char.ofNat_toNat]
  simp only [List.cons_append, List.nil_append]
  rw [textAfter, hhigh]
  simp only [hhalf]
  rw [textAfter, hlow]
  simp only [hchar]

/-- However a character is spelled, it is read as its UTF-8 bytes. -/
theorem SpellsChar.textAfter {ch : Char} {t : Bytes} (h : SpellsChar ch t) (read s : Bytes) :
    textAfter read none (t ++ s) =
      textAfter ((String.utf8EncodeChar ch).reverse ++ read) none s := by
  cases h with
  | plain hlow hquote hslash =>
      exact textAfter_plain_append
        (fun b hb => isPlain_of_mem_encodeChar hlow hquote hslash hb) read s
  | short h =>
      have hshort : ∀ p ∈ shortEscapes,
          (shortEscape? p.2).map ([·]) = some (String.utf8EncodeChar p.1) := by
        decide
      obtain ⟨x, hx, hbytes⟩ := Option.map_eq_some_iff.1 (hshort _ h)
      rw [← hbytes]
      exact textAfter_short hx read s
  | unit h =>
      -- the number of a character is no half of a pair
      have hvalid : ch.toNat < 0xD800 ∨ 0xDFFF < ch.toNat ∧ ch.toNat < 0x110000 := ch.valid
      refine textAfter_unit h ?_ read s
      rw [Unit16.of, if_neg (by omega), if_neg (by omega), Char.ofNat_toNat]
  | pair hhigh hlow hfirst hsecond hch => exact textAfter_pair hhigh hlow hfirst hsecond hch read s

theorem SpellsChars.textAfter {cs : List Char} {ts : Bytes} (h : SpellsChars cs ts)
    (read s : Bytes) :
    textAfter read none (ts ++ s) =
      textAfter ((cs.flatMap String.utf8EncodeChar).reverse ++ read) none s := by
  induction h generalizing read with
  | nil => rfl
  | cons head _ ih =>
      rw [List.append_assoc, head.textAfter, ih]
      simp

theorem SpellsText.read {s : String} {t : Bytes} (h : SpellsText s t) :
    ∃ u, t = 0x22 :: u ∧ ∀ behind, readText (u ++ behind) = .ok (s, behind) := by
  obtain ⟨ts, hchars, rfl⟩ := h
  refine ⟨_, rfl, fun behind => ?_⟩
  have hbytes : ((s.toList.flatMap String.utf8EncodeChar).reverse ++ []).reverse =
      Utf8.encode s := by
    rw [List.append_nil, List.reverse_reverse]
    rfl
  rw [List.append_assoc, readText, hchars.textAfter, List.singleton_append, textAfter_close, hbytes,
    Utf8.decode?_encode]

theorem SpellsText.begins {s : String} {t : Bytes} (h : SpellsText s t) : Begins t := by
  obtain ⟨ts, -, rfl⟩ := h
  exact ⟨0x22, _, rfl, rfl, fun b => by cases b <;> decide⟩

theorem spells_escape (ch : Char) : SpellsChar ch (escape ch) := by
  unfold escape
  split
  · exact .short (by decide)
  · exact .short (by decide)
  · exact .short (by decide)
  · exact .short (by decide)
  · exact .short (by decide)
  · exact .short (by decide)
  · exact .short (by decide)
  · next hquote hslash _ _ _ _ _ =>
      split
      · next hlt => exact .unit (hexFour?_control hlt)
      · next hge => exact .plain (Char.not_lt.1 hge) hquote hslash

theorem spells_escapes (cs : List Char) : SpellsChars cs (cs.flatMap escape) := by
  induction cs with
  | nil => exact .nil
  | cons c cs ih => exact .cons (spells_escape c) ih

/-- What is written for a string is one of its spellings. -/
theorem spells_writeText (s : String) : SpellsText s (writeText s) :=
  ⟨_, spells_escapes s.toList, rfl⟩

/-! ## Items and members -/

/-- The byte that opens a bracket. -/
def Bracket.opening : Bracket → UInt8
  | array => 0x5B
  | object => 0x7B

/-- A bracket around parts with commas between them, and with blanks before its end. -/
def enclosed (b : Bracket) (parts : List Bytes) (blanks : Bytes) : Bytes :=
  b.opening :: (itemsSpelled true parts ++ (blanks ++ [b.close]))

theorem begins_enclosed (b : Bracket) (parts : List Bytes) (blanks : Bytes) :
    Begins (enclosed b parts blanks) :=
  ⟨_, _, rfl, by cases b <;> decide, fun b' => by cases b <;> cases b' <;> decide⟩

theorem enclosed_append (b : Bracket) (parts : List Bytes) (blanks behind : Bytes) :
    enclosed b parts blanks ++ behind =
      b.opening :: (itemsSpelled true parts ++ (blanks ++ b.close :: behind)) := by
  simp [enclosed]

theorem skipBlanks_enclosed (b : Bracket) (parts : List Bytes) (blanks behind : Bytes) :
    skipBlanks (enclosed b parts blanks ++ behind) =
      b.opening :: (itemsSpelled true parts ++ (blanks ++ b.close :: behind)) := by
  rw [enclosed_append]
  exact skipBlanks_cons (by cases b <;> decide) _

/-- A bracket takes two bytes, and each of its parts but the first takes one at least. -/
theorem length_le_enclosed (b : Bracket) (parts : List Bytes) (blanks behind : Bytes) :
    parts.length + 1 ≤ (enclosed b parts blanks ++ behind).length ∧
      (itemsSpelled true parts ++ (blanks ++ b.close :: behind)).length ≤
        (enclosed b parts blanks ++ behind).length := by
  have hcount := (length_le_itemsSpelled true parts).1
  rw [if_pos rfl] at hcount
  rw [enclosed_append, List.length_cons]
  simp only [List.length_append, List.length_cons]
  omega

/-- After a part stand blanks, and then a comma or the end of the bracket. -/
theorem endsNumber_parts (b : Bracket) (parts : List Bytes) {blanks : Bytes}
    (hblanks : Blanks blanks) (rest : Bytes) :
    EndsNumber (itemsSpelled false parts ++ (blanks ++ b.close :: rest)) := by
  cases parts with
  | nil =>
      refine hblanks.endsNumber fun c hc => ?_
      obtain rfl : b.close = c := Option.some.inj hc
      cases b <;> decide
  | cons t ts =>
      intro c hc
      obtain rfl : 0x2C = c := Option.some.inj hc
      decide

theorem nextItem_close {blanks blanks' : Bytes} (h : Blank blanks) (h' : Blank blanks')
    (first : Bool) (rest : Bytes) :
    nextItem first (blanks ++ (itemsSpelled first [] ++ (blanks' ++ 0x5D :: rest))) =
      .ok (.closed rest) := by
  rw [nextItem, h, itemsSpelled, List.nil_append, h']
  rfl

theorem nextItem_part {p : Padded} (h : Begins p.text) {blanks : Bytes} (hblanks : Blank blanks)
    (first : Bool) (parts : List Bytes) (behind : Bytes) :
    nextItem first (blanks ++ (itemsSpelled first (p.bytes :: parts) ++ behind)) =
      .ok (.item (p.text ++ (p.after ++ (itemsSpelled false parts ++ behind)))) := by
  have hbytes := Padded.skipBlanks_bytes h (itemsSpelled false parts ++ behind)
  obtain ⟨c, u, htext, -, hclose⟩ := h
  have hbegins : skipBlanks (p.bytes ++ (itemsSpelled false parts ++ behind)) =
      c :: (u ++ (p.after ++ (itemsSpelled false parts ++ behind))) := by
    rw [hbytes, htext, List.cons_append]
  rw [itemsSpelled, List.append_assoc, List.append_assoc,
    nextItem_spelled hbegins (hclose .array) hblanks, hbytes]

/-- A member of an object: its name, however it is spelled, and the text of its value. -/
structure Member where
  name : String
  title : Padded
  value : Padded
  spells : SpellsText name title.text

namespace Member

/-- The text of a member. -/
def bytes (m : Member) : Bytes := m.title.bytes ++ 0x3A :: m.value.bytes

/-- What follows the name of a member. -/
def afterName (m : Member) (behind : Bytes) : Bytes :=
  m.title.after ++ 0x3A :: (m.value.bytes ++ behind)

theorem length_bytes (m : Member) :
    m.bytes.length = m.title.bytes.length + (m.value.bytes.length + 1) := by
  rw [bytes, List.length_append, List.length_cons]

theorem length_afterName (m : Member) (behind : Bytes) :
    (m.afterName behind).length =
      m.title.after.length + (m.value.bytes.length + behind.length + 1) := by
  rw [afterName, List.length_append, List.length_cons, List.length_append]

theorem colon_afterName (m : Member) (behind : Bytes) :
    colon (m.afterName behind) = .ok (m.value.bytes ++ behind) := by
  rw [colon, afterName, m.title.after_blanks.blank, skipBlanks_cons rfl]
  rfl

end Member

theorem nextMember_close {blanks blanks' : Bytes} (h : Blank blanks) (h' : Blank blanks')
    (first : Bool) (rest : Bytes) :
    nextMember first (blanks ++ (itemsSpelled first [] ++ (blanks' ++ 0x7D :: rest))) =
      .ok (.closed rest) := by
  rw [nextMember, h, itemsSpelled, List.nil_append, h']
  rfl

theorem nextMember_part (m : Member) {blanks : Bytes} (hblanks : Blank blanks) (first : Bool)
    (parts : List Bytes) (behind : Bytes) :
    nextMember first (blanks ++ (itemsSpelled first (m.bytes :: parts) ++ behind)) =
      .ok (.name m.name (m.afterName (itemsSpelled false parts ++ behind))) := by
  have hbytes : skipBlanks (m.bytes ++ (itemsSpelled false parts ++ behind)) =
      m.title.text ++ m.afterName (itemsSpelled false parts ++ behind) := by
    rw [Member.bytes, List.append_assoc, Padded.skipBlanks_bytes m.spells.begins]
    rfl
  obtain ⟨u, htext, hread⟩ := m.spells.read
  have hname : readName (m.title.text ++ m.afterName (itemsSpelled false parts ++ behind)) =
      .ok (.name m.name (m.afterName (itemsSpelled false parts ++ behind))) := by
    rw [htext, List.cons_append, readName, if_pos rfl, hread]
  rw [nextMember, hblanks, itemsSpelled, List.append_assoc, List.append_assoc]
  cases first with
  | true =>
      rw [if_pos rfl, List.nil_append, hbytes]
      rw [htext, List.cons_append] at hname ⊢
      exact hname
  | false =>
      rw [if_neg Bool.false_ne_true, List.singleton_append, skipBlanks_cons rfl]
      simp only [hbytes]
      exact hname

/-! ## Runs over items and members -/

/-- Steps that follow one another, one for each thing on a list. -/
inductive Chain {σ α : Type} (step : σ → α → σ → Prop) : σ → List α → σ → Prop
  | nil (s : σ) : Chain step s [] s
  | cons {a : α} {as : List α} {s s' s'' : σ} (head : step s a s') (tail : Chain step s' as s'') :
      Chain step s (a :: as) s''

/-- Items are read one after the other, however they are laid out. -/
theorem itemsAfter_laid {α : Type} (item : Bytes → Step α) {room : Nat} {items : List (α × Padded)}
    (hitems : ∀ i ∈ items, Begins i.2.text ∧ ∀ behind, EndsNumber behind →
      (i.2.text ++ behind).length ≤ room → item (i.2.text ++ behind) = .ok (i.1, behind))
    {n : Nat} (hn : items.length < n) (first : Bool) (found : List α) {blanks blanks' : Bytes}
    (hblanks : Blank blanks) (hblanks' : Blanks blanks') (rest : Bytes)
    (hroom : (itemsSpelled first (items.map fun i => i.2.bytes) ++
      (blanks' ++ 0x5D :: rest)).length ≤ room) :
    itemsAfter item n first found
        (blanks ++ (itemsSpelled first (items.map fun i => i.2.bytes) ++
          (blanks' ++ 0x5D :: rest))) =
      .ok (found.reverse ++ items.map Prod.fst, rest) := by
  induction items generalizing n first found blanks with
  | nil =>
      obtain ⟨n, rfl⟩ := Nat.exists_eq_add_one_of_ne_zero (Nat.ne_of_gt hn)
      rw [itemsAfter, List.map_nil, nextItem_close hblanks hblanks'.blank, List.map_nil,
        List.append_nil]
  | cons i items ih =>
      obtain ⟨n, rfl⟩ := Nat.exists_eq_add_one_of_ne_zero (Nat.ne_of_gt (Nat.zero_lt_of_lt hn))
      obtain ⟨⟨hbegins, hitem⟩, hmore⟩ := List.forall_mem_cons.1 hitems
      have hends : EndsNumber (i.2.after ++ (itemsSpelled false (items.map fun i => i.2.bytes) ++
          (blanks' ++ 0x5D :: rest))) :=
        i.2.after_blanks.endsNumber (endsNumber_parts .array _ hblanks' rest)
      rw [List.map_cons, itemsSpelled] at hroom
      simp only [List.length_append, Padded.length_bytes] at hroom
      have hread := hitem _ hends (by simp only [List.length_append]; omega)
      rw [itemsAfter, List.map_cons, nextItem_part hbegins hblanks]
      simp only [hread]
      rw [ih hmore (Nat.lt_of_succ_lt_succ hn) false _ i.2.after_blanks.blank
        (by simp only [List.length_append]; omega), List.reverse_cons, List.append_assoc]
      rfl

/-- A reader of members goes from one state to the next over a member, whatever follows it. -/
def Advances {σ : Type} (member : σ → String → Bytes → Step σ) (room : Nat) (found : σ) (m : Member)
    (next : σ) : Prop :=
  ∀ behind, EndsNumber behind → (m.afterName behind).length ≤ room →
    member found m.name (m.afterName behind) = .ok (next, m.value.after ++ behind)

/-- Members are read one after the other, however they are laid out. -/
theorem membersAfter_of_chain {σ : Type} {member : σ → String → Bytes → Step σ} {room : Nat}
    {ms : List Member} {found last : σ} (h : Chain (Advances member room) found ms last) {n : Nat}
    (hn : ms.length < n) (first : Bool) {blanks blanks' : Bytes} (hblanks : Blank blanks)
    (hblanks' : Blanks blanks') (rest : Bytes)
    (hroom : (itemsSpelled first (ms.map Member.bytes) ++
      (blanks' ++ 0x7D :: rest)).length ≤ room) :
    membersAfter member n first found
        (blanks ++ (itemsSpelled first (ms.map Member.bytes) ++ (blanks' ++ 0x7D :: rest))) =
      .ok (last, rest) := by
  induction h generalizing n first blanks with
  | nil found =>
      obtain ⟨n, rfl⟩ := Nat.exists_eq_add_one_of_ne_zero (Nat.ne_of_gt hn)
      rw [membersAfter, List.map_nil, nextMember_close hblanks hblanks'.blank]
  | @cons m ms found next last head _ ih =>
      obtain ⟨n, rfl⟩ := Nat.exists_eq_add_one_of_ne_zero (Nat.ne_of_gt (Nat.zero_lt_of_lt hn))
      have hends : EndsNumber (itemsSpelled false (ms.map Member.bytes) ++
          (blanks' ++ 0x7D :: rest)) :=
        endsNumber_parts .object _ hblanks' rest
      rw [List.map_cons, itemsSpelled] at hroom
      simp only [List.length_append, Member.length_bytes, m.title.length_bytes] at hroom
      have hread := head _ hends (by simp only [Member.length_afterName, List.length_append]; omega)
      rw [membersAfter, List.map_cons, nextMember_part m hblanks]
      simp only [hread]
      exact ih (Nat.lt_of_succ_lt_succ hn) false m.value.after_blanks.blank
        (by simp only [List.length_append]; omega)

/-! ## Values -/

/-- The layouts of a value, without blanks around it. -/
inductive Lays : Value → Bytes → Prop
  | scalar {v : Value} (h : v.IsScalar) : Lays v v.write
  | text {s : String} {t : Bytes} (h : SpellsText s t) : Lays (.text s) t
  | array {items : List (Value × Padded)} {blanks : Bytes} (h : ∀ i ∈ items, Lays i.1 i.2.text)
      (hblanks : Blanks blanks) :
      Lays (.array (items.map Prod.fst)) (enclosed .array (items.map fun i => i.2.bytes) blanks)
  | object {ms : List (Value × Member)} {blanks : Bytes} (h : ∀ m ∈ ms, Lays m.1 m.2.value.text)
      (hblanks : Blanks blanks) :
      Lays (.object (ms.map fun m => (m.2.name, m.1)))
        (enclosed .object (ms.map fun m => m.2.bytes) blanks)

theorem begins_of_scalar {c : UInt8} {t rest : Bytes} {v : Value} (hblank : isBlank c = false)
    (h : scalar c t = .ok (v, rest)) (u : Bytes) : Begins (c :: u) := by
  refine ⟨c, u, rfl, hblank, fun b => ?_⟩
  rintro rfl
  cases b <;> cases h

/-- A text that is read as a value up to what stands behind it, if so many brackets may be
opened. -/
structure Gives (depth : Nat) (t : Bytes) (v : Value) : Prop where
  begins : Begins t
  read : ∀ {steps opens : Nat}, depth ≤ opens → ∀ {behind}, EndsNumber behind →
    (t ++ behind).length ≤ steps → readValue steps opens (t ++ behind) = .ok (v, behind)

theorem Gives.padded {depth : Nat} {p : Padded} {v : Value} (h : Gives depth p.text v)
    {steps opens : Nat} (hopens : depth ≤ opens) {behind : Bytes} (hbehind : EndsNumber behind)
    (hroom : (p.bytes ++ behind).length ≤ steps) :
    readValue steps opens (p.bytes ++ behind) = .ok (v, p.after ++ behind) := by
  rw [← readValue_skipBlanks, Padded.skipBlanks_bytes h.begins]
  refine h.read hopens (p.after_blanks.endsNumber hbehind) ?_
  simp only [List.length_append, Padded.length_bytes] at hroom ⊢
  omega

theorem gives_array {depth : Nat} {items : List (Value × Padded)} {blanks : Bytes}
    (h : ∀ i ∈ items, Gives depth i.2.text i.1) (hblanks : Blanks blanks) :
    Gives (depth + 1) (enclosed .array (items.map fun i => i.2.bytes) blanks)
      (.array (items.map Prod.fst)) := by
  refine ⟨begins_enclosed _ _ _, fun {steps opens} hopens behind _ hroom => ?_⟩
  obtain ⟨n, rfl⟩ := Nat.exists_eq_add_one_of_ne_zero (Nat.ne_of_gt (Nat.zero_lt_of_lt hopens))
  obtain ⟨hcount, hlength⟩ :=
    length_le_enclosed .array (items.map fun i => i.2.bytes) blanks behind
  rw [List.length_map] at hcount
  have hitems := itemsAfter_laid (readValue steps n)
    (fun i hi => ⟨(h i hi).begins, fun _ => (h i hi).read (Nat.le_of_succ_le_succ hopens)⟩)
    (Nat.lt_of_lt_of_le hcount hroom) true [] blank_nil hblanks behind
    (Nat.le_trans hlength hroom)
  rw [List.nil_append] at hitems
  rw [readValue_bracket (skipBlanks_enclosed .array _ blanks behind)]
  simp only [Bracket.close, hitems]
  rfl

/-- The members of an object are collected one after the other. -/
theorem chain_collect {depth : Nat} {ms : List (Value × Member)}
    (h : ∀ m ∈ ms, Gives depth m.2.value.text m.1) (steps : Nat) {opens : Nat}
    (hopens : depth ≤ opens) (found : List (String × Value)) :
    Chain (Advances (collect (readValue steps opens)) steps) found (ms.map Prod.snd)
      ((ms.map fun m => (m.2.name, m.1)).reverse ++ found) := by
  induction ms generalizing found with
  | nil => exact .nil found
  | cons m ms ih =>
      obtain ⟨hfirst, hmore⟩ := List.forall_mem_cons.1 h
      rw [List.map_cons, List.map_cons, List.reverse_cons, List.append_assoc]
      refine .cons (fun behind hbehind hroom => ?_) (ih hmore _)
      rw [collect, afterColon, m.2.colon_afterName]
      have hvalue : (m.2.value.bytes ++ behind).length ≤ steps := by
        rw [Member.length_afterName] at hroom
        rw [List.length_append]
        omega
      simp only [hfirst.padded hopens hbehind hvalue]
      rfl

theorem gives_object {depth : Nat} {ms : List (Value × Member)} {blanks : Bytes}
    (h : ∀ m ∈ ms, Gives depth m.2.value.text m.1) (hblanks : Blanks blanks) :
    Gives (depth + 1) (enclosed .object (ms.map fun m => m.2.bytes) blanks)
      (.object (ms.map fun m => (m.2.name, m.1))) := by
  refine ⟨begins_enclosed _ _ _, fun {steps opens} hopens behind _ hroom => ?_⟩
  obtain ⟨n, rfl⟩ := Nat.exists_eq_add_one_of_ne_zero (Nat.ne_of_gt (Nat.zero_lt_of_lt hopens))
  have hparts : (ms.map fun m => m.2.bytes) = (ms.map Prod.snd).map Member.bytes := by
    rw [List.map_map]
    rfl
  obtain ⟨hcount, hlength⟩ :=
    length_le_enclosed .object ((ms.map Prod.snd).map Member.bytes) blanks behind
  rw [List.length_map] at hcount
  rw [hparts] at hroom ⊢
  have hmembers := membersAfter_of_chain
    (chain_collect h steps (Nat.le_of_succ_le_succ hopens) [])
    (Nat.lt_of_lt_of_le hcount hroom) true blank_nil hblanks behind (Nat.le_trans hlength hroom)
  rw [List.nil_append, List.append_nil] at hmembers
  rw [readValue_brace (skipBlanks_enclosed .object _ blanks behind)]
  simp only [Bracket.close, hmembers]
  show Except.ok (Value.object (List.reverse _), behind) = _
  rw [List.reverse_reverse]

/-- A value is read from each of its layouts. -/
theorem Lays.gives {v : Value} {t : Bytes} (h : Lays v t) {depth : Nat} (hplain : v.Plain depth) :
    Gives depth t v := by
  induction h generalizing depth with
  | scalar h =>
      obtain ⟨c, t, hwrite, hblank, -, hread⟩ := scalar_write h endsNumber_nil
      refine ⟨hwrite ▸ begins_of_scalar hblank hread t, fun {steps opens} _ behind hbehind _ => ?_⟩
      obtain ⟨c, t, hwrite, hblank, hopen, hread⟩ := scalar_write h hbehind
      rw [hwrite, List.cons_append]
      exact readValue_scalar hblank hopen hread steps opens
  | text h =>
      refine ⟨h.begins, fun {steps opens} _ behind _ _ => ?_⟩
      obtain ⟨u, rfl, hread⟩ := h.read
      rw [List.cons_append]
      refine readValue_scalar rfl rfl ?_ steps opens
      rw [scalar_quote, hread]
      rfl
  | array h hblanks ih =>
      cases hplain with
      | scalar h => cases h
      | array hitems =>
          exact gives_array (fun i hi => ih i hi (hitems _ (List.mem_map_of_mem hi))) hblanks
  | object h hblanks ih =>
      cases hplain with
      | scalar h => cases h
      | object hms =>
          refine gives_object (fun m hm => ih m hm ?_) hblanks
          exact hms (m.2.name, m.1) (List.mem_map_of_mem hm)

/-- A member as it is written, without blanks. -/
def Member.written (m : String × Value) : Member :=
  ⟨m.1, .bare (writeText m.1), .bare m.2.write, spells_writeText m.1⟩

theorem Member.bytes_written (m : String × Value) :
    (written m).bytes = writeText m.1 ++ 0x3A :: m.2.write := by
  simp [written, bytes, Padded.bytes, Padded.bare]

theorem write_object_enclosed (ms : List (String × Value)) :
    (Value.object ms).write =
      enclosed .object ((ms.map Member.written).map Member.bytes) [] := by
  have hmembers (first : Bool) : Value.membersText first ms =
      itemsSpelled first ((ms.map Member.written).map Member.bytes) := by
    induction ms generalizing first with
    | nil => rfl
    | cons m ms ih =>
        rw [Value.membersText, List.map_cons, List.map_cons, itemsSpelled, Member.bytes_written, ih]
        simp
  rw [Value.write_object, hmembers]
  rfl

theorem write_array_enclosed (vs : List Value) :
    (Value.array vs).write =
      enclosed .array ((vs.map fun v => Padded.bare v.write).map Padded.bytes) [] := by
  have hitems : (vs.map fun v => Padded.bare v.write).map Padded.bytes = vs.map Value.write := by
    simp [Padded.bare, Padded.bytes]
  rw [Value.write_array_eq, hitems]
  rfl

/-- What is written for a value is one of its layouts. -/
theorem Value.Plain.lays {depth : Nat} {v : Value} (h : v.Plain depth) : Lays v v.write := by
  induction h with
  | scalar h => exact .scalar h
  | @array depth vs _ ih =>
      have hlays : Lays (.array ((vs.map fun v => (v, Padded.bare v.write)).map Prod.fst)) _ :=
        .array (List.forall_mem_map.2 ih) (List.forall_mem_nil _)
      rw [write_array_enclosed]
      simpa [Function.comp_def] using hlays
  | @object depth ms _ ih =>
      have hlays : Lays (.object ((ms.map fun m => (m.2, Member.written m)).map fun m =>
          (m.2.name, m.1))) _ :=
        .object (List.forall_mem_map.2 ih) (List.forall_mem_nil _)
      rw [write_object_enclosed]
      simpa [Function.comp_def, Member.written] using hlays

end TopicWatch.Json
