import Mathlib.Data.List.DropRight
import Mathlib.Data.List.Forall2
import TopicWatch.Proofs.Json.Behind
import TopicWatch.Proofs.Json.Object

/-!
# Texts of values put together

A text spells a value however the value is laid out. Texts of values, with names in front of
them or not, are put together to the text of an object or an array, which spells the values
put together. What is written for a value spells it.
-/

namespace TopicWatch.Json

/-- What was read stands when nothing but blanks follows it. -/
theorem complete_eq_ok_iff {α : Type} {step : Step α} {a : α} :
    complete step = .ok a ↔ ∃ rest, step = .ok (a, rest) ∧ (skipBlanks rest).isEmpty := by
  cases step with
  | error f => exact ⟨nofun, nofun⟩
  | ok p =>
      obtain ⟨b, rest⟩ := p
      rw [complete]
      by_cases hblank : (skipBlanks rest).isEmpty
      · rw [if_pos hblank]
        refine ⟨fun h => ?_, fun ⟨_, h, _⟩ => ?_⟩
        · obtain rfl := Except.ok.inj h
          exact ⟨rest, rfl, hblank⟩
        · rw [(Prod.mk.inj (Except.ok.inj h)).1]
      · rw [if_neg hblank]
        refine ⟨nofun, fun ⟨_, h, hempty⟩ => ?_⟩
        obtain ⟨-, rfl⟩ := Prod.mk.inj (Except.ok.inj h)
        exact absurd hempty hblank

/-- A whole text denotes a value in which at most so many brackets are open at once. -/
def Spells (opens : Nat) (text : Bytes) (v : Value) : Prop :=
  complete (readValue (text.length + 1) opens text) = .ok v

/-- Bytes that a reader of tokens passes over. -/
def Blank (s : Bytes) : Prop := ∀ behind, skipBlanks (s ++ behind) = skipBlanks behind

theorem blank_nil : Blank [] := fun _ => rfl

theorem blank_of_skipBlanks {s : Bytes} (h : (skipBlanks s).isEmpty) : Blank s := by
  intro behind
  rw [skipBlanks, List.dropWhile_append, ← skipBlanks, if_pos h]
  rfl

/-- A text that spells a value is read up to its end, wherever it stands. -/
theorem Spells.read {opens : Nat} {text : Bytes} {v : Value} (h : Spells opens text v) {n : Nat}
    (hn : text.length < n) {behind : Bytes} (hbehind : EndsNumber behind) :
    ∃ blanks, Blank blanks ∧ readValue n opens (text ++ behind) = .ok (v, blanks ++ behind) := by
  obtain ⟨rest, hread, hblank⟩ := complete_eq_ok_iff.1 h
  exact ⟨rest, blank_of_skipBlanks hblank, readValue_append hbehind hn opens hread⟩

/-! ## Objects -/

/-- The text of members whose values are spelled. -/
def membersSpelled : Bool → List (String × Bytes) → Bytes
  | _, [] => []
  | first, (name, text) :: ms =>
      (if first then [] else [0x2C]) ++ writeText name ++
        0x3A :: (text ++ membersSpelled false ms)

/-- The text of an object whose values are spelled. -/
def objectSpelled (ms : List (String × Bytes)) : Bytes := 0x7B :: (membersSpelled true ms ++ [0x7D])

theorem endsNumber_membersSpelled (ms : List (String × Bytes)) (rest : Bytes) :
    EndsNumber (membersSpelled false ms ++ 0x7D :: rest) := by
  intro c hc
  cases ms with
  | nil =>
      obtain rfl : 0x7D = c := Option.some.inj hc
      decide
  | cons m ms =>
      obtain rfl : 0x2C = c := Option.some.inj hc
      decide

theorem length_le_membersSpelled (first : Bool) (ms : List (String × Bytes)) :
    ms.length ≤ (membersSpelled first ms).length ∧
      ∀ m ∈ ms, m.2.length ≤ (membersSpelled first ms).length := by
  induction ms generalizing first with
  | nil => exact ⟨Nat.zero_le _, fun m hm => absurd hm List.not_mem_nil⟩
  | cons m ms ih =>
      obtain ⟨hcount, hlonger⟩ := ih false
      simp only [membersSpelled, List.length_append, List.length_cons]
      refine ⟨by omega, List.forall_mem_cons.2 ⟨by omega, fun m' hm' => ?_⟩⟩
      have hle := hlonger m' hm'
      omega

/-- Reads a member of an object of any values, after its name. -/
def collect (value : Bytes → Step Value) (found : List (String × Value)) (name : String)
    (s : Bytes) : Step (List (String × Value)) :=
  (afterColon value s).map fun p => ((name, p.1) :: found, p.2)

theorem readValue_brace {s rest : Bytes} (h : skipBlanks s = 0x7B :: rest) (steps opens : Nat) :
    readValue steps (opens + 1) s =
      (membersAfter (collect (readValue steps opens)) steps true [] rest).map fun p =>
        (.object p.1.reverse, p.2) := by
  show readWith steps (some (readValue steps opens)) s = _
  rw [readWith, h]
  rfl

theorem nextMember_blank {blanks : Bytes} (h : Blank blanks) (first : Bool) (s : Bytes) :
    nextMember first (blanks ++ s) = nextMember first s := by
  rw [nextMember, h, nextMember]

/-- Members whose values are spelled are read one after the other. -/
theorem membersAfter_spelled {opens : Nat} {ms : List (String × Bytes)}
    {vs : List (String × Value)}
    (h : List.Forall₂ (fun m v => m.1 = v.1 ∧ Spells opens m.2 v.2) ms vs) {steps : Nat}
    (hroom : ∀ m ∈ ms, m.2.length < steps) {n : Nat} (hn : ms.length < n) (first : Bool)
    (found : List (String × Value)) {blanks : Bytes} (hblanks : Blank blanks) (rest : Bytes) :
    membersAfter (collect (readValue steps opens)) n first found
        (blanks ++ (membersSpelled first ms ++ 0x7D :: rest)) =
      .ok (vs.reverse ++ found, rest) := by
  induction h generalizing n first found blanks with
  | nil =>
      obtain ⟨n, rfl⟩ := Nat.exists_eq_add_one_of_ne_zero (Nat.ne_of_gt hn)
      rw [membersAfter, nextMember_blank hblanks]
      rfl
  | @cons m v ms vs hm _ ih =>
      obtain ⟨n, rfl⟩ := Nat.exists_eq_add_one_of_ne_zero (Nat.ne_of_gt (Nat.zero_lt_of_lt hn))
      obtain ⟨name, text⟩ := m
      obtain ⟨name', v⟩ := v
      obtain ⟨rfl, hspells⟩ := hm
      obtain ⟨hhead, hroom⟩ := List.forall_mem_cons.1 hroom
      obtain ⟨between, hbetween, hread⟩ :=
        hspells.read hhead (endsNumber_membersSpelled ms rest)
      have htext : membersSpelled first ((name, text) :: ms) ++ 0x7D :: rest =
          ((if first then [] else [0x2C]) ++ writeText name) ++
            (0x3A :: (text ++ (membersSpelled false ms ++ 0x7D :: rest))) := by
        simp [membersSpelled]
      have hvalue : collect (readValue steps opens) found name
          (0x3A :: (text ++ (membersSpelled false ms ++ 0x7D :: rest))) =
            .ok ((name, v) :: found, between ++ (membersSpelled false ms ++ 0x7D :: rest)) := by
        rw [collect, afterColon, colon, skipBlanks_cons rfl]
        simp only [if_true, hread]
        rfl
      rw [membersAfter, nextMember_blank hblanks, htext, nextMember_name]
      simp only [hvalue]
      rw [ih hroom (Nat.lt_of_succ_lt_succ hn) false _ hbetween, List.reverse_cons,
        List.append_assoc]
      rfl

/-- The text of an object spells the object of what its values spell. -/
theorem spells_object {opens : Nat} {ms : List (String × Bytes)} {vs : List (String × Value)}
    (h : List.Forall₂ (fun m v => m.1 = v.1 ∧ Spells opens m.2 v.2) ms vs) :
    Spells (opens + 1) (objectSpelled ms) (.object vs) := by
  obtain ⟨hcount, hlonger⟩ := length_le_membersSpelled true ms
  have hlength : (objectSpelled ms).length = (membersSpelled true ms).length + 2 := by
    simp [objectSpelled]
  have hroom : ∀ m ∈ ms, m.2.length < (objectSpelled ms).length + 1 := by
    intro m hm
    have hle := hlonger m hm
    omega
  have hn : ms.length < (objectSpelled ms).length + 1 := by omega
  have hread := membersAfter_spelled h hroom hn true [] blank_nil []
  have hbrace : skipBlanks (objectSpelled ms) = 0x7B :: (membersSpelled true ms ++ [0x7D]) :=
    skipBlanks_cons rfl _
  rw [List.nil_append] at hread
  rw [Spells, readValue_brace hbrace, hread, List.append_nil]
  show Except.ok (Value.object vs.reverse.reverse) = _
  rw [List.reverse_reverse]

/-! ## Arrays -/

/-- The text of items that are spelled. -/
def itemsSpelled : Bool → List Bytes → Bytes
  | _, [] => []
  | first, text :: ts => (if first then [] else [0x2C]) ++ (text ++ itemsSpelled false ts)

/-- The text of an array whose items are spelled. -/
def arraySpelled (ts : List Bytes) : Bytes := 0x5B :: (itemsSpelled true ts ++ [0x5D])

theorem endsNumber_itemsSpelled (ts : List Bytes) (rest : Bytes) :
    EndsNumber (itemsSpelled false ts ++ 0x5D :: rest) := by
  intro c hc
  cases ts with
  | nil =>
      obtain rfl : 0x5D = c := Option.some.inj hc
      decide
  | cons t ts =>
      obtain rfl : 0x2C = c := Option.some.inj hc
      decide

theorem length_le_itemsSpelled (first : Bool) (ts : List Bytes) :
    ts.length ≤ (itemsSpelled first ts).length + (if first then 1 else 0) ∧
      ∀ t ∈ ts, t.length ≤ (itemsSpelled first ts).length := by
  induction ts generalizing first with
  | nil => exact ⟨Nat.zero_le _, fun t ht => absurd ht List.not_mem_nil⟩
  | cons t ts ih =>
      obtain ⟨hcount, hlonger⟩ := ih false
      simp only [itemsSpelled, List.length_append, List.length_cons]
      refine ⟨?_, List.forall_mem_cons.2 ⟨by omega, fun t' ht' => ?_⟩⟩
      · cases first <;> simp at hcount ⊢ <;> omega
      · have hle := hlonger t' ht'
        omega

theorem skipBlanks_skipBlanks (s : Bytes) : skipBlanks (skipBlanks s) = skipBlanks s :=
  List.dropWhile_idempotent isBlank s

theorem readValue_skipBlanks (steps opens : Nat) (s : Bytes) :
    readValue steps opens (skipBlanks s) = readValue steps opens s := by
  cases opens <;>
    simp only [readValue, readWith, skipBlanks_skipBlanks]

theorem readValue_scalar {c : UInt8} {s rest : Bytes} {v : Value} (hblank : isBlank c = false)
    (hopen : Bracket.ofOpen? c = none) (h : scalar c s = .ok (v, rest)) (steps opens : Nat) :
    readValue steps opens (c :: s) = .ok (v, rest) := by
  cases opens <;> simp only [readValue, readWith, skipBlanks_cons hblank, hopen, h]

/-- A text that spells a value begins with something else than the end of an array. -/
theorem Spells.skipBlanks_eq {opens : Nat} {text : Bytes} {v : Value} (h : Spells opens text v) :
    ∃ c more, skipBlanks text = c :: more ∧ c ≠ 0x5D := by
  rw [Spells, ← readValue_skipBlanks] at h
  cases hblanks : skipBlanks text with
  | nil =>
      rw [hblanks] at h
      cases opens <;> exact nomatch h
  | cons c more =>
      refine ⟨c, more, rfl, ?_⟩
      rintro rfl
      rw [hblanks] at h
      cases opens <;> exact nomatch h

theorem nextItem_spelled {text : Bytes} {c : UInt8} {more : Bytes}
    (hbegins : skipBlanks text = c :: more) (hne : c ≠ 0x5D) {blanks : Bytes}
    (hblanks : Blank blanks) (first : Bool) :
    nextItem first (blanks ++ ((if first then [] else [0x2C]) ++ text)) =
      .ok (.item (skipBlanks text)) := by
  rw [nextItem, hblanks]
  cases first with
  | true =>
      rw [if_pos rfl, List.nil_append, hbegins]
      simp only [hne, if_false, if_true]
  | false =>
      rw [if_neg Bool.false_ne_true, List.singleton_append, skipBlanks_cons rfl]
      simp only [hbegins, hne, if_false, if_true]
      rfl

/-- Items that are spelled are read one after the other. -/
theorem itemsAfter_spelled {opens : Nat} {ts : List Bytes} {vs : List Value}
    (h : List.Forall₂ (Spells opens) ts vs) {steps : Nat} (hroom : ∀ t ∈ ts, t.length < steps)
    {n : Nat} (hn : ts.length < n) (first : Bool) (found : List Value) {blanks : Bytes}
    (hblanks : Blank blanks) (rest : Bytes) :
    itemsAfter (readValue steps opens) n first found
        (blanks ++ (itemsSpelled first ts ++ 0x5D :: rest)) =
      .ok (found.reverse ++ vs, rest) := by
  induction h generalizing n first found blanks with
  | nil =>
      obtain ⟨n, rfl⟩ := Nat.exists_eq_add_one_of_ne_zero (Nat.ne_of_gt hn)
      have hclosed : nextItem first (blanks ++ (itemsSpelled first [] ++ 0x5D :: rest)) =
          .ok (.closed rest) := by
        rw [nextItem, hblanks]
        rfl
      rw [itemsAfter, hclosed, List.append_nil]
  | @cons t v ts vs hspells _ ih =>
      obtain ⟨n, rfl⟩ := Nat.exists_eq_add_one_of_ne_zero (Nat.ne_of_gt (Nat.zero_lt_of_lt hn))
      obtain ⟨hhead, hroom⟩ := List.forall_mem_cons.1 hroom
      obtain ⟨c, more, hbegins, hne⟩ := hspells.skipBlanks_eq
      obtain ⟨between, hbetween, hread⟩ := hspells.read hhead (endsNumber_itemsSpelled ts rest)
      have hnext := nextItem_spelled
        (skipBlanks_append hbegins (itemsSpelled false ts ++ 0x5D :: rest)) hne hblanks first
      rw [itemsAfter, itemsSpelled, List.append_assoc, List.append_assoc, hnext]
      simp only [readValue_skipBlanks, hread]
      rw [ih hroom (Nat.lt_of_succ_lt_succ hn) false _ hbetween, List.reverse_cons,
        List.append_assoc]
      rfl

theorem readValue_bracket {s rest : Bytes} (h : skipBlanks s = 0x5B :: rest) (steps opens : Nat) :
    readValue steps (opens + 1) s =
      (itemsAfter (readValue steps opens) steps true [] rest).map fun p => (.array p.1, p.2) := by
  show readWith steps (some (readValue steps opens)) s = _
  rw [readWith, h]
  rfl

theorem spells_array {opens : Nat} {ts : List Bytes} {vs : List Value}
    (h : List.Forall₂ (Spells opens) ts vs) :
    Spells (opens + 1) (arraySpelled ts) (.array vs) := by
  have hlength : (arraySpelled ts).length = (itemsSpelled true ts).length + 2 := by
    simp [arraySpelled]
  obtain ⟨hcount, hlonger⟩ := length_le_itemsSpelled true ts
  have hroom : ∀ t ∈ ts, t.length < (arraySpelled ts).length + 1 := by
    intro t ht
    have hle := hlonger t ht
    omega
  have hn : ts.length < (arraySpelled ts).length + 1 := by
    rw [if_pos rfl] at hcount
    omega
  have hread := itemsAfter_spelled h hroom hn true [] blank_nil []
  have hbracket : skipBlanks (arraySpelled ts) = 0x5B :: (itemsSpelled true ts ++ [0x5D]) :=
    skipBlanks_cons rfl _
  rw [List.nil_append] at hread
  rw [Spells, readValue_bracket hbracket, hread]
  rfl

/-! ## Written values -/

namespace Value

/-- A member of an object with the text that is written for its value. -/
def spelled (m : String × Value) : String × Bytes := (m.1, m.2.write)

theorem membersText_eq (first : Bool) (ms : List (String × Value)) :
    membersText first ms = membersSpelled first (ms.map spelled) := by
  induction ms generalizing first with
  | nil => rfl
  | cons m ms ih =>
      simp only [membersText, List.map_cons, spelled, membersSpelled, ih]

theorem write_object_eq (ms : List (String × Value)) :
    (object ms).write = objectSpelled (ms.map spelled) := by
  rw [write_object, membersText_eq, objectSpelled]

theorem writeItems_eq (vs : List Value) : writeItems vs = itemsSpelled true (vs.map write) := by
  induction vs with
  | nil => rfl
  | cons v vs ih =>
      cases vs with
      | nil => simp [writeItems, itemsSpelled]
      | cons w vs =>
          rw [writeItems, ih]
          simp [itemsSpelled]

theorem write_array_eq (vs : List Value) : (array vs).write = arraySpelled (vs.map write) := by
  rw [write, writeItems_eq, arraySpelled]

/-- Values without numbers that are no integers, in which at most so many brackets are open at
once. -/
inductive Plain : Nat → Value → Prop where
  | scalar {depth : Nat} {v : Value} (h : v.IsScalar) : Plain depth v
  | array {depth : Nat} {vs : List Value} (h : ∀ v ∈ vs, Plain depth v) :
      Plain (depth + 1) (array vs)
  | object {depth : Nat} {ms : List (String × Value)} (h : ∀ m ∈ ms, Plain depth m.2) :
      Plain (depth + 1) (object ms)

theorem Plain.mono {depth depth' : Nat} {v : Value} (h : v.Plain depth) (hle : depth ≤ depth') :
    v.Plain depth' := by
  induction h generalizing depth' with
  | scalar h => exact .scalar h
  | array _ ih =>
      obtain ⟨n, rfl⟩ := Nat.exists_eq_add_one_of_ne_zero (Nat.ne_of_gt (Nat.zero_lt_of_lt hle))
      exact .array fun v hv => ih v hv (Nat.le_of_succ_le_succ hle)
  | object _ ih =>
      obtain ⟨n, rfl⟩ := Nat.exists_eq_add_one_of_ne_zero (Nat.ne_of_gt (Nat.zero_lt_of_lt hle))
      exact .object fun m hm => ih m hm (Nat.le_of_succ_le_succ hle)

/-- What is written for a value spells it. -/
theorem Plain.spells {depth : Nat} {v : Value} (h : v.Plain depth) : Spells depth v.write v := by
  induction h with
  | @scalar depth v h =>
      obtain ⟨c, t, hwrite, hblank, hopen, hread⟩ := scalar_write h endsNumber_nil
      rw [List.append_nil] at hread
      rw [Spells, hwrite, readValue_scalar hblank hopen hread]
      rfl
  | @array depth vs _ ih =>
      rw [write_array_eq]
      apply spells_array
      rw [List.forall₂_map_left_iff, List.forall₂_same]
      exact ih
  | @object depth ms _ ih =>
      rw [write_object_eq]
      apply spells_object
      rw [List.forall₂_map_left_iff, List.forall₂_same]
      exact fun m hm => ⟨rfl, ih m hm⟩

end Value

end TopicWatch.Json
