import TopicWatch.Proofs.Json.Spelling

/-!
# Values that were buffered

A form takes from a buffered value what it has written. The fields of a record may stand in any
order among the members of a buffered object, and members of other names make no difference.
Whoever takes what was buffered one by one can as well read it from the text.
-/

namespace TopicWatch.Json

namespace Form

variable {α β : Type}

/-- A form takes from a value what it was written for, and what it writes opens no more than so
many brackets at once. -/
structure Restores (form : Form α) (depth : Nat) : Prop where
  restores : ∀ a, form.fromValue (form.toValue a) = some a
  plain : ∀ a, (form.toValue a).Plain depth

theorem Restores.restrict {form : Form α} {depth : Nat} (h : form.Restores depth)
    {read : α → Option β} {show' : β → α} (hread : ∀ b, read (show' b) = some b) :
    (form.restrict read show').Restores depth := by
  refine ⟨fun b => ?_, fun b => h.plain (show' b)⟩
  show (form.fromValue (form.toValue (show' b))).bind read = some b
  rw [h.restores, Option.bind_some, hread]

theorem restores_text {depth : Nat} : text.Restores depth :=
  ⟨fun _ => rfl, fun s => .scalar (.text s)⟩

theorem restores_bytes {depth : Nat} : bytes.Restores depth :=
  restores_text.restrict Base64.decode?_encode

/-- Integers of a type whose values lie between two bounds. -/
theorem restores_integer {depth : Nat} {least greatest : Int} {read : Int → Option β}
    {show' : β → Int} (hbounds : ∀ b, least ≤ show' b ∧ show' b ≤ greatest)
    (hwidth : -0x8000000000000000 ≤ least ∧ greatest ≤ 0x7FFFFFFFFFFFFFFF)
    (hread : ∀ b, read (show' b) = some b) :
    ((integer least greatest).restrict read show').Restores depth := by
  constructor
  · intro b
    have hfound : (integer least greatest).fromValue (.number (.integer (show' b))) =
        some (show' b) := if_pos (hbounds b)
    show ((integer least greatest).fromValue (.number (.integer (show' b)))).bind read = some b
    rw [hfound, Option.bind_some, hread]
  · intro b
    obtain ⟨hleast, hgreatest⟩ := hbounds b
    exact .scalar (.integer (by omega) (by omega))

theorem restores_int32 {depth : Nat} : int32.Restores depth :=
  restores_integer (fun n => ⟨n.minValue_le_toInt, n.toInt_le⟩) (by decide)
    fun n => congrArg some n.ofInt_toInt

theorem restores_int64 {depth : Nat} : int64.Restores depth :=
  restores_integer (fun n => ⟨n.minValue_le_toInt, n.toInt_le⟩) (by decide)
    fun n => congrArg some n.ofInt_toInt

/-- An optional value is told from null, as long as the value itself is not written so. -/
theorem Restores.optional {form : Form α} {depth : Nat} (h : form.Restores depth)
    (hne : ∀ a, form.toValue a ≠ .null) : form.optional.Restores depth := by
  constructor
  · intro value
    cases value with
    | none => rfl
    | some a =>
        show form.optional.fromValue (form.toValue a) = _
        have hsome : form.optional.fromValue (form.toValue a) =
            (form.fromValue (form.toValue a)).map some := by
          unfold Form.optional
          cases hvalue : form.toValue a with
          | null => exact absurd hvalue (hne a)
          | _ => rfl
        rw [hsome, h.restores, Option.map_some]
  · intro value
    cases value with
    | none => exact .scalar .null
    | some a => exact h.plain a

theorem fromValue_map {form : Form α} {depth : Nat} (h : form.Restores depth)
    (entries : List (String × α)) :
    form.map.fromValue (form.map.toValue entries) = some (Keyed.ofPairs entries) := by
  have hall : (entries.map fun e => (e.1, form.toValue e.2)).mapM
      (fun m => (form.fromValue m.2).map (m.1, ·)) = some entries := by
    induction entries with
    | nil => rfl
    | cons e entries ih =>
        rw [List.map_cons, List.mapM_cons, ih]
        simp [h.restores]
  show Option.map Keyed.ofPairs _ = _
  rw [hall, Option.map_some]

theorem plain_map {form : Form α} {depth : Nat} (h : form.Restores depth)
    (entries : List (String × α)) : (form.map.toValue entries).Plain (depth + 1) := by
  refine .object fun m hm => ?_
  obtain ⟨e, -, rfl⟩ := List.mem_map.1 hm
  exact h.plain e.2

end Form

namespace Fields

/-- The forms of all fields take back what they write. -/
def Restores (depth : Nat) : {types : List Type} → Fields types → Prop
  | _, .nil => True
  | _, .cons field rest => field.form.Restores depth ∧ Restores depth rest

theorem Restores.plain {depth : Nat} {types : List Type} {fields : Fields types}
    (h : fields.Restores depth) (row : Row types) : ∀ m ∈ fields.members row, m.2.Plain depth := by
  induction fields with
  | nil => exact fun m hm => absurd hm List.not_mem_nil
  | cons field rest ih =>
      exact List.forall_mem_cons.2 ⟨h.1.plain row.1, ih h.2 row.2⟩

theorem map_fst_members {types : List Type} (fields : Fields types) (row : Row types) :
    (fields.members row).map Prod.fst = fields.names := by
  induction fields with
  | nil => rfl
  | cons field rest ih => rw [members, List.map_cons, ih, names]

/-- What was found when the fields of these names were found, and no others. -/
def foundAmong (done : List String) :
    {types : List Type} → Fields types → Row types → Slots types
  | _, .nil, _ => ()
  | _, .cons field rest, row =>
      (if field.name ∈ done then some row.1 else none, foundAmong done rest row.2)

theorem foundAmong_congr {done done' : List String} {types : List Type} {fields : Fields types}
    (h : ∀ name ∈ fields.names, name ∈ done ↔ name ∈ done') (row : Row types) :
    foundAmong done fields row = foundAmong done' fields row := by
  induction fields with
  | nil => rfl
  | cons field rest ih =>
      obtain ⟨hhead, hrest⟩ := List.forall_mem_cons.1 h
      simp only [foundAmong, hhead, ih hrest]
      rfl

theorem foundAmong_nil {types : List Type} (fields : Fields types) (row : Row types) :
    foundAmong [] fields row = fields.vacant := by
  induction fields with
  | nil => rfl
  | cons field rest ih =>
      simp only [foundAmong, List.not_mem_nil, if_false, ih, vacant]
      rfl

theorem foundAmong_all {done : List String} {types : List Type} {fields : Fields types}
    (h : ∀ name ∈ fields.names, name ∈ done) (row : Row types) :
    foundAmong done fields row = fields.found row := by
  induction fields with
  | nil => rfl
  | cons field rest ih =>
      obtain ⟨hhead, hrest⟩ := List.forall_mem_cons.1 h
      simp only [foundAmong, hhead, if_true, ih hrest, found]
      rfl

theorem place_of_not_mem {name : String} (v : Value) {types : List Type} {fields : Fields types}
    (h : name ∉ fields.names) (slots : Slots types) : place name v fields slots = some slots := by
  induction fields with
  | nil => rfl
  | cons field rest ih =>
      obtain ⟨hne, hrest⟩ := List.ne_and_not_mem_of_not_mem_cons h
      rw [place, if_neg hne, ih hrest]
      rfl

/-- The value of a field that was not found yet finds its room. -/
theorem place_of_mem {depth : Nat} {types : List Type} {fields : Fields types}
    (hforms : fields.Restores depth) (hnames : fields.names.Nodup) {row : Row types}
    {name : String} {v : Value} (hmem : (name, v) ∈ fields.members row) {done : List String}
    (hnew : name ∉ done) :
    place name v fields (foundAmong done fields row) =
      some (foundAmong (name :: done) fields row) := by
  induction fields with
  | nil => exact absurd hmem List.not_mem_nil
  | cons field rest ih =>
      obtain ⟨hfresh, hrest⟩ := List.nodup_cons.1 hnames
      rw [place]
      by_cases heq : name = field.name
      · subst heq
        have hv : v = field.form.toValue row.1 := by
          obtain hhead | hmore := List.mem_cons.1 hmem
          · exact (Prod.mk.inj hhead).2
          · -- no later field has the name of the first one
            have hname := List.mem_map_of_mem (f := Prod.fst) hmore
            rw [map_fst_members] at hname
            exact absurd hname hfresh
        have hsame : foundAmong (field.name :: done) rest row.2 = foundAmong done rest row.2 := by
          refine foundAmong_congr (fun name hname => ?_) row.2
          have hne : name ≠ field.name := fun heq => hfresh (heq ▸ hname)
          simp [hne]
        rw [if_pos rfl]
        simp only [foundAmong, hnew, if_false, Option.isSome_none, Bool.false_eq_true, hv,
          hforms.1.restores, hsame, List.mem_cons_self, if_true]
        rfl
      · have hmore : (name, v) ∈ rest.members row.2 :=
          (List.mem_cons.1 hmem).resolve_left fun hhead => heq (Prod.mk.inj hhead).1
        have hfield : field.name ∈ name :: done ↔ field.name ∈ done := by
          simp [Ne.symm heq]
        rw [if_neg heq]
        simp only [foundAmong, ih hforms.2 hrest hmore, hfield]
        rfl

/-- Members are taken one after the other, each field at most once. -/
theorem foldlM_place {depth : Nat} {types : List Type} {fields : Fields types}
    (hforms : fields.Restores depth) (hnames : fields.names.Nodup) {row : Row types}
    {ms : List (String × Value)}
    (hmem : ∀ m ∈ ms, m.1 ∈ fields.names → m ∈ fields.members row)
    (honce : ((ms.filter fun m => m.1 ∈ fields.names).map Prod.fst).Nodup) {done : List String}
    (hnew : ∀ m ∈ ms, m.1 ∈ fields.names → m.1 ∉ done) :
    ms.foldlM (fun slots m => place m.1 m.2 fields slots) (foundAmong done fields row) =
      some (foundAmong ((ms.map Prod.fst).reverse ++ done) fields row) := by
  induction ms generalizing done with
  | nil => rfl
  | cons m ms ih =>
      obtain ⟨hhead, hrest⟩ := List.forall_mem_cons.1 hmem
      obtain ⟨hfresh, hlater⟩ := List.forall_mem_cons.1 hnew
      rw [List.foldlM_cons, List.map_cons, List.reverse_cons, List.append_assoc,
        List.singleton_append]
      by_cases hfield : m.1 ∈ fields.names
      · rw [List.filter_cons_of_pos (by simpa using hfield), List.map_cons] at honce
        obtain ⟨hout, honce⟩ := List.nodup_cons.1 honce
        rw [place_of_mem hforms hnames (hhead hfield) (hfresh hfield)]
        refine ih hrest honce fun m' hm' hname => List.not_mem_cons_of_ne_of_not_mem ?_ (hlater m' hm' hname)
        intro heq
        apply hout
        exact heq ▸ List.mem_map_of_mem (List.mem_filter.2 ⟨hm', by simpa using hname⟩)
      · rw [List.filter_cons_of_neg (by simpa using hfield)] at honce
        have hsame : foundAmong done fields row = foundAmong (m.1 :: done) fields row := by
          refine foundAmong_congr (fun name hname => ?_) row
          have hne : name ≠ m.1 := fun heq => hfield (heq ▸ hname)
          simp [hne]
        rw [place_of_not_mem m.2 hfield, hsame]
        refine ih hrest honce fun m' hm' hname => List.not_mem_cons_of_ne_of_not_mem ?_ (hlater m' hm' hname)
        exact fun heq => hfield (heq ▸ hname)

/-- The fields may stand in any order, among members of other names. -/
theorem ofMembers_eq {depth : Nat} {types : List Type} {fields : Fields types}
    (hforms : fields.Restores depth) (hnames : fields.names.Nodup) {row : Row types}
    {ms : List (String × Value)}
    (h : (ms.filter fun m => m.1 ∈ fields.names).Perm (fields.members row)) :
    fields.ofMembers ms = some row := by
  have hfst : ((ms.filter fun m => m.1 ∈ fields.names).map Prod.fst).Perm fields.names := by
    exact map_fst_members fields row ▸ h.map Prod.fst
  have hmem : ∀ m ∈ ms, m.1 ∈ fields.names → m ∈ fields.members row := fun m hm hname =>
    h.mem_iff.1 (List.mem_filter.2 ⟨hm, by simpa using hname⟩)
  have hall : ∀ name ∈ fields.names, name ∈ (ms.map Prod.fst).reverse ++ [] := by
    intro name hname
    obtain ⟨m, hm, rfl⟩ := List.mem_map.1 (hfst.mem_iff.2 hname)
    rw [List.append_nil, List.mem_reverse]
    exact List.mem_map_of_mem (List.mem_of_mem_filter hm)
  rw [ofMembers, ← foundAmong_nil fields row,
    foldlM_place hforms hnames hmem (hfst.nodup_iff.2 hnames) fun _ _ _ => List.not_mem_nil,
    Option.bind_some, foundAmong_all hall, fill_found]

end Fields

namespace Form

variable {α : Type} {types : List Type} {fields : Fields types} {depth : Nat}

/-- A record is taken from an object that has its fields, in any order. -/
theorem fromValue_record (hforms : fields.Restores depth) (hnames : fields.names.Nodup)
    {make : Row types → α} {row : α → Row types} (hmake : ∀ a, make (row a) = a) {a : α}
    {ms : List (String × Value)}
    (h : (ms.filter fun m => m.1 ∈ fields.names).Perm (fields.members (row a))) :
    (record fields make row).fromValue (.object ms) = some a := by
  show (fields.ofMembers ms).map make = some a
  rw [Fields.ofMembers_eq hforms hnames h, Option.map_some, hmake]

theorem restores_record (hforms : fields.Restores depth) (hnames : fields.names.Nodup)
    {make : Row types → α} {row : α → Row types} (hmake : ∀ a, make (row a) = a) :
    (record fields make row).Restores (depth + 1) := by
  refine ⟨fun a => ?_, fun a => .object (hforms.plain (row a))⟩
  apply fromValue_record hforms hnames hmake
  have hall : ∀ m ∈ fields.members (row a), decide (m.1 ∈ fields.names) = true := by
    intro m hm
    rw [decide_eq_true_iff, ← Fields.map_fst_members fields (row a)]
    exact List.mem_map_of_mem hm
  rw [List.filter_eq_self.2 hall]

end Form

/-! ## What is read one by one -/

theorem not_container_of_scalar {c : UInt8} {s rest : Bytes} {v : Value}
    (h : scalar c s = .ok (v, rest)) :
    (∀ items, v ≠ .array items) ∧ ∀ ms, v ≠ .object ms := by
  rw [scalar] at h
  split_ifs at h
  all_goals
    obtain ⟨a, rfl⟩ := exists_fst_of_map h
    constructor <;> rintro _ ⟨⟩

/-- A null is told from other scalars by its first byte. -/
theorem ne_null_of_scalar {c : UInt8} {s rest : Bytes} {v : Value} (hne : c ≠ 0x6E)
    (h : scalar c s = .ok (v, rest)) : v ≠ .null := by
  rw [scalar, if_neg hne] at h
  split_ifs at h
  all_goals
    obtain ⟨a, rfl⟩ := exists_fst_of_map h
    rintro ⟨⟩

/-- A string is told from other scalars by its quote. -/
theorem ne_text_of_scalar {c : UInt8} {s rest : Bytes} {v : Value} (hne : c ≠ 0x22)
    (h : scalar c s = .ok (v, rest)) (t : String) : v ≠ .text t := by
  rw [scalar, if_neg hne] at h
  split_ifs at h
  all_goals
    obtain ⟨a, rfl⟩ := exists_fst_of_map h
    rintro ⟨⟩

theorem exists_of_scalar_quote {s rest : Bytes} {v : Value} (h : scalar 0x22 s = .ok (v, rest)) :
    ∃ t, v = .text t ∧ readText s = .ok (t, rest) := by
  rw [scalar_quote] at h
  obtain ⟨⟨t, after⟩, hread, heq⟩ := exists_of_map h
  obtain ⟨rfl, rfl⟩ := Prod.mk.inj heq
  exact ⟨t, rfl, hread⟩

theorem opens_array {c : UInt8} (h : Bracket.ofOpen? c = some .array) : c = 0x5B := by
  by_contra hne
  rw [Bracket.ofOpen?, if_neg hne] at h
  split at h <;> cases h

theorem opens_object {c : UInt8} (h : Bracket.ofOpen? c = some .object) : c = 0x7B := by
  by_contra hne
  rw [Bracket.ofOpen?, if_neg hne] at h
  split at h <;> cases h

/-- What a value is, by what it begins with: a scalar, an array of items, or an object of
members, which are read one after the other. -/
theorem cases_of_readValue {steps opens : Nat} {s rest : Bytes} {v : Value}
    (h : readValue steps opens s = .ok (v, rest)) :
    (∃ c more, skipBlanks s = c :: more ∧ Bracket.ofOpen? c = none ∧
        scalar c more = .ok (v, rest)) ∨
      (∃ n more items, opens = n + 1 ∧ skipBlanks s = 0x5B :: more ∧ v = .array items ∧
        itemsAfter (readValue steps n) steps true [] more = .ok (items, rest)) ∨
      ∃ n more ms, opens = n + 1 ∧ skipBlanks s = 0x7B :: more ∧ v = .object ms ∧
        membersAfter (collect (readValue steps n)) steps true [] more = .ok (ms.reverse, rest) := by
  cases hblanks : skipBlanks s with
  | nil =>
      rw [← readValue_skipBlanks, hblanks] at h
      cases opens <;> exact nomatch h
  | cons c more =>
      cases hopen : Bracket.ofOpen? c with
      | none =>
          refine .inl ⟨c, more, rfl, hopen, ?_⟩
          cases opens <;> simpa only [readValue, readWith, hblanks, hopen] using h
      | some b =>
          right
          cases opens with
          | zero =>
              simp only [readValue, readWith, hblanks, hopen] at h
              cases h
          | succ n =>
              cases b with
              | array =>
                  obtain rfl := opens_array hopen
                  rw [readValue_bracket hblanks] at h
                  obtain ⟨⟨items, after⟩, hread, heq⟩ := exists_of_map h
                  obtain ⟨rfl, rfl⟩ := Prod.mk.inj heq
                  exact .inl ⟨n, more, items, rfl, rfl, rfl, hread⟩
              | object =>
                  obtain rfl := opens_object hopen
                  rw [readValue_brace hblanks] at h
                  obtain ⟨⟨found, after⟩, hread, heq⟩ := exists_of_map h
                  obtain ⟨rfl, rfl⟩ := Prod.mk.inj heq
                  refine .inr ⟨n, more, found.reverse, rfl, rfl, rfl, ?_⟩
                  rw [List.reverse_reverse]
                  exact hread

/-- Whoever wants a value that is neither an array nor an object can read it as a scalar. -/
theorem readScalar_of_readValue {α : Type} {want : Value → Option α} {steps opens : Nat}
    {s rest : Bytes} {v : Value} {a : α} (h : readValue steps opens s = .ok (v, rest))
    (hitems : ∀ items, v ≠ .array items) (hmembers : ∀ ms, v ≠ .object ms)
    (hwant : want v = some a) : Form.readScalar want s = .ok (a, rest) := by
  obtain ⟨c, more, hblanks, hopen, hread⟩ | ⟨_, _, items, _, _, rfl, _⟩ |
    ⟨_, _, ms, _, _, rfl, _⟩ := cases_of_readValue h
  · rw [Form.readScalar, hblanks]
    simp only [hopen, Option.isSome_none, Bool.false_eq_true, if_false, hread, Form.accept, hwant]
  · exact absurd rfl (hitems items)
  · exact absurd rfl (hmembers ms)

theorem value_of_collect {value : Bytes → Step Value} {found now : List (String × Value)}
    {name : String} {s rest : Bytes} (h : collect value found name s = .ok (now, rest)) :
    ∃ v, afterColon value s = .ok (v, rest) ∧ now = (name, v) :: found := by
  obtain ⟨⟨v, after⟩, hread, heq⟩ := exists_of_map h
  obtain ⟨rfl, rfl⟩ := Prod.mk.inj heq
  exact ⟨v, hread, rfl⟩

/-- Whoever takes buffered members one by one can read them from the text of the object. -/
theorem exists_members {value : Bytes → Step Value} {n : Nat} {first : Bool}
    {read last : List (String × Value)} {s rest : Bytes}
    (h : membersAfter (collect value) n first read s = .ok (last, rest)) :
    ∃ ms : List (String × Value), last = ms.reverse ++ read ∧
      ∀ {σ : Type} {member : σ → String → Bytes → Step σ} {add : σ → String × Value → Option σ},
        (∀ found name s v rest now, afterColon value s = .ok (v, rest) →
          add found (name, v) = some now → member found name s = .ok (now, rest)) →
        ∀ found now, ms.foldlM add found = some now →
          membersAfter member n first found s = .ok (now, rest) := by
  replace h := run_of_membersAfter h
  induction h with
  | closed hnext =>
      refine ⟨[], rfl, fun _ found now hnow => ?_⟩
      obtain rfl := Option.some.inj hnow
      rw [membersAfter, hnext]
  | @member _ _ _ _ _ name _ _ _ _ hnext hmember _ ih =>
      obtain ⟨v, hvalue, rfl⟩ := value_of_collect hmember
      obtain ⟨ms, rfl, htake⟩ := ih
      refine ⟨(name, v) :: ms, by simp, fun hadd found now hnow => ?_⟩
      rw [List.foldlM_cons] at hnow
      obtain ⟨next, hfirst, hrest⟩ := Option.bind_eq_some_iff.1 hnow
      rw [membersAfter, hnext]
      simp only [hadd _ _ _ _ _ _ hvalue hfirst]
      exact htake hadd next now hrest

/-- Whoever takes buffered items one by one can read them from the text of the array. -/
theorem exists_items {value : Bytes → Step Value} {n : Nat} {first : Bool} {read last : List Value}
    {s rest : Bytes} (h : itemsAfter value n first read s = .ok (last, rest)) :
    ∃ vs, last = read.reverse ++ vs ∧
      ∀ {α : Type} {item : Bytes → Step α} {stands : Value → α → Prop},
        (∀ s v rest a, value s = .ok (v, rest) → stands v a → item s = .ok (a, rest)) →
        ∀ as found, List.Forall₂ stands vs as →
          itemsAfter item n first found s = .ok (found.reverse ++ as, rest) := by
  replace h := run_of_itemsAfter h
  induction h with
  | closed hnext =>
      refine ⟨[], (List.append_nil _).symm, fun _ as found has => ?_⟩
      obtain rfl := List.forall₂_nil_left_iff.1 has
      rw [itemsAfter, hnext, List.append_nil]
  | @item _ _ _ _ _ _ _ _ v hnext hvalue _ ih =>
      obtain ⟨vs, rfl, htake⟩ := ih
      refine ⟨v :: vs, by simp, fun hitem as found has => ?_⟩
      obtain ⟨a, as, hstands, hmore, rfl⟩ := List.forall₂_cons_left_iff.1 has
      rw [itemsAfter, hnext]
      simp only [hitem _ _ _ _ hvalue hstands]
      rw [htake hitem as (a :: found) hmore, List.reverse_cons, List.append_assoc]
      rfl

/-- What a whole text spells is decoded from it when it is read from it. -/
theorem decode_of_spells {α : Type} {form : Form α} {s : Bytes} {v : Value} {a : α}
    (h : Spells greatestDepth s v)
    (hread : ∀ rest, readValue (Limits.whole s).steps (Limits.whole s).opens s = .ok (v, rest) →
      form.fromText (Limits.whole s) s = .ok (a, rest)) : form.decode s = .ok a := by
  obtain ⟨rest, hvalue, hblank⟩ := complete_eq_ok_iff.1 h
  exact complete_eq_ok_iff.2 ⟨rest, hread rest hvalue, hblank⟩

/-- A value of any kind is decoded from what is written for it. -/
theorem Value.Plain.decode_any {v : Value} (h : v.Plain greatestDepth) :
    Form.any.decode v.write = .ok v.normal :=
  decode_of_spells h.spells fun _ hread =>
    congrArg (Except.map fun p : Value × Bytes => (p.1.normal, p.2)) hread

end TopicWatch.Json
