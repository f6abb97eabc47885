import TopicWatch.Proofs.Json.Form
import TopicWatch.Proofs.Keyed

/-!
# Objects read back what they write

Reading an object is a run over its members, in which every member takes the reader from one
state to the next. For a record the states are the fields found so far, and for a map the
entries so far. An object that is cut short is always unfinished: a number at the cut may be
taken for whole, but what has to follow it is missing.
-/

namespace TopicWatch.Json

namespace Value

/-- The members of an object, with a comma before the first one unless nothing stands
before it. -/
def membersText : Bool → List (String × Value) → Bytes
  | _, [] => []
  | first, (name, v) :: ms =>
      (if first then [] else [0x2C]) ++ writeText name ++ 0x3A :: (v.write ++ membersText false ms)

theorem writeMembers_eq (ms : List (String × Value)) : writeMembers ms = membersText true ms := by
  induction ms with
  | nil => rfl
  | cons m ms ih =>
      obtain ⟨name, v⟩ := m
      cases ms with
      | nil => simp [writeMembers, membersText]
      | cons m' ms =>
          rw [writeMembers, ih]
          simp [membersText]

theorem write_object (ms : List (String × Value)) :
    (object ms).write = 0x7B :: (membersText true ms ++ [0x7D]) := by
  rw [write, writeMembers_eq]

theorem length_le_membersText (first : Bool) (ms : List (String × Value)) :
    ms.length ≤ (membersText first ms).length := by
  induction ms generalizing first with
  | nil => exact Nat.zero_le _
  | cons m ms ih =>
      have h := ih false
      simp only [membersText, List.length_append, List.length_cons]
      omega

/-- The text of an object up to the value of its first member, the value, and the rest. -/
theorem membersText_cons_append (first : Bool) (name : String) (v : Value)
    (ms : List (String × Value)) (s : Bytes) :
    membersText first ((name, v) :: ms) ++ s =
      ((if first then [] else [0x2C]) ++ writeText name) ++
        ((0x3A :: v.write) ++ (membersText false ms ++ s)) := by
  simp [membersText]

/-- After a member stands a comma or the end of its object. -/
theorem endsNumber_membersText (ms : List (String × Value)) (rest : Bytes) :
    EndsNumber (membersText false ms ++ 0x7D :: rest) := by
  intro c hc
  cases ms with
  | nil =>
      obtain rfl : 0x7D = c := Option.some.inj hc
      decide
  | cons m ms =>
      obtain rfl : 0x2C = c := Option.some.inj hc
      decide

theorem endsNumber_of_prefix {t s : Bytes} (h : t <+: s) (hs : EndsNumber s) : EndsNumber t := by
  intro c hc
  cases t with
  | nil => exact absurd hc (by simp)
  | cons b t =>
      obtain ⟨u, rfl⟩ := h
      exact hs c hc

end Value

theorem readName_writeText (name : String) (s : Bytes) :
    readName (writeText name ++ s) = .ok (.name name s) := by
  rw [writeText, List.cons_append, List.append_assoc, List.singleton_append, readName, if_pos rfl,
    readText_escapes]

theorem readName_cut {name : String} {t : Bytes} (h : Cut t (writeText name)) :
    readName t = .error .unfinished := by
  rcases h.cons with rfl | ⟨t', rfl, ht'⟩
  · rfl
  · rw [readName, if_pos rfl, readText_cut ht']

theorem skipBlanks_writeText (name : String) (s : Bytes) :
    skipBlanks (writeText name ++ s) = writeText name ++ s :=
  skipBlanks_cons rfl _

theorem skipBlanks_cut {name : String} {t : Bytes} (h : Cut t (writeText name)) :
    skipBlanks t = t := by
  rcases h.cons with rfl | ⟨t', rfl, -⟩
  · rfl
  · exact skipBlanks_cons rfl t'

theorem nextMember_name (first : Bool) (name : String) (s : Bytes) :
    nextMember first (((if first then [] else [0x2C]) ++ writeText name) ++ s) =
      .ok (.name name s) := by
  cases first with
  | true =>
      show nextMember true (writeText name ++ s) = _
      rw [nextMember, skipBlanks_writeText]
      exact readName_writeText name s
  | false =>
      show nextMember false (0x2C :: (writeText name ++ s)) = _
      rw [nextMember, skipBlanks_cons rfl]
      simp only [skipBlanks_writeText]
      exact readName_writeText name s

theorem nextMember_cut {first : Bool} {name : String} {t : Bytes}
    (h : Cut t ((if first then [] else [0x2C]) ++ writeText name)) :
    nextMember first t = .error .unfinished := by
  cases first with
  | true =>
      have hcut : Cut t (writeText name) := h
      rcases hcut.cons with rfl | ⟨t', rfl, -⟩
      · rfl
      · rw [nextMember, skipBlanks_cons rfl]
        exact readName_cut hcut
  | false =>
      have hcut : Cut t (0x2C :: writeText name) := h
      rcases hcut.cons with rfl | ⟨t', rfl, ht'⟩
      · rfl
      · rw [nextMember, skipBlanks_cons rfl]
        simp only [skipBlanks_cut ht']
        exact readName_cut ht'

/-- The states a reader of members goes through over an object that was written. -/
inductive ReadsMembers {σ : Type} (member : σ → String → Bytes → Step σ) (room : Nat) :
    σ → List (String × Value) → σ → Prop where
  | nil (s : σ) : ReadsMembers member room s [] s
  | cons {s s' s'' : σ} {name : String} {v : Value} {ms : List (String × Value)}
      (head : Follows (member s name) room (0x3A :: v.write) s')
      (tail : ReadsMembers member room s' ms s'') : ReadsMembers member room s ((name, v) :: ms) s''

namespace ReadsMembers

variable {σ : Type} {member : σ → String → Bytes → Step σ} {room : Nat} {s s' : σ}
  {ms : List (String × Value)}

theorem membersAfter (h : ReadsMembers member room s ms s') {n : Nat} (hn : ms.length < n)
    (first : Bool) (hroom : (Value.membersText first ms).length ≤ room) (rest : Bytes) :
    membersAfter member n first s (Value.membersText first ms ++ 0x7D :: rest) =
      .ok (s', rest) := by
  induction h generalizing n first with
  | nil s =>
      obtain ⟨k, rfl⟩ := Nat.exists_eq_add_one_of_ne_zero (Nat.ne_of_gt hn)
      rfl
  | @cons s s' s'' name v ms head tail ih =>
      obtain ⟨k, rfl⟩ := Nat.exists_eq_add_one_of_ne_zero (Nat.ne_of_gt (Nat.zero_lt_of_lt hn))
      simp only [Value.membersText, List.length_append, List.length_cons] at hroom
      have hread := head.whole (by rw [List.length_cons]; omega) _
        (Value.endsNumber_membersText ms rest)
      rw [Json.membersAfter, Value.membersText_cons_append, nextMember_name]
      simp only [hread]
      exact ih (Nat.lt_of_succ_lt_succ hn) false (by omega)

/-- Wherever an object breaks off, its reader is left before a member, a value or the end that
is still to come. -/
theorem membersAfter_cut (h : ReadsMembers member room s ms s') {first : Bool} {t : Bytes}
    (ht : Cut t (Value.membersText first ms ++ [0x7D])) (hroom : t.length ≤ room) {n : Nat}
    (hn : t.length < n) : Json.membersAfter member n first s t = .error .unfinished := by
  induction h generalizing n first t with
  | nil s =>
      obtain ⟨k, rfl⟩ := Nat.exists_eq_add_one_of_ne_zero (Nat.ne_of_gt (Nat.zero_lt_of_lt hn))
      rw [ht.of_singleton]
      rfl
  | @cons s s' s'' name v ms head tail ih =>
      obtain ⟨k, rfl⟩ := Nat.exists_eq_add_one_of_ne_zero (Nat.ne_of_gt (Nat.zero_lt_of_lt hn))
      rw [Value.membersText_cons_append] at ht
      rcases ht.append with hname | ⟨u, rfl, hu⟩
      · rw [Json.membersAfter, nextMember_cut hname]
      · have hlength : 2 ≤ (writeText name).length := by simp [writeText]
        simp only [List.length_append] at hroom hn
        rw [Json.membersAfter, nextMember_name]
        rcases hu.append with hvalue | ⟨rest, rfl, hrest⟩
        · -- the cut is before the end of the value
          rcases head.cut u hvalue (by omega) with hread | ⟨now, hread⟩
          · simp only [hread]
          · obtain ⟨j, rfl⟩ : ∃ j, k = j + 1 := ⟨k - 1, by omega⟩
            simp only [hread]
            rfl
        · rw [List.length_append] at hroom hn
          have hread := head.whole (by omega) rest
            (Value.endsNumber_of_prefix hrest.isPrefix (Value.endsNumber_membersText ms []))
          simp only [hread]
          exact ih hrest (by omega) (by omega)

end ReadsMembers

/-- A reader of objects takes the opening brace, reads members from a first state, and makes its
value of the last one. -/
structure OpensObject {α σ : Type} (read : Bytes → Step α) (member : σ → String → Bytes → Step σ)
    (room : Nat) (s : σ) (finish : σ → Option α) : Prop where
  nil : read [] = .error .unfinished
  brace : ∀ t, read (0x7B :: t) = Form.accept finish (membersAfter member room true s t)

namespace OpensObject

variable {α σ : Type} {read : Bytes → Step α} {member : σ → String → Bytes → Step σ} {room : Nat}
  {s s' : σ} {finish : σ → Option α} {ms : List (String × Value)} {a : α}

/-- Nothing that stands behind an object is part of it. -/
theorem whole (h : OpensObject read member room s finish)
    (hreads : ReadsMembers member room s ms s') (hfinish : finish s' = some a)
    (hroom : (Value.object ms).write.length ≤ room) (rest : Bytes) :
    read ((Value.object ms).write ++ rest) = .ok (a, rest) := by
  have hcount := Value.length_le_membersText true ms
  rw [Value.write_object] at hroom ⊢
  simp only [List.length_cons, List.length_append, List.length_nil] at hroom
  rw [List.cons_append, List.append_assoc, List.singleton_append, h.brace,
    hreads.membersAfter (by omega) true (by omega), Form.accept, hfinish]

/-- An object that is cut short is unfinished, wherever the cut is. -/
theorem cut (h : OpensObject read member room s finish)
    (hreads : ReadsMembers member room s ms s') {t : Bytes} (ht : Cut t (Value.object ms).write)
    (hroom : t.length ≤ room) : read t = .error .unfinished := by
  rw [Value.write_object] at ht
  rcases ht.cons with rfl | ⟨t', rfl, ht'⟩
  · exact h.nil
  · rw [List.length_cons] at hroom
    rw [h.brace, hreads.membersAfter_cut ht' (by omega) (by omega)]
    rfl

theorem follows (h : OpensObject read member room s finish)
    (hreads : ReadsMembers member room s ms s') (hfinish : finish s' = some a) :
    Follows read room (Value.object ms).write a :=
  ⟨fun hroom rest _ => h.whole hreads hfinish hroom rest,
    fun _ ht hroom => Or.inl (h.cut hreads ht hroom)⟩

end OpensObject

/-! ## Records -/

namespace Fields

/-- The names of the fields, in order. -/
def names : {types : List Type} → Fields types → List String
  | _, .nil => []
  | _, .cons field rest => field.name :: rest.names

/-- Every field was found. -/
def found : {types : List Type} → Fields types → Row types → Slots types
  | _, .nil, _ => ()
  | _, .cons _ rest, row => (some row.1, rest.found row.2)

theorem fill_found {types : List Type} (fields : Fields types) (row : Row types) :
    fields.fill (fields.found row) = some row := by
  induction fields with
  | nil => rfl
  | cons field rest ih =>
      have hrest := ih row.2
      simp only [fill, found, hrest]
      rfl

/-- Every field reads its value back. -/
def ReadBack (l : Limits) : {types : List Type} → Fields types → Row types → Prop
  | _, .nil, _ => True
  | _, .cons field rest, row => field.form.ReadsBack l row.1 ∧ ReadBack l rest row.2

/-- The forms of all fields read back what they write. -/
def Faithful (depth : Nat) : {types : List Type} → Fields types → Prop
  | _, .nil => True
  | _, .cons field rest => field.form.Faithful depth ∧ Faithful depth rest

theorem Faithful.readBack {depth : Nat} {types : List Type} {fields : Fields types}
    (h : fields.Faithful depth) {l : Limits} (hopens : depth ≤ l.opens) (row : Row types) :
    fields.ReadBack l row := by
  induction fields with
  | nil => trivial
  | cons field rest ih => exact ⟨h.1 l row.1 hopens, ih h.2 row.2⟩

theorem mem_names_of_readMember {l : Limits} {s : Bytes} {name : String} {types : List Type}
    {fields : Fields types} {slots : Slots types} {step : Step (Slots types)}
    (h : readMember l s name fields slots = some step) : name ∈ fields.names := by
  induction fields with
  | nil => exact absurd h (by simp [readMember])
  | cons field rest ih =>
      rw [names, List.mem_cons]
      by_cases heq : name = field.name
      · exact Or.inl heq
      · rw [readMember, if_neg heq] at h
        obtain ⟨inner, hinner, _⟩ := Option.map_eq_some_iff.1 h
        exact Or.inr (ih hinner)

theorem readMember_head (l : Limits) {α : Type} {types : List Type} (field : Field α)
    (rest : Fields types) (slots : Slots types) (s : Bytes) :
    readMember l s field.name (cons field rest) (none, slots) =
      some ((afterColon (field.form.fromText l) s).map fun p => ((some p.1, slots), p.2)) := by
  simp only [readMember, if_true]
  rfl

theorem readMember_tail {l : Limits} {s : Bytes} {name : String} {α : Type} {types : List Type}
    {field : Field α} {rest : Fields types} {slots : Slots types} {step : Step (Slots types)}
    (hne : name ≠ field.name) (first : Option α) (h : readMember l s name rest slots = some step) :
    readMember l s name (cons field rest) (first, slots) =
      some (step.map fun p => ((first, p.1), p.2)) := by
  simp only [readMember, hne, if_false, h]
  rfl

/-- A reader that finds the fields among the members of an object fills them one by one. The
reader may do so inside a larger state, as it does behind the fields that were found before. -/
theorem readsMembers {l : Limits} {types : List Type} (fields : Fields types) (row : Row types)
    (hforms : fields.ReadBack l row) (hnames : fields.names.Nodup) {σ : Type}
    {member : σ → String → Bytes → Step σ} (inside : Slots types → σ)
    (hmember : ∀ slots name s step, readMember l s name fields slots = some step →
      member (inside slots) name s = step.map fun p => (inside p.1, p.2)) :
    ReadsMembers member l.steps (inside fields.vacant) (fields.members row)
      (inside (fields.found row)) := by
  induction fields with
  | nil => exact ReadsMembers.nil _
  | cons field rest ih =>
      obtain ⟨hhead, htail⟩ := hforms
      obtain ⟨hfresh, hnodup⟩ := List.nodup_cons.1 hnames
      let fill : _ → σ := fun a => inside (some a, rest.vacant)
      have hfirst : member (inside (cons field rest).vacant) field.name = fun s =>
          (afterColon (field.form.fromText l) s).map fun p => (fill p.1, p.2) := by
        funext s
        refine (hmember _ _ _ _ (readMember_head l field rest rest.vacant s)).trans ?_
        cases afterColon (field.form.fromText l) s <;> rfl
      have hfollows : Follows (member (inside (cons field rest).vacant) field.name) l.steps
          (0x3A :: (field.form.toValue row.1).write) (inside (some row.1, rest.vacant)) := by
        rw [hfirst]
        exact hhead.afterColon.map fill
      refine ReadsMembers.cons hfollows
        (ih row.2 htail hnodup (fun slots => inside (some row.1, slots)) ?_)
      -- the name of the first field is none of the names of the later ones
      intro slots name s step hstep
      have hne : name ≠ field.name := by
        rintro rfl
        exact hfresh (mem_names_of_readMember hstep)
      rw [hmember _ name s _ (readMember_tail hne (some row.1) hstep)]
      cases step <;> rfl

/-- The reader of a record finds its fields among the members of a written object. -/
theorem readObject_eq_accept {l : Limits} {types : List Type} {fields : Fields types}
    {row : Row types} (hforms : fields.ReadBack l row) (hnames : fields.names.Nodup) :
    ∃ member : Slots types → String → Bytes → Step (Slots types),
      (∀ s, fields.readObject l s =
        Form.accept fields.fill (membersAfter member l.steps true fields.vacant s)) ∧
      ReadsMembers member l.steps fields.vacant (fields.members row) (fields.found row) := by
  refine ⟨_, fun s => rfl, readsMembers fields row hforms hnames (fun slots => slots) ?_⟩
  intro slots name s step hstep
  simp only [hstep]
  cases step <;> rfl

end Fields

theorem Limits.exists_enter {l : Limits} {depth : Nat} (h : depth + 1 ≤ l.opens) :
    ∃ inner : Limits, l.enter = .ok inner ∧ depth ≤ inner.opens ∧ inner.steps = l.steps := by
  obtain ⟨n, hn⟩ := Nat.exists_eq_add_one_of_ne_zero (Nat.ne_of_gt (Nat.zero_lt_of_lt h))
  refine ⟨{ l with opens := n }, ?_, ?_, rfl⟩
  · rw [enter, hn]
  · show depth ≤ n
    omega

namespace Form

variable {α : Type}

theorem map_accept {β γ : Type} (f : α → Option β) (g : β → γ) (step : Step α) :
    (accept f step).map (fun p => (g p.1, p.2)) = accept (fun a => (f a).map g) step := by
  cases step with
  | error e => rfl
  | ok p =>
      simp only [accept]
      cases f p.1 <;> rfl

theorem accept_some (step : Step α) : accept some step = step := by
  cases step <;> rfl

/-- A record reads back what it writes when its fields do. -/
theorem faithful_record {types : List Type} {fields : Fields types} {make : Row types → α}
    {row : α → Row types} {depth : Nat} (hforms : fields.Faithful depth)
    (hnames : fields.names.Nodup) (hmake : ∀ a, make (row a) = a) :
    (record fields make row).Faithful (depth + 1) := by
  intro l a hopens
  obtain ⟨inner, henter, hinner, hsame⟩ := Limits.exists_enter hopens
  obtain ⟨member, hobject, hreads⟩ :=
    Fields.readObject_eq_accept (hforms.readBack hinner (row a)) hnames
  have hobjects : OpensObject ((record fields make row).fromText l) member inner.steps
      fields.vacant fun slots => (fields.fill slots).map make := by
    refine ⟨rfl, fun t => ?_⟩
    simp only [record, skipBlanks_cons (show isBlank 0x7B = false from rfl)]
    rw [if_neg (by decide), if_pos trivial, henter]
    show (fields.readObject inner t).map _ = _
    rw [hobject, map_accept]
  rw [ReadsBack, ← hsame]
  refine hobjects.follows hreads ?_
  rw [Fields.fill_found, Option.map_some, hmake]

/-! ## Maps -/

/-- The members of a map are inserted one after the other. -/
theorem readsMembers_map {form : Form α} {l : Limits} (entries : List (String × α))
    (hread : ∀ e ∈ entries, form.ReadsBack l e.2) (found : List (String × α)) :
    ReadsMembers (fun found name s =>
        (afterColon (form.fromText l) s).map fun p => (Keyed.insert name p.1 found, p.2))
      l.steps found (entries.map fun e => (e.1, form.toValue e.2))
      (entries.foldl (fun found e => Keyed.insert e.1 e.2 found) found) := by
  induction entries generalizing found with
  | nil => exact ReadsMembers.nil _
  | cons e entries ih =>
      obtain ⟨hhead, htail⟩ := List.forall_mem_cons.1 hread
      exact ReadsMembers.cons (hhead.afterColon.map fun a => Keyed.insert e.1 a found)
        (ih htail _)

theorem readsBack_map {form : Form α} {depth : Nat} (hform : form.Faithful depth) {l : Limits}
    {entries : List (String × α)} (hentries : Keyed.Ascending entries)
    (hopens : depth + 1 ≤ l.opens) : form.map.ReadsBack l entries := by
  obtain ⟨inner, henter, hinner, hsame⟩ := Limits.exists_enter hopens
  have hreads := readsMembers_map entries (fun e _ => hform inner e.2 hinner) []
  have hall : entries.foldl (fun found e => Keyed.insert e.1 e.2 found) [] = entries :=
    Keyed.ofPairs_of_ascending hentries
  have hobjects : OpensObject (form.map.fromText l) (fun found name s =>
      (afterColon (form.fromText inner) s).map fun p => (Keyed.insert name p.1 found, p.2))
      inner.steps [] some := by
    refine ⟨rfl, fun t => ?_⟩
    simp only [map, skipBlanks_cons (show isBlank 0x7B = false from rfl)]
    rw [if_pos trivial, henter, hsame, accept_some]
    rfl
  rw [ReadsBack, ← hsame]
  exact hobjects.follows hreads (congrArg some hall)

end Form

end TopicWatch.Json
