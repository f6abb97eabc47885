import TopicWatch.Proofs.Json.End

/-!
# Reading from text and from a buffered value

Where a text can be buffered as a generic value, reading it as what is wanted succeeds exactly if
taking that from the buffered value does, with the same result, and both end at the same place.
Only the sort of problem may differ.
-/

namespace TopicWatch.Json

variable {α β : Type}

theorem toOption_map {step : Step α} {found : Option α} {rest : Bytes}
    (h : step.toOption = found.map (·, rest)) (f : α → β) :
    (step.map fun p => (f p.1, p.2)).toOption = (found.map f).map (·, rest) := by
  have hmap : (step.map fun p => (f p.1, p.2)).toOption =
      step.toOption.map fun p => (f p.1, p.2) := by
    cases step <;> rfl
  rw [hmap, h]
  cases found <;> rfl

theorem toOption_accept {step : Step α} {found : Option α} {rest : Bytes}
    (h : step.toOption = found.map (·, rest)) (f : α → Option β) :
    (Form.accept f step).toOption = (found.bind f).map (·, rest) := by
  have haccept : (Form.accept f step).toOption =
      step.toOption.bind fun p => (f p.1).map (·, p.2) := by
    cases step with
    | error e => rfl
    | ok p =>
        rw [Form.accept]
        cases hf : f p.1 <;> simp [Except.toOption, hf]
  rw [haccept, h]
  cases found <;> rfl

theorem ok_iff_toOption {step : Except Fault α} {a : α} :
    step = .ok a ↔ step.toOption = some a := by
  cases step with
  | error e => simp [Except.toOption]
  | ok b => simp [Except.toOption]

theorem exists_error {step : Except Fault α} (h : step.toOption = none) : ∃ f, step = .error f := by
  cases step with
  | error f => exact ⟨f, rfl⟩
  | ok a => cases h

theorem toOption_membersAfter_cons {σ : Type} {member : σ → String → Bytes → Step σ} {n : Nat}
    {first : Bool} {found : σ} {name : String} {s at' : Bytes}
    (hnext : nextMember first s = .ok (.name name at')) :
    (membersAfter member (n + 1) first found s).toOption =
      (member found name at').toOption.bind fun p =>
        (membersAfter member n false p.1 p.2).toOption := by
  rw [membersAfter, hnext]
  simp only
  cases member found name at' <;> rfl

/-- What members that were buffered are made of, one by one, is made of their text too. -/
theorem toOption_membersAfter {value : Bytes → Step Value} (hvalue : Takes value fun _ => 0)
    {room n : Nat} {first : Bool} {read last : List (String × Value)} {s rest : Bytes}
    (hroom : s.length ≤ room) (h : membersAfter (collect value) n first read s = .ok (last, rest)) :
    ∃ ms : List (String × Value), last = ms.reverse ++ read ∧
      ∀ {σ : Type} {member : σ → String → Bytes → Step σ} {add : σ → String × Value → Option σ},
        (∀ found name s v rest, s.length ≤ room → afterColon value s = .ok (v, rest) →
          (member found name s).toOption = (add found (name, v)).map (·, rest)) →
        ∀ found, (membersAfter member n first found s).toOption =
          (ms.foldlM add found).map (·, rest) := by
  replace h := run_of_membersAfter h
  induction h with
  | closed hnext =>
      refine ⟨[], rfl, fun _ found => ?_⟩
      rw [membersAfter, hnext]
      rfl
  | @member _ _ _ _ _ name _ at' mid _ hnext hmember _ ih =>
      have hname := length_of_nextMember_name hnext
      obtain ⟨v, hread, rfl⟩ := value_of_collect hmember
      have hmid : mid.length + (0 + 1) ≤ at'.length := hvalue.afterColon hread
      obtain ⟨ms, rfl, htake⟩ := ih (by omega)
      refine ⟨(name, v) :: ms, by simp, fun {σ member add} hadd found => ?_⟩
      rw [toOption_membersAfter_cons hnext, List.foldlM_cons,
        hadd found name at' v mid (by omega) hread]
      cases add found (name, v) with
      | none => rfl
      | some next => exact htake hadd next

namespace Form

/-- A form reads from a text what it takes from the value that the text can be buffered as. -/
def Agrees (form : Form α) : Prop :=
  ∀ ⦃l s v rest⦄, s.length ≤ l.steps → readValue l.steps l.opens s = .ok (v, rest) →
    (form.fromText l s).toOption = (form.fromValue v).map (·, rest)

theorem Agrees.restrict {form : Form α} (h : form.Agrees) (read : α → Option β) (show' : β → α) :
    (form.restrict read show').Agrees :=
  fun _ _ _ _ hroom hread => toOption_accept (h hroom hread) read

theorem Agrees.afterColon {form : Form α} (h : form.Agrees) {l : Limits} {s rest : Bytes} {v : Value}
    (hroom : s.length ≤ l.steps)
    (hread : Json.afterColon (readValue l.steps l.opens) s = .ok (v, rest)) :
    (Json.afterColon (form.fromText l) s).toOption = (form.fromValue v).map (·, rest) := by
  obtain ⟨t, hcolon, hvalue⟩ := colon_of_afterColon hread
  have hlength := length_of_colon hcolon
  rw [Json.afterColon, hcolon]
  exact h (by omega) hvalue

/-- Whoever wants scalars only finds them in the text where they are buffered. -/
theorem agrees_ofScalar {want : Value → Option α} {toValue : α → Value}
    (hitems : ∀ items, want (.array items) = none) (hmembers : ∀ ms, want (.object ms) = none) :
    (ofScalar want toValue).Agrees := by
  intro l s v rest _ hread
  show (readScalar want s).toOption = (want v).map (·, rest)
  rw [readScalar]
  obtain ⟨c, more, hc, hopen, hscalar⟩ | ⟨n, more, items, -, hc, rfl, -⟩ |
    ⟨n, more, ms, -, hc, rfl, -⟩ := cases_of_readValue hread
  · rw [hc]
    simp only [hopen, Option.isSome_none, Bool.false_eq_true, if_false, hscalar]
    exact toOption_accept (show Except.toOption _ = (some v).map (·, rest) from rfl) want
  · rw [hc, hitems]
    rfl
  · rw [hc, hmembers]
    rfl

theorem agrees_text : text.Agrees := agrees_ofScalar (fun _ => rfl) fun _ => rfl

theorem agrees_null : null.Agrees := agrees_ofScalar (fun _ => rfl) fun _ => rfl

theorem agrees_integer (least greatest : Int) : (integer least greatest).Agrees :=
  agrees_ofScalar (fun _ => rfl) fun _ => rfl

theorem agrees_int32 : int32.Agrees := (agrees_integer _ _).restrict _ _

theorem agrees_int64 : int64.Agrees := (agrees_integer _ _).restrict _ _

theorem agrees_bytes : bytes.Agrees := agrees_text.restrict _ _

/-- A null is told from other values by its first byte. -/
theorem null_or_not_null {steps opens : Nat} {s rest : Bytes} {v : Value}
    (h : readValue steps opens s = .ok (v, rest)) :
    (v = .null ∧ ∃ more, skipBlanks s = 0x6E :: more ∧ literal [0x75, 0x6C, 0x6C] more = .ok rest) ∨
      v ≠ .null ∧ ∀ more, skipBlanks s ≠ 0x6E :: more := by
  obtain ⟨c, more, hc, -, hread⟩ | ⟨_, more, _, -, hc, rfl, -⟩ | ⟨_, more, _, -, hc, rfl, -⟩ :=
    cases_of_readValue h
  · by_cases hn : c = 0x6E
    · subst hn
      obtain ⟨after, hletters, heq⟩ := exists_of_map (show
        (literal [0x75, 0x6C, 0x6C] more).map (Value.null, ·) = .ok (v, rest) from hread)
      obtain ⟨rfl, rfl⟩ := Prod.mk.inj heq
      exact .inl ⟨rfl, more, hc, hletters⟩
    · refine .inr ⟨ne_null_of_scalar hn hread, fun more' heq => hn ?_⟩
      rw [hc] at heq
      exact (List.cons.inj heq).1
  · refine .inr ⟨fun heq => (nomatch heq), fun more' heq => ?_⟩
    rw [hc] at heq
    cases heq
  · refine .inr ⟨fun heq => (nomatch heq), fun more' heq => ?_⟩
    rw [hc] at heq
    cases heq

theorem Agrees.optional {form : Form α} (h : form.Agrees) : form.optional.Agrees := by
  intro l s v rest hroom hread
  obtain ⟨rfl, more, hnull, hletters⟩ | ⟨hne, hnull⟩ := null_or_not_null hread
  · simp only [Form.optional, hnull, hletters]
    rfl
  · have hvalue : form.optional.fromValue v = (form.fromValue v).map some := by
      cases v <;> first | rfl | exact absurd rfl hne
    have htext : form.optional.fromText l s =
        (form.fromText l (skipBlanks s)).map fun p => (some p.1, p.2) := by
      simp only [Form.optional]
    rw [← readValue_skipBlanks] at hread
    rw [htext, hvalue]
    exact toOption_map (h (Nat.le_trans (length_skipBlanks s) hroom) hread) some

/-- Where a bracket was buffered, it may be opened. -/
theorem enter_eq {l : Limits} {n : Nat} (h : l.opens = n + 1) :
    l.enter = .ok { l with opens := n } := by
  rw [Limits.enter, h]

theorem foldlM_insert {f : Value → Option α} (ms : List (String × Value))
    (entries : List (String × α)) :
    ms.foldlM (fun entries m => (f m.2).map fun a => Keyed.insert m.1 a entries) entries =
      (ms.mapM fun m => (f m.2).map (m.1, ·)).map fun pairs =>
        pairs.foldl (fun entries p => Keyed.insert p.1 p.2 entries) entries := by
  induction ms generalizing entries with
  | nil => rfl
  | cons m ms ih =>
      rw [List.foldlM_cons, List.mapM_cons]
      cases hm : f m.2 with
      | none => rfl
      | some a =>
          show ms.foldlM _ (Keyed.insert m.1 a entries) = _
          rw [ih]
          cases ms.mapM fun m => (f m.2).map (m.1, ·) <;> simp

theorem Agrees.map {form : Form α} (h : form.Agrees) : form.map.Agrees := by
  intro l s v rest hroom hread
  obtain ⟨c, more, hc, hopen, hscalar⟩ | ⟨n, more, items, -, hc, rfl, -⟩ |
    ⟨n, more, ms, hn, hc, rfl, hmembers⟩ := cases_of_readValue hread
  · have hne : c ≠ 0x7B := by
      rintro rfl
      cases hopen
    have hnone : form.map.fromValue v = none := by
      cases v with
      | object ms => exact absurd rfl ((not_container_of_scalar hscalar).2 ms)
      | _ => rfl
    simp only [Form.map, hc, hne, if_false] at hnone ⊢
    rw [hnone]
    rfl
  · simp only [Form.map, hc]
    rfl
  · have hmore := length_of_skipBlanks hc
    obtain ⟨ms', hms, htake⟩ := toOption_membersAfter (takes_readValue l.steps n)
      (show more.length ≤ l.steps by omega) hmembers
    rw [List.append_nil, List.reverse_inj] at hms
    subst hms
    let add (entries : List (String × α)) (m : String × Value) : Option (List (String × α)) :=
      (form.fromValue m.2).map fun a => Keyed.insert m.1 a entries
    have hadd : (membersAfter (fun entries name at' =>
          (Json.afterColon (form.fromText { l with opens := n }) at').map fun p =>
            (Keyed.insert name p.1 entries, p.2)) l.steps true [] more).toOption =
        (ms.foldlM add []).map (·, rest) :=
      htake (fun entries name t v after ht hvalue =>
        toOption_map (h.afterColon (l := { l with opens := n }) ht hvalue)
          fun a => Keyed.insert name a entries) []
    simp only [Form.map, hc, if_true, enter_eq hn]
    refine hadd.trans ?_
    rw [foldlM_insert]
    rfl

theorem fromText_text_of_quote {s t rest : Bytes} {k : String} (hquote : skipBlanks s = 0x22 :: t)
    (hread : readText t = .ok (k, rest)) (l : Limits) : text.fromText l s = .ok (k, rest) := by
  have hscalar : scalar 0x22 t = .ok (.text k, rest) := by
    rw [scalar_quote, hread]
    rfl
  show readScalar _ s = _
  rw [readScalar, hquote]
  simp only [show Bracket.ofOpen? 0x22 = none from rfl, Option.isSome_none, Bool.false_eq_true,
    if_false, hscalar, accept]

/-- Behind a member stands the end of the object, or a comma and a further member. -/
theorem close_or_comma {value : Bytes → Step Value} {n : Nat} {read last : List (String × Value)}
    {s rest : Bytes} (h : MembersRun (collect value) n false read s last rest) :
    (last = read ∧ skipBlanks s = 0x7D :: rest) ∨
      ∃ m ms more, last = ms ++ m :: read ∧ skipBlanks s = 0x2C :: more := by
  cases h with
  | closed hnext => exact .inl ⟨rfl, close_of_nextMember hnext⟩
  | @member _ _ _ _ _ name _ _ _ _ hnext hmember tail =>
      obtain ⟨v, -, rfl⟩ := value_of_collect hmember
      obtain ⟨ms, hlast, -⟩ := exists_members tail.reads
      obtain ⟨more, -, hcomma, -⟩ := name_of_nextMember_later hnext
      exact .inr ⟨(name, v), ms.reverse, more, hlast, hcomma⟩

theorem readNamedNull_of_empty (table : List (String × α)) {s rest : Bytes}
    (h : nextMember true s = .ok (.closed rest)) : (readNamedNull table s).toOption = none := by
  have hnone : text.fromText ⟨0, 0⟩ s = .error .malformed := by
    show readScalar _ s = _
    rw [readScalar, close_of_nextMember h]
    rfl
  rw [readNamedNull, hnone]
  rfl

section Name

variable {table : List (String × α)} {s at' after more : Bytes} {k : String}

/-- Behind the name that an object begins with, null is wanted. -/
theorem readNamedNull_of_not_null (hnext : nextMember true s = .ok (.name k at'))
    (h : (Json.afterColon (null.fromText ⟨0, 0⟩) at').toOption = none) :
    (readNamedNull table s).toOption = none := by
  obtain ⟨t, hquote, htext⟩ := name_of_nextMember_first hnext
  obtain ⟨f, hvalue⟩ := exists_error h
  rw [readNamedNull, fromText_text_of_quote hquote htext, accept]
  cases lookUp table k with
  | none => rfl
  | some a =>
      simp only [hvalue]
      rfl

/-- Behind the null, the end of the object is wanted. -/
theorem readNamedNull_of_more (hnext : nextMember true s = .ok (.name k at'))
    (h : Json.afterColon (null.fromText ⟨0, 0⟩) at' = .ok ((), after))
    (hcomma : skipBlanks after = 0x2C :: more) : (readNamedNull table s).toOption = none := by
  obtain ⟨t, hquote, htext⟩ := name_of_nextMember_first hnext
  rw [readNamedNull, fromText_text_of_quote hquote htext, accept]
  cases lookUp table k with
  | none => rfl
  | some a =>
      simp only [h, hcomma]
      rfl

theorem readNamedNull_of_null (hnext : nextMember true s = .ok (.name k at'))
    (h : Json.afterColon (null.fromText ⟨0, 0⟩) at' = .ok ((), after))
    (hclose : skipBlanks after = 0x7D :: more) :
    (readNamedNull table s).toOption = (lookUp table k).map (·, more) := by
  obtain ⟨t, hquote, htext⟩ := name_of_nextMember_first hnext
  rw [readNamedNull, fromText_text_of_quote hquote htext, accept]
  cases lookUp table k with
  | none => rfl
  | some a =>
      simp only [h, hclose, if_true]
      rfl

end Name

theorem fromValue_null_or_none (v : Value) :
    v = .null ∨ null.fromValue v = none ∧
      ∀ (table : List (String × α)) (name : α → String) (k : String) (ms : List (String × Value)),
        (named table name).fromValue (.object ((k, v) :: ms)) = none := by
  cases v with
  | null => exact .inl rfl
  | _ => exact .inr ⟨rfl, fun _ _ _ ms => by cases ms <;> rfl⟩

theorem toOption_readNamedNull {table : List (String × α)} (name : α → String)
    {steps opens n : Nat} {s rest : Bytes} {ms : List (String × Value)} (hroom : s.length ≤ steps)
    (hread : membersAfter (collect (readValue steps opens)) n true [] s = .ok (ms.reverse, rest)) :
    (readNamedNull table s).toOption =
      ((named table name).fromValue (.object ms)).map (·, rest) := by
  generalize hlast : ms.reverse = last at hread
  cases run_of_membersAfter hread with
  | closed hnext =>
      obtain rfl : ms = [] := List.reverse_eq_nil_iff.1 hlast
      exact readNamedNull_of_empty table hnext
  | @member _ _ _ _ _ k _ at' after _ hnext hmember tail =>
      have hname := length_of_nextMember_name hnext
      obtain ⟨v, hvalue, rfl⟩ := value_of_collect hmember
      have hnull := agrees_null.afterColon (l := ⟨opens, steps⟩)
        (show at'.length ≤ steps by omega) hvalue
      obtain rfl | ⟨hother, hnone⟩ := fromValue_null_or_none v
      · replace hnull : Json.afterColon (null.fromText ⟨0, 0⟩) at' = .ok ((), after) :=
          ok_iff_toOption.2 hnull
        obtain ⟨rfl, hclose⟩ | ⟨m, ms', more, rfl, hcomma⟩ := close_or_comma tail
        · obtain rfl : ms = [(k, .null)] := List.reverse_eq_iff.1 hlast
          exact readNamedNull_of_null hnext hnull hclose
        · obtain rfl : ms = (k, .null) :: m :: ms'.reverse := by
            rw [← List.reverse_inj, hlast]
            simp
          exact readNamedNull_of_more hnext hnull hcomma
      · obtain ⟨later, rfl, -⟩ := exists_members tail.reads
        obtain rfl : ms = (k, v) :: later := by
          rw [← List.reverse_inj, hlast, List.reverse_cons]
        rw [hnone]
        rw [hother] at hnull
        exact readNamedNull_of_not_null hnext hnull

theorem agrees_named (table : List (String × α)) (name : α → String) :
    (named table name).Agrees := by
  intro l s v rest hroom hread
  obtain ⟨c, more, hc, hopen, hscalar⟩ | ⟨n, more, items, hn, hc, rfl, -⟩ |
    ⟨n, more, ms, hn, hc, rfl, hmembers⟩ := cases_of_readValue hread
  · by_cases hquote : c = 0x22
    · subst hquote
      obtain ⟨t, rfl, htext⟩ := exists_of_scalar_quote hscalar
      simp only [named, hc, if_true, htext]
      exact toOption_accept (show Except.toOption _ = (some t).map (·, rest) from rfl)
        (lookUp table)
    · have hbrace : c ≠ 0x7B := by
        rintro rfl
        cases hopen
      have hnone : (named table name).fromValue v = none := by
        cases v with
        | text t => exact absurd rfl (ne_text_of_scalar hquote hscalar t)
        | object ms => exact absurd rfl ((not_container_of_scalar hscalar).2 ms)
        | _ => rfl
      rw [hnone]
      simp only [named, hc, hquote, hbrace, if_false]
      rfl
  · simp only [named, hc]
    rfl
  · have hmore := length_of_skipBlanks hc
    simp only [named, hc, enter_eq hn]
    exact toOption_readNamedNull name (show more.length ≤ l.steps by omega) hmembers

end Form

namespace Fields

/-- The form of each field reads from a text what it takes from a buffered value. -/
def Agree : {types : List Type} → Fields types → Prop
  | _, .nil => True
  | _, .cons field rest => field.form.Agrees ∧ Agree rest

/-- A field takes the same from the text of a member as from its buffered value; and a member
that is none of the fields changes nothing. -/
theorem toOption_readMember {types : List Type} {fields : Fields types} (h : fields.Agree)
    {l : Limits} (name : String) {s rest : Bytes} {v : Value} (hroom : s.length ≤ l.steps)
    (hread : afterColon (readValue l.steps l.opens) s = .ok (v, rest)) (slots : Slots types) :
    (∃ step, readMember l s name fields slots = some step ∧
        step.toOption = (place name v fields slots).map (·, rest)) ∨
      readMember l s name fields slots = none ∧ place name v fields slots = some slots := by
  induction fields with
  | nil => exact .inr ⟨rfl, rfl⟩
  | cons field more ih =>
      rw [readMember, place]
      by_cases hname : name = field.name
      · rw [if_pos hname, if_pos hname]
        by_cases hfound : slots.1.isSome
        · rw [if_pos hfound, if_pos hfound]
          exact .inl ⟨_, rfl, rfl⟩
        · rw [if_neg hfound, if_neg hfound]
          exact .inl ⟨_, rfl, toOption_map (h.1.afterColon hroom hread) fun a => (some a, slots.2)⟩
      · rw [if_neg hname, if_neg hname]
        obtain ⟨step, hstep, hsame⟩ | ⟨hnone, hslots⟩ := ih h.2 slots.2
        · refine .inl ⟨step.map fun p => ((slots.1, p.1), p.2), by rw [hstep]; rfl, ?_⟩
          exact toOption_map hsame fun later => (slots.1, later)
        · exact .inr ⟨by rw [hnone]; rfl, by rw [hslots]; rfl⟩

theorem toOption_readAny {types : List Type} {fields : Fields types} (h : fields.Agree)
    {l : Limits} {name : String} {s rest : Bytes} {v : Value} (hroom : s.length ≤ l.steps)
    (hread : afterColon (readValue l.steps l.opens) s = .ok (v, rest)) (slots : Slots types) :
    (fields.readAny l slots name s).toOption = (place name v fields slots).map (·, rest) := by
  unfold readAny
  obtain ⟨step, hstep, hsame⟩ | ⟨hnone, hslots⟩ :=
    toOption_readMember h name hroom hread slots
  · simp only [hstep, hsame]
  · -- a member of an unknown name is passed over up to the end of its value
    obtain ⟨t, hcolon, hvalue⟩ := colon_of_afterColon hread
    have hlength := length_of_colon hcolon
    have hskip : skipValue l.steps t = .ok rest :=
      (endsAsPassed_readValue l.steps l.opens hvalue).skipValue (by omega)
    simp only [hnone, hslots, afterColon, hcolon, hskip]
    rfl

theorem toOption_readObject {types : List Type} {fields : Fields types} (h : fields.Agree)
    {l : Limits} {s rest : Bytes} {ms : List (String × Value)} (hroom : s.length ≤ l.steps)
    (hread : membersAfter (collect (readValue l.steps l.opens)) l.steps true [] s =
      .ok (ms.reverse, rest)) :
    (fields.readObject l s).toOption = (fields.ofMembers ms).map (·, rest) := by
  obtain ⟨ms', hms, htake⟩ := toOption_membersAfter (takes_readValue l.steps l.opens) hroom hread
  rw [List.append_nil, List.reverse_inj] at hms
  subst hms
  have hmembers : (membersAfter (fields.readAny l) l.steps true fields.vacant s).toOption =
      (ms.foldlM (fun slots m => place m.1 m.2 fields slots) fields.vacant).map (·, rest) :=
    htake (fun slots name t v after ht hvalue => toOption_readAny h ht hvalue slots) fields.vacant
  rw [readObject_eq]
  exact toOption_accept hmembers fields.fill

theorem closeArray_of_nextItem {first : Bool} {s rest : Bytes}
    (h : nextItem first s = .ok (.closed rest)) : closeArray s = .ok rest := by
  rw [closeArray, close_of_nextItem h]
  rfl

/-- Where a further item stands, the end of the array does not. -/
theorem closeArray_of_item {first : Bool} {s at' : Bytes}
    (h : nextItem first s = .ok (.item at')) : (closeArray s).toOption = none := by
  cases first with
  | true =>
      obtain ⟨c, more, hc, hne, -⟩ := item_of_nextItem_first h
      simp only [closeArray, hc, hne, if_false]
      rfl
  | false =>
      obtain ⟨more, hc, -⟩ := item_of_nextItem_later h
      simp only [closeArray, hc]
      rfl

theorem toOption_readArray {types : List Type} {fields : Fields types} (h : fields.Agree)
    {l : Limits} {n : Nat} {first : Bool} {read all : List Value} {s rest : Bytes}
    (hroom : s.length ≤ l.steps)
    (hread : itemsAfter (readValue l.steps l.opens) n first read s = .ok (all, rest)) :
    ∃ items, all = read.reverse ++ items ∧
      (readArray l fields first s).toOption = (fields.ofItems items).map (·, rest) := by
  induction fields generalizing n first read s with
  | nil =>
      cases run_of_itemsAfter hread with
      | closed hnext =>
          refine ⟨[], (List.append_nil _).symm, ?_⟩
          rw [readArray, closeArray_of_nextItem hnext]
          rfl
      | @item _ _ _ _ _ _ _ _ v hnext _ tail =>
          obtain ⟨items, rfl, -⟩ := exists_items tail.reads
          refine ⟨v :: items, by simp, ?_⟩
          obtain ⟨f, hclose⟩ := exists_error (closeArray_of_item hnext)
          rw [readArray, hclose]
          rfl
  | cons field more ih =>
      rw [readArray]
      cases run_of_itemsAfter hread with
      | closed hnext =>
          refine ⟨[], (List.append_nil _).symm, ?_⟩
          simp only [hnext, ofItems]
          cases (cons field more).short <;> rfl
      | @item _ _ _ _ _ at' mid _ v hnext hvalue tail =>
          have hitem := length_of_nextItem_item hnext
          have hmid : mid.length + 0 ≤ at'.length := takes_readValue _ _ hvalue
          obtain ⟨items, rfl, hmore⟩ := ih h.2 (by omega) tail.reads
          refine ⟨v :: items, by simp, ?_⟩
          have hfirst := h.1 (by omega) hvalue
          simp only [hnext, ofItems]
          cases hv : field.form.fromValue v with
          | none =>
              rw [hv] at hfirst
              obtain ⟨f, htext⟩ := exists_error hfirst
              rw [htext]
              rfl
          | some a =>
              rw [hv] at hfirst
              rw [ok_iff_toOption.2 hfirst]
              refine (toOption_map hmore fun row => (a, row)).trans ?_
              cases more.ofItems items <;> rfl

end Fields

/-- A record is read from a text as it is taken from the buffered value, be it an object, an array
or neither. -/
theorem Form.agrees_record {types : List Type} {fields : Fields types} (h : fields.Agree)
    (make : Row types → α) (row : α → Row types) : (record fields make row).Agrees := by
  intro l s v rest hroom hread
  obtain ⟨c, more, hc, hopen, hscalar⟩ | ⟨n, more, items, hn, hc, rfl, hitems⟩ |
    ⟨n, more, ms, hn, hc, rfl, hmembers⟩ := cases_of_readValue hread
  · obtain ⟨hbracket, hbrace⟩ : c ≠ 0x5B ∧ c ≠ 0x7B := by
      constructor <;> rintro rfl <;> cases hopen
    have hnone : (record fields make row).fromValue v = none := by
      cases v with
      | array items => exact absurd rfl ((not_container_of_scalar hscalar).1 items)
      | object ms => exact absurd rfl ((not_container_of_scalar hscalar).2 ms)
      | _ => rfl
    rw [hnone]
    simp only [record, hc, hbracket, hbrace, if_false]
    rfl
  · have hmore := length_of_skipBlanks hc
    obtain ⟨items', rfl, harray⟩ := Fields.toOption_readArray h
      (l := { l with opens := n }) (show more.length ≤ l.steps by omega) hitems
    simp only [record, hc, if_true, enter_eq hn]
    exact toOption_map harray make
  · have hmore := length_of_skipBlanks hc
    have hobject := Fields.toOption_readObject h
      (l := { l with opens := n }) (show more.length ≤ l.steps by omega) hmembers
    simp only [record, hc, enter_eq hn]
    exact toOption_map hobject make

end TopicWatch.Json
