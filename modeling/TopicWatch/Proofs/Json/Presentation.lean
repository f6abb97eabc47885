import Mathlib.Data.List.Nodup
import TopicWatch.Proofs.Json.Agreement
import TopicWatch.Proofs.Json.Wellformed

/-!
# Presentations of records

One record may be presented in many ways: as an object with its fields in any order among members
of other names, without the fields that have their defaults, or as an array. It is read from each
of them. An object that has a field twice or lacks one without a default, and an array that ends
before such a field, are read as no record at all.
-/

namespace TopicWatch.Json

/-- A form reads each layout of what it writes. -/
theorem Form.fromText_lays {α : Type} {form : Form α} {depth : Nat} (hagrees : form.Agrees)
    (hrestores : form.Restores depth) {a : α} {t : Bytes} (h : Lays (form.toValue a) t) {l : Limits}
    (hopens : depth ≤ l.opens) {behind : Bytes} (hbehind : EndsNumber behind)
    (hroom : (t ++ behind).length ≤ l.steps) : form.fromText l (t ++ behind) = .ok (a, behind) := by
  have hread := (h.gives (hrestores.plain a)).read hopens hbehind hroom
  rw [ok_iff_toOption, hagrees hroom hread, hrestores.restores]
  rfl

namespace Fields

variable {types : List Type} {fields : Fields types} {row : Row types} {depth : Nat} {l : Limits}

/-- Fields of different names, whose forms read from a text what they take from its buffered value,
take back what they write, and end where passing over a value does. -/
structure Legible (fields : Fields types) (depth : Nat) : Prop where
  agree : fields.Agree
  restores : fields.Restores depth
  ends : fields.EndAsPassed
  distinct : fields.names.Nodup

/-! ## Presentations -/

/-- Each field stands among those present, or it has the value that it takes where it is missing. -/
def Omits (present : List String) : {types : List Type} → Fields types → Row types → Prop
  | _, .nil, _ => True
  | _, .cons field rest, row =>
      (field.name ∈ present ∨ field.whenMissing = some row.1) ∧ Omits present rest row.2

/-- The members of an object that present a row: no field more than once, in any order, and
members of other names with any values at all. -/
structure Presents (fields : Fields types) (row : Row types) (ms : List Member) : Prop where
  known : ∀ m ∈ ms, m.name ∈ fields.names →
    ∃ v, (m.name, v) ∈ fields.members row ∧ Lays v m.value.text
  other : ∀ m ∈ ms, m.name ∉ fields.names → Wellformed m.value.text
  once : ∀ name ∈ fields.names, (ms.map Member.name).count name ≤ 1
  omits : fields.Omits (ms.map Member.name) row

/-- The items of an array that present a row: the values of the fields in order. The array may end
before fields that have the values which they take there. -/
def Lists : {types : List Type} → Fields types → Row types → List Padded → Prop
  | _, fields, row, [] => fields.short = some row
  | _, .nil, _, _ :: _ => False
  | _, .cons field rest, row, p :: ps =>
      Lays (field.form.toValue row.1) p.text ∧ rest.Lists row.2 ps

/-- The texts that present a row. -/
inductive Presented (fields : Fields types) (row : Row types) : Bytes → Prop
  | object {ms : List Member} {blanks : Bytes} (h : fields.Presents row ms)
      (hblanks : Blanks blanks) :
      Presented fields row (enclosed .object (ms.map Member.bytes) blanks)
  | array {ps : List Padded} {blanks : Bytes} (h : fields.Lists row ps) (hblanks : Blanks blanks) :
      Presented fields row (enclosed .array (ps.map Padded.bytes) blanks)

theorem omits_of_subset {present : List String} (h : ∀ name ∈ fields.names, name ∈ present) :
    fields.Omits present row := by
  induction fields with
  | nil => trivial
  | cons field rest ih =>
      obtain ⟨hfirst, hmore⟩ := List.forall_mem_cons.1 h
      exact ⟨.inl hfirst, ih hmore⟩

/-- What is written for a row is one of its presentations. -/
theorem presented_write (hfields : fields.Legible depth) (row : Row types) :
    fields.Presented row (Value.object (fields.members row)).write := by
  have hall : ((fields.members row).map Member.written).map Member.name = fields.names := by
    rw [List.map_map, ← map_fst_members fields row]
    rfl
  rw [write_object_enclosed]
  refine .object ⟨List.forall_mem_map.2 fun m hm _ => ?_,
    List.forall_mem_map.2 fun m hm hname => ?_, ?_, ?_⟩ (List.forall_mem_nil _)
  · exact ⟨m.2, hm, (hfields.restores.plain row m hm).lays⟩
  · refine absurd ?_ hname
    rw [← map_fst_members fields row]
    exact List.mem_map_of_mem hm
  · rw [hall]
    exact fun name _ => List.nodup_iff_count_le_one.1 hfields.distinct name
  · rw [hall]
    exact omits_of_subset fun _ => id

theorem Presented.begins {t : Bytes} (h : fields.Presented row t) : Begins t := by
  cases h <;> exact begins_enclosed _ _ _

theorem fill_foundAmong {done : List String} (h : fields.Omits done row) :
    fields.fill (fields.foundAmong done row) = some row := by
  induction fields with
  | nil => rfl
  | cons field rest ih =>
      obtain ⟨hfield, hrest⟩ := h
      have hvalue : ((if field.name ∈ done then some row.1 else none) <|> field.whenMissing) =
          some row.1 := by
        by_cases hdone : field.name ∈ done
        · rw [if_pos hdone]
          rfl
        · rw [if_neg hdone, hfield.resolve_left hdone]
          rfl
      simp only [fill, foundAmong, hvalue, ih hrest]
      rfl

theorem readMember_of_not_mem {name : String} (h : name ∉ fields.names) (slots : Slots types)
    (s : Bytes) : readMember l s name fields slots = none := by
  cases hread : readMember l s name fields slots with
  | none => rfl
  | some step => exact absurd (mem_names_of_readMember hread) h

/-- A field that was not found yet is found, however it is laid out. -/
theorem readAny_known (hfields : fields.Legible depth) (hopens : depth ≤ l.opens) {m : Member}
    {v : Value} (hmem : (m.name, v) ∈ fields.members row) (hlays : Lays v m.value.text)
    {done : List String} (hnew : m.name ∉ done) :
    Advances (fields.readAny l) l.steps (fields.foundAmong done row) m
      (fields.foundAmong (m.name :: done) row) := by
  intro behind hbehind hroom
  have hvalue : (m.value.bytes ++ behind).length ≤ l.steps := by
    rw [Member.length_afterName] at hroom
    rw [List.length_append]
    omega
  have hread : afterColon (readValue l.steps l.opens) (m.afterName behind) =
      .ok (v, m.value.after ++ behind) := by
    rw [afterColon, m.colon_afterName]
    exact (hlays.gives (hfields.restores.plain row _ hmem)).padded hopens hbehind hvalue
  rw [ok_iff_toOption, toOption_readAny hfields.agree hroom hread,
    place_of_mem hfields.restores hfields.distinct hmem hnew]
  rfl

/-- A member of another name is passed over, whatever its value is. -/
theorem readAny_other {m : Member} (hname : m.name ∉ fields.names)
    (hvalue : Wellformed m.value.text) (slots : Slots types) :
    Advances (fields.readAny l) l.steps slots m slots := by
  intro behind hbehind hroom
  rw [readAny, readMember_of_not_mem hname]
  simp only [Member.skip hvalue hbehind hroom]
  rfl

/-- The members of a presentation are taken one after the other. -/
theorem chain_readAny (hfields : fields.Legible depth) (hopens : depth ≤ l.opens) {ms : List Member}
    (hknown : ∀ m ∈ ms, m.name ∈ fields.names →
      ∃ v, (m.name, v) ∈ fields.members row ∧ Lays v m.value.text)
    (hother : ∀ m ∈ ms, m.name ∉ fields.names → Wellformed m.value.text) (done : List String)
    (honce : ∀ name ∈ fields.names, (ms.map Member.name).count name + done.count name ≤ 1) :
    Chain (Advances (fields.readAny l) l.steps) (fields.foundAmong done row) ms
      (fields.foundAmong ((ms.map Member.name).reverse ++ done) row) := by
  induction ms generalizing done with
  | nil => exact .nil _
  | cons m ms ih =>
      obtain ⟨hfirst, hknown⟩ := List.forall_mem_cons.1 hknown
      obtain ⟨hpassed, hother⟩ := List.forall_mem_cons.1 hother
      have hlater : ∀ name ∈ fields.names,
          (ms.map Member.name).count name + (m.name :: done).count name ≤ 1 := by
        intro name hname
        have hall := honce name hname
        rw [List.map_cons, List.count_cons] at hall
        rw [List.count_cons]
        omega
      rw [List.map_cons, List.reverse_cons, List.append_assoc, List.singleton_append]
      refine .cons ?_ (ih hknown hother _ hlater)
      by_cases hfield : m.name ∈ fields.names
      · obtain ⟨v, hmem, hlays⟩ := hfirst hfield
        have hnew : m.name ∉ done := by
          have hfew := hlater m.name hfield
          rw [List.count_cons_self] at hfew
          exact List.count_eq_zero.1 (by omega)
        exact readAny_known hfields hopens hmem hlays hnew
      · have hsame : fields.foundAmong (m.name :: done) row = fields.foundAmong done row := by
          refine foundAmong_congr (fun name hname => ?_) row
          have hne : name ≠ m.name := fun heq => hfield (heq ▸ hname)
          simp [hne]
        rw [hsame]
        exact readAny_other hfield (hpassed hfield) _

theorem readObject_presents (hfields : fields.Legible depth) (hopens : depth ≤ l.opens)
    {ms : List Member} (h : fields.Presents row ms) {blanks : Bytes} (hblanks : Blanks blanks)
    (rest : Bytes)
    (hroom : (enclosed .object (ms.map Member.bytes) blanks ++ rest).length ≤ l.steps) :
    fields.readObject l (itemsSpelled true (ms.map Member.bytes) ++ (blanks ++ 0x7D :: rest)) =
      .ok (row, rest) := by
  obtain ⟨hcount, hlength⟩ := length_le_enclosed .object (ms.map Member.bytes) blanks rest
  rw [List.length_map] at hcount
  have hchain := chain_readAny hfields hopens h.known h.other [] h.once
  have hall : fields.foundAmong ((ms.map Member.name).reverse ++ []) row =
      fields.foundAmong (ms.map Member.name) row :=
    foundAmong_congr (fun name _ => by rw [List.append_nil, List.mem_reverse]) row
  rw [foundAmong_nil, hall] at hchain
  have hmembers := membersAfter_of_chain hchain (Nat.lt_of_lt_of_le hcount hroom) true blank_nil
    hblanks rest (Nat.le_trans hlength hroom)
  rw [List.nil_append] at hmembers
  rw [readObject_eq, hmembers, Form.accept, fill_foundAmong h.omits]

theorem readArray_lists (hagree : fields.Agree) (hforms : fields.Restores depth)
    (hopens : depth ≤ l.opens) {ps : List Padded} (h : fields.Lists row ps) (first : Bool)
    {blanks blanks' : Bytes} (hblanks : Blank blanks) (hblanks' : Blanks blanks') (rest : Bytes)
    (hroom : (itemsSpelled first (ps.map Padded.bytes) ++ (blanks' ++ 0x5D :: rest)).length ≤
      l.steps) :
    readArray l fields first
        (blanks ++ (itemsSpelled first (ps.map Padded.bytes) ++ (blanks' ++ 0x5D :: rest))) =
      .ok (row, rest) := by
  induction fields generalizing ps first blanks with
  | nil =>
      cases ps with
      | nil =>
          rw [readArray, List.map_nil,
            closeArray_of_nextItem (nextItem_close hblanks hblanks'.blank first rest)]
          rfl
      | cons p ps => exact h.elim
  | cons field more ih =>
      cases ps with
      | nil =>
          have hshort : (Fields.cons field more).short = some row := h
          rw [readArray, List.map_nil, nextItem_close hblanks hblanks'.blank]
          simp only [hshort]
      | cons p ps =>
          obtain ⟨hvalue, hmore⟩ := h
          have hends : EndsNumber (p.after ++ (itemsSpelled false (ps.map Padded.bytes) ++
              (blanks' ++ 0x5D :: rest))) :=
            p.after_blanks.endsNumber (endsNumber_parts .array _ hblanks' rest)
          rw [List.map_cons, itemsSpelled] at hroom
          simp only [List.length_append, Padded.length_bytes] at hroom
          have hread := Form.fromText_lays hagree.1 hforms.1 hvalue hopens hends
            (by simp only [List.length_append]; omega)
          have hbegins := (hvalue.gives (hforms.1.plain row.1)).begins
          rw [readArray, List.map_cons, nextItem_part hbegins hblanks]
          simp only [hread]
          rw [ih hagree.2 hforms.2 hmore false p.after_blanks.blank
            (by simp only [List.length_append]; omega)]
          rfl

end Fields

namespace Form

variable {α : Type}

/-- Names are read however they are spelled. -/
theorem fromText_named {table : List (String × α)} {name : α → String} {a : α}
    (hfind : lookUp table (name a) = some a) {p : Padded} (h : SpellsText (name a) p.text)
    (l : Limits) (behind : Bytes) :
    (named table name).fromText l (p.bytes ++ behind) = .ok (a, p.after ++ behind) := by
  have hbytes := Padded.skipBlanks_bytes h.begins behind
  obtain ⟨u, htext, hread⟩ := h.read
  rw [htext, List.cons_append] at hbytes
  simp only [named, hbytes, if_true, hread, accept, hfind]

variable {types : List Type} {fields : Fields types} {make : Row types → α} {row : α → Row types}

/-- Blanks before a record do not matter. -/
theorem fromText_record_padded {p : Padded} (h : Begins p.text) (l : Limits) (behind : Bytes) :
    (record fields make row).fromText l (p.bytes ++ behind) =
      (record fields make row).fromText l (p.text ++ (p.after ++ behind)) := by
  have hbytes := Padded.skipBlanks_bytes h behind
  have htext : skipBlanks (p.text ++ (p.after ++ behind)) = p.text ++ (p.after ++ behind) := by
    rw [← hbytes, skipBlanks_skipBlanks]
  simp only [record, hbytes, htext]

/-- A record is read from each of its presentations. -/
theorem fromText_presented {depth : Nat} (hfields : fields.Legible depth)
    (hmake : ∀ a, make (row a) = a) {a : α} {p : Padded} (h : fields.Presented (row a) p.text)
    {l : Limits} (hopens : depth + 1 ≤ l.opens) {behind : Bytes}
    (hroom : (p.bytes ++ behind).length ≤ l.steps) :
    (record fields make row).fromText l (p.bytes ++ behind) = .ok (a, p.after ++ behind) := by
  obtain ⟨inner, henter, hinner, hsame⟩ := Limits.exists_enter hopens
  have htext : (p.text ++ (p.after ++ behind)).length ≤ inner.steps := by
    simp only [List.length_append, Padded.length_bytes] at hroom ⊢
    omega
  rw [fromText_record_padded h.begins]
  generalize p.after ++ behind = rest at htext ⊢
  generalize p.text = t at h htext ⊢
  cases h with
  | object h hblanks =>
      have hread := Fields.readObject_presents hfields hinner h hblanks rest htext
      simp only [record, skipBlanks_enclosed, Bracket.opening, Bracket.close, henter]
      show (fields.readObject inner _).map _ = _
      rw [hread]
      exact congrArg (fun a => Except.ok (a, rest)) (hmake a)
  | @array ps blanks h hblanks =>
      have hlength := (length_le_enclosed .array (ps.map Padded.bytes) blanks rest).2
      have hread := Fields.readArray_lists hfields.agree hfields.restores hinner h true
        blank_nil hblanks rest (Nat.le_trans hlength htext)
      rw [List.nil_append] at hread
      simp only [record, skipBlanks_enclosed, Bracket.opening, Bracket.close, henter]
      show (Fields.readArray inner fields true _).map _ = _
      rw [hread]
      exact congrArg (fun a => Except.ok (a, rest)) (hmake a)

end Form

end TopicWatch.Json
