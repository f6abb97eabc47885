import TopicWatch.Proofs.Json.Skip

/-!
# Where forms end

Whatever a form reads ends where passing over the value does, be it a scalar, a map, a name or a
record with members of unknown names.
-/

namespace TopicWatch.Json

namespace Form

variable {α β : Type}

/-- What a form reads ends where passing over it does. -/
def EndsAsPassed (form : Form α) : Prop := ∀ l, Json.EndsAsPassed (form.fromText l)

theorem endsAsPassed_readScalar (want : Value → Option α) :
    Json.EndsAsPassed (readScalar want) := by
  intro s a rest h
  unfold readScalar at h
  split at h
  · cases h
  · next c more hc =>
      split at h
      · cases h
      · next hopen =>
          obtain ⟨v, hread, -⟩ := exists_of_accept h
          exact passes_scalar hc (Option.not_isSome_iff_eq_none.1 hopen) (skipScalar_of_scalar hread)

theorem endsAsPassed_text : text.EndsAsPassed := fun _ => endsAsPassed_readScalar _

theorem endsAsPassed_null : null.EndsAsPassed := fun _ => endsAsPassed_readScalar _

theorem endsAsPassed_integer (least greatest : Int) : (integer least greatest).EndsAsPassed :=
  fun _ => endsAsPassed_readScalar _

theorem EndsAsPassed.restrict {form : Form α} (h : form.EndsAsPassed) (read : α → Option β)
    (show' : β → α) : (form.restrict read show').EndsAsPassed := by
  intro l s b rest hread
  obtain ⟨a, hstep, -⟩ := exists_of_accept hread
  exact h l hstep

theorem EndsAsPassed.optional {form : Form α} (h : form.EndsAsPassed) :
    form.optional.EndsAsPassed := by
  intro l s value rest hread
  apply Passes.of_skipBlanks
  simp only [Form.optional] at hread
  split at hread
  · next more hnull =>
      obtain ⟨after, hletters, heq⟩ := exists_of_map hread
      obtain ⟨-, rfl⟩ := Prod.mk.inj heq
      rw [hnull]
      exact passes_scalar (skipBlanks_cons rfl more) rfl hletters
  · exact (h l).map some hread

/-- What is read behind an opening bracket. -/
theorem passes_enter {l : Limits} {b : Bracket} {read : Limits → Step α} {s rest more : Bytes}
    {c : UInt8} {a : α} (hc : skipBlanks s = c :: more) (hopen : Bracket.ofOpen? c = some b)
    (hread : ∀ inner, read inner = .ok (a, rest) → PassesIn b more rest)
    (h : l.enter.bind read = .ok (a, rest)) : Passes s rest := by
  obtain ⟨inner, -, hinner⟩ := exists_of_bind h
  exact passes_bracket hc hopen (hread inner hinner)

theorem EndsAsPassed.map {form : Form α} (h : form.EndsAsPassed) : form.map.EndsAsPassed := by
  intro l s entries rest hread
  simp only [Form.map] at hread
  split at hread
  · cases hread
  · next c more hc =>
      split at hread
      · next hbrace =>
          subst hbrace
          refine passes_enter hc rfl (fun inner => ?_) hread
          exact passes_membersAfter fun entries name =>
            (h inner).afterColon.map fun a => Keyed.insert name a entries
      · cases hread

theorem exists_of_fromText_text {l : Limits} {s rest : Bytes} {k : String}
    (h : text.fromText l s = .ok (k, rest)) :
    ∃ more, skipBlanks s = 0x22 :: more ∧ readText more = .ok (k, rest) := by
  simp only [text, ofScalar, readScalar] at h
  split at h
  · cases h
  · next c more hc =>
      split at h
      · cases h
      · obtain ⟨v, hread, hv⟩ := exists_of_accept h
        obtain rfl : v = .text k := by
          cases v <;> cases hv
          rfl
        by_cases hquote : c = 0x22
        · subst hquote
          obtain ⟨t, ht, htext⟩ := exists_of_scalar_quote hread
          obtain rfl := Value.text.inj ht
          exact ⟨more, hc, htext⟩
        · exact absurd rfl (ne_text_of_scalar hquote hread k)

theorem passes_readNamedNull {table : List (String × α)} {s rest : Bytes} {a : α}
    (h : readNamedNull table s = .ok (a, rest)) : PassesIn .object s rest := by
  unfold readNamedNull at h
  split at h
  · cases h
  · next b mid hname =>
      obtain ⟨k, htext, -⟩ := exists_of_accept hname
      obtain ⟨more, hquote, hread⟩ := exists_of_fromText_text htext
      split at h
      · cases h
      · next after hnull =>
          obtain ⟨t, hcolon, hvalue⟩ := (endsAsPassed_null ⟨0, 0⟩).afterColon hnull
          split at h
          · cases h
          · next c last hc =>
              split at h
              · next hclose =>
                  obtain ⟨-, rfl⟩ := Prod.mk.inj (Except.ok.inj h)
                  subst hclose
                  have hskip : skipName .object (0x22 :: more) = .ok t :=
                    skipName_object (skipBlanks_cons rfl more) hread hcolon
                  exact .value hquote (by decide) hskip hvalue (passesOn_close hc)
              · cases h

theorem endsAsPassed_named (table : List (String × α)) (name : α → String) :
    (named table name).EndsAsPassed := by
  intro l s a rest hread
  simp only [named] at hread
  split at hread
  · cases hread
  · next c more hc =>
      split at hread
      · next hquote =>
          obtain ⟨t, htext, -⟩ := exists_of_accept hread
          subst hquote
          exact passes_scalar hc rfl (skipText_of_textAfter htext)
      · split at hread
        · next hbrace =>
            subst hbrace
            exact passes_enter hc rfl (fun _ => passes_readNamedNull) hread
        · cases hread

end Form

namespace Fields

/-- What the form of each field reads ends where passing over it does. -/
def EndAsPassed : {types : List Type} → Fields types → Prop
  | _, .nil => True
  | _, .cons field rest => field.form.EndsAsPassed ∧ EndAsPassed rest

theorem endsMember_readMember {l : Limits} {name : String} {types : List Type}
    {fields : Fields types} (h : fields.EndAsPassed) {slots now : Slots types} {s rest : Bytes}
    (hread : readMember l s name fields slots = some (.ok (now, rest))) :
    ∃ t, colon s = .ok t ∧ Passes t rest := by
  induction fields with
  | nil => cases hread
  | cons field more ih =>
      rw [readMember] at hread
      split at hread
      · split at hread
        · cases hread
        · exact (h.1 l).afterColon.map (fun a => (some a, slots.2)) (Option.some.inj hread)
      · obtain ⟨step, hstep, heq⟩ := Option.map_eq_some_iff.1 hread
        obtain ⟨p, rfl, hp⟩ := exists_of_map heq
        obtain ⟨-, rfl⟩ := Prod.mk.inj hp
        exact ih h.2 hstep

/-- Reads a member, be it a field or not. -/
def readAny {types : List Type} (fields : Fields types) (l : Limits) (slots : Slots types)
    (name : String) (s : Bytes) : Step (Slots types) :=
  match readMember l s name fields slots with
  | some step => step
  | none => (afterColon (fun t => (skipValue l.steps t).map ((), ·)) s).map fun p => (slots, p.2)

theorem readObject_eq {types : List Type} (fields : Fields types) (l : Limits) (s : Bytes) :
    fields.readObject l s =
      Form.accept fields.fill (membersAfter (fields.readAny l) l.steps true fields.vacant s) := rfl

theorem endsMember_readAny {types : List Type} {fields : Fields types} (h : fields.EndAsPassed)
    (l : Limits) (slots : Slots types) (name : String) :
    EndsMember (fields.readAny l slots name) := by
  intro s now rest hread
  unfold readAny at hread
  split at hread
  · next step hstep =>
      subst hread
      exact endsMember_readMember h hstep
  · exact (endsAsPassed_skipValue l.steps).afterColon.map (fun _ => slots) hread

theorem passes_readObject {types : List Type} {fields : Fields types} (h : fields.EndAsPassed)
    {l : Limits} {s rest : Bytes} {row : Row types}
    (hread : fields.readObject l s = .ok (row, rest)) : PassesIn .object s rest := by
  rw [readObject_eq] at hread
  obtain ⟨slots, hmembers, -⟩ := exists_of_accept hread
  exact passes_membersAfter (endsMember_readAny h l) hmembers

theorem passes_readArray {types : List Type} {fields : Fields types} (h : fields.EndAsPassed)
    {l : Limits} {first : Bool} {s rest : Bytes} {row : Row types}
    (hread : readArray l fields first s = .ok (row, rest)) : PassesRest .array first s rest := by
  induction fields generalizing first s with
  | nil =>
      obtain ⟨after, hclose, heq⟩ := exists_of_map hread
      obtain ⟨-, rfl⟩ := Prod.mk.inj heq
      unfold closeArray at hclose
      split at hclose
      · cases hclose
      · next c more hc =>
          split at hclose
          · next hbracket =>
              subst hbracket
              obtain rfl := Except.ok.inj hclose
              exact passesRest_close hc
          · cases hclose
  | cons field more ih =>
      rw [readArray] at hread
      split at hread
      · cases hread
      · next after hnext =>
          split at hread
          · obtain ⟨-, rfl⟩ := Prod.mk.inj (Except.ok.inj hread)
            exact passesRest_close (close_of_nextItem hnext)
          · cases hread
      · next at' hnext =>
          split at hread
          · cases hread
          · next a after hvalue =>
              obtain ⟨p, hmore, heq⟩ := exists_of_map hread
              obtain ⟨-, rfl⟩ := Prod.mk.inj heq
              exact passesRest_item hnext (h.1 l hvalue) (ih h.2 hmore)

end Fields

/-- A record ends where passing over it does, be it an object or an array. -/
theorem Form.endsAsPassed_record {α : Type} {types : List Type} {fields : Fields types}
    (h : fields.EndAsPassed) (make : Row types → α) (row : α → Row types) :
    (record fields make row).EndsAsPassed := by
  intro l s a rest hread
  simp only [record] at hread
  split at hread
  · cases hread
  · next c more hc =>
      split at hread
      · next hbracket =>
          subst hbracket
          refine passes_enter hc rfl (fun inner hinner => ?_) hread
          obtain ⟨p, harray, heq⟩ := exists_of_map hinner
          obtain ⟨-, rfl⟩ := Prod.mk.inj heq
          exact Fields.passes_readArray h harray
      · split at hread
        · next hbrace =>
            subst hbrace
            refine passes_enter hc rfl (fun inner hinner => ?_) hread
            obtain ⟨p, hobject, heq⟩ := exists_of_map hinner
            obtain ⟨-, rfl⟩ := Prod.mk.inj heq
            exact Fields.passes_readObject h hobject
        · cases hread

end TopicWatch.Json
