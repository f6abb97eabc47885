import TopicWatch.Proofs.Bridge.Buffered
import TopicWatch.Proofs.Bridge.Request
import TopicWatch.Proofs.Record.Presentation

/-!
# Presentations of requests

A request is decoded from each of its presentations: with its record in any of the presentations
of the record, and with members of other names around the method and the body.
-/

namespace TopicWatch.Json

/-- What leaves the state as it is may be left out of a run. -/
theorem Chain.of_filter {σ α : Type} {step : σ → α → σ → Prop} {p : α → Bool} {s s' : σ}
    {as : List α} (hkeep : ∀ a ∈ as, p a = false → ∀ s, step s a s)
    (h : Chain step s (as.filter p) s') : Chain step s as s' := by
  induction as generalizing s with
  | nil => exact h
  | cons a as ih =>
      obtain ⟨hfirst, hmore⟩ := List.forall_mem_cons.1 hkeep
      cases hp : p a with
      | false =>
          rw [List.filter_cons_of_neg (by simp [hp])] at h
          exact .cons (hfirst hp s) (ih hmore h)
      | true =>
          rw [List.filter_cons_of_pos hp] at h
          cases h with
          | cons head tail => exact .cons head (ih hmore tail)

end TopicWatch.Json

namespace TopicWatch.Bridge

open Json Record

namespace Request

/-! ## Presentations -/

/-- The texts that present the record of a request. -/
def BodyPresented : Request → Bytes → Prop
  | healthCheck, _ => False
  | published m, t => Published.fields.Presented m.row t
  | consumed m, t => Consumed.fields.Presented m.row t
  | committed m, t => Committed.fields.Presented m.row t
  | acknowledged m, t => Acknowledged.fields.Presented m.row t

/-- The members that tell a request: the method alone for a health check, or else the method and the
body. Where the body comes first it has to be a text that can be buffered. -/
inductive Told (r : Request) : List Member → Prop
  | alone {m : Member} (hr : r = healthCheck) (hname : m.name = methodTag)
      (hspells : SpellsText r.method.name m.value.text) : Told r [m]
  | methodFirst {m b : Member} (hname : m.name = methodTag)
      (hspells : SpellsText r.method.name m.value.text) (hbody : b.name = bodyTag)
      (h : r.BodyPresented b.value.text) : Told r [m, b]
  | bodyFirst {m b : Member} {v : Value} (hbody : b.name = bodyTag)
      (h : r.BodyPresented b.value.text) (hv : Spells (greatestDepth - 1) b.value.text v)
      (hname : m.name = methodTag) (hspells : SpellsText r.method.name m.value.text) : Told r [b, m]

/-- The members of an object that present a request. -/
structure Presents (r : Request) (ms : List Member) : Prop where
  told : r.Told (ms.filter fun m => m.name = methodTag ∨ m.name = bodyTag)
  other : ∀ m ∈ ms, ¬(m.name = methodTag ∨ m.name = bodyTag) → Wellformed m.value.text

/-- The texts that present a request. -/
inductive Presented (r : Request) : Bytes → Prop
  | object {before blanks after : Bytes} {ms : List Member} (h : r.Presents ms)
      (hbefore : Blanks before) (hblanks : Blanks blanks) (hafter : Blanks after) :
      Presented r (before ++ (enclosed .object (ms.map Member.bytes) blanks ++ after))

theorem BodyPresented.begins {r : Request} {t : Bytes} (h : r.BodyPresented t) : Begins t := by
  cases r with
  | healthCheck => exact h.elim
  | _ => exact Fields.Presented.begins h

/-- What is written for the record of a request is one of its presentations. -/
theorem bodyPresented_write {r : Request} {body : Value} (h : r.body? = some body) :
    r.BodyPresented body.write := by
  cases r with
  | healthCheck => cases h
  | published m =>
      obtain rfl := Option.some.inj h
      exact Fields.presented_write Published.legible_fields m.row
  | consumed m =>
      obtain rfl := Option.some.inj h
      exact Fields.presented_write Consumed.legible_fields m.row
  | committed m =>
      obtain rfl := Option.some.inj h
      exact Fields.presented_write Committed.legible_fields m.row
  | acknowledged m =>
      obtain rfl := Option.some.inj h
      exact Fields.presented_write Acknowledged.legible_fields m.row

/-- What is written for a request is one of its presentations. -/
theorem presented_encode (r : Request) : r.Presented r.encode := by
  have hmethod : SpellsText r.method.name
      (Member.written (methodTag, .text r.method.name)).value.text :=
    spells_writeText _
  have hpresents : r.Presents
      (((methodTag, .text r.method.name) :: r.bodyMembers).map Member.written) := by
    cases hbody : r.body? with
    | none =>
        have hr : r = healthCheck := by
          cases r <;> first | rfl | cases hbody
        rw [bodyMembers, hbody]
        exact ⟨.alone hr rfl hmethod, List.forall_mem_singleton.2 fun h => absurd (.inl rfl) h⟩
    | some body =>
        rw [bodyMembers, hbody]
        refine ⟨.methodFirst rfl hmethod rfl (bodyPresented_write hbody), List.forall_mem_cons.2
          ⟨fun h => absurd (.inl rfl) h, List.forall_mem_singleton.2 fun h => absurd (.inr rfl) h⟩⟩
  have hwhole := Presented.object hpresents (List.forall_mem_nil _) (List.forall_mem_nil _)
    (List.forall_mem_nil _)
  rw [List.nil_append, List.append_nil, ← write_object_enclosed] at hwhole
  exact hwhole

/-! ## Members -/

variable {l : Limits} {r : Request} {m b : Member}

theorem afterColon_method {method : Method} (h : SpellsText method.name m.value.text) (l : Limits)
    (behind : Bytes) : afterColon (Method.form.fromText l) (m.afterName behind) =
      .ok (method, m.value.after ++ behind) := by
  have hfind : Form.lookUp Method.table method.name = some method := by
    cases method <;> decide
  rw [afterColon, m.colon_afterName]
  exact Form.fromText_named hfind h l behind

theorem readBody_presented {p : Padded} (h : r.BodyPresented p.text) (hopens : 2 ≤ l.opens)
    {behind : Bytes} (hroom : (p.bytes ++ behind).length ≤ l.steps) :
    readBody l r.method (p.bytes ++ behind) = .ok (r, p.after ++ behind) := by
  cases r with
  | healthCheck => exact h.elim
  | published m =>
      have hread : Published.form.fromText l (p.bytes ++ behind) = .ok (m, p.after ++ behind) :=
        Form.fromText_presented Published.legible_fields (fun _ => rfl) h hopens hroom
      exact congrArg (Except.map fun p => (published p.1, p.2)) hread
  | consumed m =>
      have hread : Consumed.form.fromText l (p.bytes ++ behind) = .ok (m, p.after ++ behind) :=
        Form.fromText_presented Consumed.legible_fields (fun _ => rfl) h hopens hroom
      exact congrArg (Except.map fun p => (consumed p.1, p.2)) hread
  | committed m =>
      have hread : Committed.form.fromText l (p.bytes ++ behind) = .ok (m, p.after ++ behind) :=
        Form.fromText_presented Committed.legible_fields (fun _ => rfl) h hopens hroom
      exact congrArg (Except.map fun p => (committed p.1, p.2)) hread
  | acknowledged m =>
      have hread : Acknowledged.form.fromText l (p.bytes ++ behind) = .ok (m, p.after ++ behind) :=
        Form.fromText_presented Acknowledged.legible_fields (fun _ => rfl) h hopens hroom
      exact congrArg (Except.map fun p => (acknowledged p.1, p.2)) hread

theorem advances_other (hname : ¬(m.name = methodTag ∨ m.name = bodyTag))
    (h : Wellformed m.value.text) (found : Partial) :
    Advances (readMember l) l.steps found m found := by
  intro behind hbehind hroom
  rw [readMember_other hname]
  simp only [Member.skip h hbehind hroom]
  rfl

theorem advances_method (hname : m.name = methodTag) (h : SpellsText r.method.name m.value.text) :
    Advances (readMember l) l.steps .nothing m (.method r.method) := by
  intro behind _ _
  rw [hname, readMember_nothing]
  simp only [afterColon_method h]
  rfl

theorem advances_body (hname : b.name = bodyTag) (h : r.BodyPresented b.value.text)
    (hopens : 2 ≤ l.opens) :
    Advances (readMember l) l.steps (.method r.method) b (.whole r) := by
  intro behind _ hroom
  have hvalue : (b.value.bytes ++ behind).length ≤ l.steps := by
    rw [Member.length_afterName] at hroom
    rw [List.length_append]
    omega
  rw [hname, readMember_body]
  simp only [afterColon, b.colon_afterName, readBody_presented h hopens hvalue]
  rfl

/-- A body that comes first is buffered as the value that its text denotes, and its request can be
taken from the value. -/
theorem buffered_presented {p : Padded} (h : r.BodyPresented p.text) {v : Value}
    (hv : Spells l.opens p.text v) (hopens : 2 ≤ l.opens) {behind : Bytes}
    (hbehind : EndsNumber behind) (hroom : (p.bytes ++ behind).length < l.steps) :
    readValue l.steps l.opens (p.bytes ++ behind) = .ok (v, p.after ++ behind) ∧
      ofBody? r.method v = some r := by
  have hlength : p.text.length < l.steps := by
    rw [List.length_append, Padded.length_bytes] at hroom
    omega
  have hread : ∃ blanks, readValue l.steps l.opens (p.bytes ++ behind) =
      .ok (v, blanks ++ (p.after ++ behind)) := by
    obtain ⟨blanks, -, hread⟩ := hv.read hlength (p.after_blanks.endsNumber hbehind)
    rw [← readValue_skipBlanks, Padded.skipBlanks_bytes h.begins]
    exact ⟨blanks, hread⟩
  obtain ⟨blanks, hread⟩ := hread
  -- the record is read from the text that is buffered, and both end at one place
  have hbody := toOption_readBody (Nat.le_of_lt hroom) hread r.method
  rw [readBody_presented h hopens (Nat.le_of_lt hroom)] at hbody
  obtain ⟨r', hr, heq⟩ := Option.map_eq_some_iff.1 hbody.symm
  obtain ⟨rfl, hrest⟩ := Prod.mk.inj heq
  exact ⟨hrest ▸ hread, hr⟩

theorem advances_body_first (hname : b.name = bodyTag) (h : r.BodyPresented b.value.text)
    {v : Value} (hv : Spells l.opens b.value.text v) (hopens : 2 ≤ l.opens) :
    Advances (readMember l) l.steps .nothing b (.body v) := by
  intro behind hbehind hroom
  have hvalue : (b.value.bytes ++ behind).length < l.steps := by
    rw [Member.length_afterName] at hroom
    rw [List.length_append]
    omega
  rw [hname, readMember_body_first]
  simp only [afterColon, b.colon_afterName, (buffered_presented h hv hopens hbehind hvalue).1]
  rfl

theorem advances_method_late (hname : m.name = methodTag)
    (h : SpellsText r.method.name m.value.text) {v : Value} (hv : ofBody? r.method v = some r) :
    Advances (readMember l) l.steps (.body v) m (.whole r) := by
  intro behind _ _
  rw [hname, readMember_method_late]
  simp only [afterColon_method h, Form.accept, hv, Option.map_some]

/-- The method and the body make the request, whichever comes first. -/
theorem chain_told {ms : List Member} (h : r.Told ms) (hl : l.opens = greatestDepth - 1) :
    ∃ last, Chain (Advances (readMember l) l.steps) .nothing ms last ∧ ofPartial? last = some r := by
  have hopens : 2 ≤ l.opens := by
    rw [hl]
    decide
  cases h with
  | alone hr hname hspells =>
      refine ⟨_, .cons (advances_method hname hspells) (.nil _), ?_⟩
      rw [hr]
      rfl
  | methodFirst hname hspells hbody h =>
      exact ⟨_, .cons (advances_method hname hspells)
        (.cons (advances_body hbody h hopens) (.nil _)), rfl⟩
  | @bodyFirst m b v hbody h hv hname hspells =>
      rw [← hl] at hv
      have hmade : ofBody? r.method v = some r :=
        (buffered_presented (l := ⟨l.opens, (b.value.bytes ++ []).length + 1⟩) h hv hopens
          endsNumber_nil (Nat.lt_succ_self _)).2
      exact ⟨_, .cons (advances_body_first hbody h hv hopens)
        (.cons (advances_method_late hname hspells hmade) (.nil _)), rfl⟩

/-- The members of a presentation are read one after the other, and those of other names are passed
over. -/
theorem chain_presents {ms : List Member} (h : r.Presents ms) (hl : l.opens = greatestDepth - 1) :
    ∃ last, Chain (Advances (readMember l) l.steps) .nothing ms last ∧ ofPartial? last = some r := by
  obtain ⟨last, hchain, hlast⟩ := chain_told h.told hl
  refine ⟨last, hchain.of_filter fun m hm hname found => ?_, hlast⟩
  have hother := of_decide_eq_false hname
  exact advances_other hother (h.other m hm hother) found

/-! ## Whole requests -/

/-- A text that is an object with blanks around it is decoded from its members. -/
theorem decode_enclosed {before : Bytes} (hbefore : Blanks before) (parts : List Bytes)
    (blanks after : Bytes) :
    ∃ steps, (enclosed .object parts blanks ++ after).length < steps ∧
      decode (before ++ (enclosed .object parts blanks ++ after)) =
        complete (Form.accept ofPartial? (membersAfter (readMember ⟨greatestDepth - 1, steps⟩) steps
          true .nothing (itemsSpelled true parts ++ (blanks ++ 0x7D :: after)))) := by
  refine ⟨(before ++ (enclosed .object parts blanks ++ after)).length + 1, ?_, ?_⟩
  · exact Nat.lt_succ_of_le (List.suffix_append before _).length_le
  · rw [decode, fromText, hbefore.blank, skipBlanks_enclosed]
    rfl

/-- A request is decoded from each of its presentations. -/
theorem decode_presented {s : Bytes} (h : r.Presented s) : decode s = .ok r := by
  cases h with
  | @object before blanks after ms h hbefore hblanks hafter =>
      obtain ⟨steps, hsteps, hdecode⟩ :=
        decode_enclosed hbefore (ms.map Member.bytes) blanks after
      obtain ⟨last, hchain, hlast⟩ := chain_presents (l := ⟨greatestDepth - 1, steps⟩) h rfl
      obtain ⟨hcount, hlength⟩ := length_le_enclosed .object (ms.map Member.bytes) blanks after
      rw [List.length_map] at hcount
      have hmembers := membersAfter_of_chain hchain
        (Nat.lt_of_lt_of_le hcount (Nat.le_of_lt hsteps)) true blank_nil hblanks after
        (Nat.le_trans hlength (Nat.le_of_lt hsteps))
      rw [List.nil_append] at hmembers
      rw [hdecode, hmembers, complete_eq_ok_iff, Form.accept, hlast]
      have hblank := hafter.blank []
      rw [List.append_nil] at hblank
      exact ⟨after, rfl, by rw [hblank]; rfl⟩

end Request

end TopicWatch.Bridge
