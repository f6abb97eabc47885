import TopicWatch.Proofs.Bridge.Presentation

/-!
# Refused requests

A request that has its method or its body twice is refused, wherever the second one stands, and so
is one that lacks its method, its body or a field of its record.
-/

namespace TopicWatch.Bridge

open Json Record

/-- The texts that lack a field of the record of a method, or have one twice. -/
def Method.BodyFaulty : Method → Bytes → Prop
  | healthCheck, _ => False
  | published, t => Published.fields.Faulty t
  | consumed, t => Consumed.fields.Faulty t
  | committed, t => Committed.fields.Faulty t
  | acknowledged, t => Acknowledged.fields.Faulty t

namespace Request

/-- The members of an object from which no request is made: the method or the body stands there
twice, the method is missing, or the body of the method is missing or faulty. -/
inductive Unfit (ms : List Member) : Prop
  | twice {name : String} (hname : name = methodTag ∨ name = bodyTag)
      (h : 2 ≤ (ms.map Member.name).count name) : Unfit ms
  | methodless (h : methodTag ∉ ms.map Member.name) : Unfit ms
  | bodyless {method : Method} (hne : method ≠ .healthCheck)
      (hmethod : ∀ m ∈ ms, m.name = methodTag → SpellsText method.name m.value.text)
      (h : bodyTag ∉ ms.map Member.name) : Unfit ms
  | record {method : Method}
      (hmethod : ∀ m ∈ ms, m.name = methodTag → SpellsText method.name m.value.text)
      (hmem : bodyTag ∈ ms.map Member.name)
      (h : ∀ b ∈ ms, b.name = bodyTag → method.BodyFaulty b.value.text) : Unfit ms

/-- The texts of objects from which no request is made, whatever the values of their members are. -/
inductive Faulty : Bytes → Prop
  | object {before blanks after : Bytes} {ms : List Member} (h : Unfit ms)
      (hms : ∀ m ∈ ms, Wellformed m.value.text) (hbefore : Blanks before) (hblanks : Blanks blanks)
      (hafter : Blanks after) :
      Faulty (before ++ (enclosed .object (ms.map Member.bytes) blanks ++ after))

/-! ## What a member does -/

/-- What a member that is read does to what was read before. -/
inductive Reads (l : Limits) (s rest : Bytes) : Partial → String → Partial → Prop
  | method {method : Method} (h : afterColon (Method.form.fromText l) s = .ok (method, rest)) :
      Reads l s rest .nothing methodTag (.method method)
  | methodLate {method : Method} {v : Value} {r : Request}
      (h : afterColon (Method.form.fromText l) s = .ok (method, rest))
      (hr : ofBody? method v = some r) : Reads l s rest (.body v) methodTag (.whole r)
  | body {method : Method} {r : Request} (h : afterColon (readBody l method) s = .ok (r, rest)) :
      Reads l s rest (.method method) bodyTag (.whole r)
  | bodyFirst {v : Value} (h : afterColon (readValue l.steps l.opens) s = .ok (v, rest)) :
      Reads l s rest .nothing bodyTag (.body v)
  | other {found : Partial} {name : String} (hname : ¬(name = methodTag ∨ name = bodyTag))
      (h : afterColon (fun t => (skipValue l.steps t).map ((), ·)) s = .ok ((), rest)) :
      Reads l s rest found name found

variable {l : Limits} {found next last : Partial} {name : String} {s rest : Bytes}
  {ms : List Member}

theorem reads_of_readMember (h : readMember l found name s = .ok (next, rest)) :
    Reads l s rest found name next := by
  by_cases hname : name = methodTag ∨ name = bodyTag
  · obtain rfl | rfl := hname
    · cases found with
      | nothing =>
          rw [readMember_nothing] at h
          obtain ⟨p, hread, heq⟩ := exists_of_map h
          obtain ⟨rfl, rfl⟩ := Prod.mk.inj heq
          exact .method hread
      | body v =>
          rw [readMember_method_late] at h
          obtain ⟨method, hread, hmade⟩ := exists_of_accept h
          obtain ⟨r, hr, rfl⟩ := Option.map_eq_some_iff.1 hmade
          exact .methodLate hread hr
      | method _ | whole _ => cases h
    · cases found with
      | nothing =>
          rw [readMember_body_first] at h
          obtain ⟨p, hread, heq⟩ := exists_of_map h
          obtain ⟨rfl, rfl⟩ := Prod.mk.inj heq
          exact .bodyFirst hread
      | method method =>
          rw [readMember_body] at h
          obtain ⟨p, hread, heq⟩ := exists_of_map h
          obtain ⟨rfl, rfl⟩ := Prod.mk.inj heq
          exact .body hread
      | body _ | whole _ => cases h
  · rw [readMember_other hname] at h
    obtain ⟨p, hread, heq⟩ := exists_of_map h
    obtain ⟨rfl, rfl⟩ := Prod.mk.inj heq
    exact .other hname hread

theorem ends_readBody (l : Limits) (method : Method) : EndsAsPassed (readBody l method) := by
  cases method with
  | healthCheck => exact (Form.endsAsPassed_null l).map fun _ => healthCheck
  | published =>
      exact (Form.endsAsPassed_record Published.legible_fields.ends _ _ l).map published
  | consumed => exact (Form.endsAsPassed_record Consumed.legible_fields.ends _ _ l).map consumed
  | committed => exact (Form.endsAsPassed_record Committed.legible_fields.ends _ _ l).map committed
  | acknowledged =>
      exact (Form.endsAsPassed_record Acknowledged.legible_fields.ends _ _ l).map acknowledged

theorem endsMember_readMember (l : Limits) (found : Partial) (name : String) :
    EndsMember (readMember l found name) := by
  intro s next rest hread
  have hmethod : EndsAsPassed (Method.form.fromText l) := Form.endsAsPassed_named _ _ l
  cases reads_of_readMember hread with
  | method h | methodLate h => exact hmethod.afterColon h
  | body h => exact (ends_readBody l _).afterColon h
  | bodyFirst h => exact (endsAsPassed_readValue l.steps l.opens).afterColon h
  | other _ h => exact (endsAsPassed_skipValue l.steps).afterColon h

/-! ## Counting members -/

/-- Whether the method or the body was read. -/
def Partial.has (name : String) : Partial → Bool
  | nothing => false
  | method _ => name = methodTag
  | body _ => name = bodyTag
  | whole _ => name = methodTag ∨ name = bodyTag

/-- The method and the body count as read once they were met, and neither is read again. -/
theorem has_of_reads (h : Reads l s rest found name next) {other : String}
    (hother : other = methodTag ∨ other = bodyTag) :
    (next.has other).toNat = (found.has other).toNat + [name].count other := by
  cases h with
  | other hname _ =>
      have hne : name ≠ other := by
        rintro rfl
        exact hname hother
      rw [List.count_eq_zero.2 (by simpa using Ne.symm hne), Nat.add_zero]
  | _ => obtain rfl | rfl := hother <;> rfl

theorem has_method_of_ofPartial? {r : Request} (h : ofPartial? last = some r) :
    last.has methodTag = true := by
  cases last with
  | method _ => rfl
  | whole _ => rfl
  | nothing | body _ => cases h

/-! ## Faulty bodies -/

variable {method : Method}

/-- No request was made so far, and none can be made of a body that is faulty for the method. -/
def Partial.Unmade (method : Method) : Partial → Prop
  | nothing => True
  | .method m => m = method
  | body v => ofBody? method v = none
  | whole _ => False

theorem refuses_body {p : Padded} (h : method.BodyFaulty p.text) {behind : Bytes}
    {read : Request × Bytes} : readBody l method (p.bytes ++ behind) ≠ .ok read := by
  intro hread
  cases method with
  | healthCheck => exact h
  | published =>
      obtain ⟨_, hform, -⟩ := exists_of_map hread
      exact Form.refuses_faulty Published.legible_fields h hform
  | consumed =>
      obtain ⟨_, hform, -⟩ := exists_of_map hread
      exact Form.refuses_faulty Consumed.legible_fields h hform
  | committed =>
      obtain ⟨_, hform, -⟩ := exists_of_map hread
      exact Form.refuses_faulty Committed.legible_fields h hform
  | acknowledged =>
      obtain ⟨_, hform, -⟩ := exists_of_map hread
      exact Form.refuses_faulty Acknowledged.legible_fields h hform

/-- A member makes no request if it is the method, or a body that is faulty for the method. -/
theorem unmade_of_advanced {m : Member}
    (hmethod : m.name = methodTag → SpellsText method.name m.value.text)
    (hbody : m.name = bodyTag → method.BodyFaulty m.value.text)
    (h : Advanced (readMember l) l.steps found m next) (hfound : found.Unmade method) :
    next.Unmade method := by
  obtain ⟨behind, _, hroom, hread⟩ := h
  have hreads := reads_of_readMember hread
  generalize hname : m.name = name at hreads hmethod hbody
  cases hreads with
  | method h =>
      rw [afterColon_method (hmethod rfl)] at h
      exact (Prod.mk.inj (Except.ok.inj h)).1.symm
  | methodLate h hr =>
      rw [afterColon_method (hmethod rfl)] at h
      obtain rfl := (Prod.mk.inj (Except.ok.inj h)).1
      rw [show ofBody? method _ = none from hfound] at hr
      cases hr
  | body h =>
      obtain rfl := hfound
      rw [afterColon, m.colon_afterName] at h
      exact absurd h (refuses_body (hbody rfl))
  | bodyFirst h =>
      rw [afterColon, m.colon_afterName] at h
      have hvalue : (m.value.bytes ++ behind).length ≤ l.steps := by
        rw [Member.length_afterName] at hroom
        rw [List.length_append]
        omega
      have hsame := toOption_readBody hvalue h method
      cases hmade : ofBody? method _ with
      | none => exact hmade
      | some r =>
          rw [hmade] at hsame
          exact absurd (ok_iff_toOption.2 hsame) (refuses_body (hbody rfl))
  | other _ _ => exact hfound

theorem ofPartial?_unmade (hne : method ≠ .healthCheck) (h : last.Unmade method) :
    ofPartial? last = none := by
  cases last with
  | nothing | body _ => rfl
  | method m =>
      obtain rfl := h
      cases m with
      | healthCheck => exact absurd rfl hne
      | _ => rfl
  | whole _ => exact h.elim

/-! ## Whole requests -/

/-- No request is made of unfit members. -/
theorem ofPartial?_unfit (h : Unfit ms)
    (hchain : Chain (Advanced (readMember l) l.steps) .nothing ms last) : ofPartial? last = none := by
  have hcount : ∀ name, name = methodTag ∨ name = bodyTag →
      (last.has name).toNat = (ms.map Member.name).count name := by
    intro name hname
    have hall := hchain.count (fun found => (found.has name).toNat) name
      fun {_ _ _} ⟨_, _, _, hread⟩ => has_of_reads (reads_of_readMember hread) hname
    rwa [show Partial.has name .nothing = false from rfl, Bool.toNat_false, Nat.zero_add] at hall
  have hunmade : ∀ method : Method,
      (∀ m ∈ ms, m.name = methodTag → SpellsText method.name m.value.text) →
      (∀ b ∈ ms, b.name = bodyTag → method.BodyFaulty b.value.text) → last.Unmade method :=
    fun method hmethod hbody => hchain.invariant
      (fun m hm => unmade_of_advanced (hmethod m hm) (hbody m hm)) trivial
  cases h with
  | @twice name hname h =>
      have hfew : (last.has name).toNat ≤ 1 := Bool.toNat_le _
      rw [hcount name hname] at hfew
      omega
  | methodless h =>
      by_contra hsome
      obtain ⟨r, hr⟩ := Option.ne_none_iff_exists'.1 hsome
      have hone := hcount methodTag (.inl rfl)
      rw [has_method_of_ofPartial? hr] at hone
      exact h (List.count_pos_iff.1 (hone ▸ Nat.one_pos))
  | bodyless hne hmethod h =>
      refine ofPartial?_unmade hne (hunmade _ hmethod fun b hb hname => ?_)
      exact absurd (hname ▸ List.mem_map_of_mem hb) h
  | record hmethod hmem h =>
      refine ofPartial?_unmade ?_ (hunmade _ hmethod h)
      rintro rfl
      obtain ⟨b, hb, hname⟩ := List.mem_map.1 hmem
      exact h b hb hname

/-- A faulty text is decoded as no request. -/
theorem decode_faulty (h : Faulty s) : ∃ f, decode s = .error f := by
  cases hdecode : decode s with
  | error f => exact ⟨f, rfl⟩
  | ok r =>
      cases h with
      | @object before blanks after ms h hms hbefore hblanks hafter =>
          obtain ⟨steps, hsteps, heq⟩ := decode_enclosed hbefore (ms.map Member.bytes) blanks after
          rw [heq, complete_eq_ok_iff] at hdecode
          obtain ⟨rest, haccept, -⟩ := hdecode
          obtain ⟨last, hmembers, hlast⟩ := exists_of_accept haccept
          have hlength := (length_le_enclosed .object (ms.map Member.bytes) blanks after).2
          obtain ⟨-, hchain⟩ := chain_of_membersAfter
            (endsMember_readMember ⟨greatestDepth - 1, steps⟩) (fun m hm => (hms m hm).stands)
            blank_nil hblanks (Nat.le_trans hlength (Nat.le_of_lt hsteps)) hmembers
          rw [ofPartial?_unfit (l := ⟨greatestDepth - 1, steps⟩) h hchain] at hlast
          cases hlast

/-- Decoding ignores how a request is presented. What is written for a request is one of its
presentations, and each of them is decoded as the request: its record may be an object with its
fields in any order, among others of unknown names, and without those that have their defaults, or
an array; members of unknown names may stand beside the method and the body, with any values; blanks
may stand between the tokens, and characters may be escaped. Whatever has a field or a member of the
request twice, or lacks one that has no default, is decoded as no request. -/
theorem decode_ignores_presentation (r : Request) :
    r.Presented r.encode ∧ (∀ s, r.Presented s → decode s = .ok r) ∧
      ∀ s, Faulty s → ∃ f, decode s = .error f :=
  ⟨r.presented_encode, fun _ => decode_presented, fun _ => decode_faulty⟩

/-- A method with a letter of its name escaped, and with blanks around its value. -/
def escapedMethod : Member where
  name := methodTag
  title := .bare (0x22 :: ([0x5C, 0x75, 0x30, 0x30, 0x36, 0x64] ++
    "ethod".toList.flatMap escape ++ [0x22]))
  value := ⟨[0x20], writeText Method.acknowledged.name, [0x0A], by decide, by decide⟩
  spells := ⟨_, .cons (.unit (by decide)) (spells_escapes _), rfl⟩

/-- The fields of a message that was dealt with, out of order and with one of an unknown name. -/
def mixedFields : List (String × Value) :=
  [("topic", .text "t"), ("new", .array [.null]), ("message", .text "aGk="), ("id", .text "a")]

/-- A body with mixed fields and a blank before its end. -/
def mixedMember : Member where
  name := bodyTag
  title := .bare (writeText bodyTag)
  value := .bare (enclosed .object ((mixedFields.map Member.written).map Member.bytes) [0x09])
  spells := spells_writeText _

theorem plain_mixedFields : ∀ m ∈ mixedFields, m.2.Plain 1 := by
  have hnew : (Value.array [.null]).Plain 1 := .array (List.forall_mem_singleton.2 (.scalar .null))
  exact List.forall_mem_cons.2 ⟨.scalar (.text "t"), List.forall_mem_cons.2 ⟨hnew,
    List.forall_mem_cons.2 ⟨.scalar (.text "aGk="),
      List.forall_mem_singleton.2 (.scalar (.text "a"))⟩⟩⟩

theorem presents_mixedFields :
    Acknowledged.fields.Presents (Acknowledged.row ⟨"a", "t", [0x68, 0x69]⟩)
      (mixedFields.map Member.written) where
  known := by
    refine List.forall_mem_map.2 fun m hm hname => ⟨m.2, ?_, (plain_mixedFields m hm).lays⟩
    simp only [mixedFields, List.mem_cons, List.not_mem_nil, or_false] at hm
    obtain rfl | rfl | rfl | rfl := hm
    · exact .tail _ (.head _)
    · exact absurd hname (by decide)
    · exact .tail _ (.tail _ (.head _))
    · exact .head _
  other := List.forall_mem_map.2 fun m hm _ => (plain_mixedFields m hm).lays.wellformed
  once := by decide
  omits := Fields.omits_of_subset (by decide)

/-- A request with an escaped method, mixed fields, and blanks. -/
def mixedText : Bytes :=
  Utf8.encode ("\x7b\"\\u006dethod\": \"on_acknowledged\"\n,\"body\":\x7b\"topic\":\"t\"," ++
    "\"new\":[null],\"message\":\"aGk=\",\"id\":\"a\"\t\x7d\x7d")

/-- The members of a request that has the id of its record twice. -/
def repeatedId : List (String × Value) :=
  [(methodTag, .text Method.acknowledged.name),
    (bodyTag, .object (("id", .text "b") :: mixedFields))]

theorem plain_repeatedId : ∀ m ∈ repeatedId, m.2.Plain 2 := by
  have hfields : ∀ m ∈ ("id", Value.text "b") :: mixedFields, m.2.Plain 1 :=
    List.forall_mem_cons.2 ⟨.scalar (.text "b"), plain_mixedFields⟩
  exact List.forall_mem_cons.2 ⟨.scalar (.text _), List.forall_mem_singleton.2 (.object hfields)⟩

theorem unfit_repeatedId : Unfit (repeatedId.map Member.written) := by
  have hid : "id" ∈ Acknowledged.fields.names := by decide
  have hfields : ∀ m ∈ ("id", Value.text "b") :: mixedFields, Wellformed m.2.write :=
    List.forall_mem_cons.2 ⟨wellformed_scalar (.text "b"), fun m hm =>
      (plain_mixedFields m hm).lays.wellformed⟩
  have hbody : Method.acknowledged.BodyFaulty
      (Value.object (("id", .text "b") :: mixedFields)).write := by
    rw [write_object_enclosed]
    exact .twice (List.forall_mem_map.2 hfields) hid (by decide) (by decide)
  have hbodies : ∀ b ∈ repeatedId.map Member.written, b.name = bodyTag →
      Method.acknowledged.BodyFaulty b.value.text :=
    List.forall_mem_cons.2 ⟨fun h => absurd h (by decide),
      List.forall_mem_singleton.2 fun _ => hbody⟩
  refine .record ?_ (by decide) hbodies
  exact List.forall_mem_cons.2 ⟨fun _ => spells_writeText _,
    List.forall_mem_singleton.2 fun h => absurd h (by decide)⟩

/-- A request of mixed fields behind an escaped method is decoded, and one with two ids is not. -/
theorem decode_ignores_presentation_mixed :
    decode mixedText = .ok (.acknowledged ⟨"a", "t", [0x68, 0x69]⟩) ∧
      ∃ f, decode (Value.object repeatedId).write = .error f := by
  obtain ⟨-, hread, hrefused⟩ :=
    decode_ignores_presentation (.acknowledged ⟨"a", "t", [0x68, 0x69]⟩)
  refine ⟨hread _ ?_, hrefused _ ?_⟩
  · have htext : mixedText =
        [] ++ (enclosed .object ([escapedMethod, mixedMember].map Member.bytes) [] ++ []) := by
      decide
    have htold : Told (.acknowledged ⟨"a", "t", [0x68, 0x69]⟩) [escapedMethod, mixedMember] :=
      .methodFirst rfl (spells_writeText _) rfl (.object presents_mixedFields (by decide))
    rw [htext]
    refine .object ⟨htold, ?_⟩ (by decide) (by decide) (by decide)
    exact List.forall_mem_cons.2 ⟨fun h => absurd (.inl rfl) h,
      List.forall_mem_singleton.2 fun h => absurd (.inr rfl) h⟩
  · have htext : (Value.object repeatedId).write = [] ++ (enclosed .object
        ((repeatedId.map Member.written).map Member.bytes) [] ++ []) := by
      rw [write_object_enclosed, List.append_nil, List.nil_append]
    rw [htext]
    exact .object unfit_repeatedId
      (List.forall_mem_map.2 fun m hm => (plain_repeatedId m hm).lays.wellformed)
      (by decide) (by decide) (by decide)

end Request

end TopicWatch.Bridge
