import TopicWatch.Bridge.Request
import TopicWatch.Proofs.Record.Buffered

/-!
# Bodies that come before their method

A body that comes before its method is buffered, and its record is taken from the buffered value
once the method is known. Where the text of a request can be buffered at all, that makes no
difference: the members of a request may stand in any order.
-/

namespace TopicWatch.Bridge

open Json Record

theorem Method.agrees_form : form.Agrees := Form.agrees_named _ _

namespace Request

/-- The body of a method is read from a text as it is taken from the buffered value. -/
theorem toOption_readBody {l : Limits} {s rest : Bytes} {v : Value} (hroom : s.length ≤ l.steps)
    (hread : readValue l.steps l.opens s = .ok (v, rest)) (m : Method) :
    (readBody l m s).toOption = (ofBody? m v).map (·, rest) := by
  cases m with
  | healthCheck => exact toOption_map (Form.agrees_null hroom hread) fun _ => healthCheck
  | published => exact toOption_map (Published.agrees_form hroom hread) published
  | consumed => exact toOption_map (Consumed.agrees_form hroom hread) consumed
  | committed => exact toOption_map (Committed.agrees_form hroom hread) committed
  | acknowledged => exact toOption_map (Acknowledged.agrees_form hroom hread) acknowledged

/-! ## Members -/

namespace Partial

/-- What was read together with a method; there may be one only. -/
def withMethod (m : Method) : Partial → Option Partial
  | nothing => some (method m)
  | body v => (ofBody? m v).map whole
  | _ => none

/-- What was read together with a buffered body; there may be one only. -/
def withBody (v : Value) : Partial → Option Partial
  | nothing => some (body v)
  | method m => (ofBody? m v).map whole
  | _ => none

theorem withMethod_withMethod (found : Partial) (m m' : Method) :
    (found.withMethod m).bind (withMethod m') = none := by
  cases found with
  | body v =>
      rw [withMethod, Option.bind_map]
      exact Option.bind_fun_none _
  | _ => rfl

theorem withBody_withBody (found : Partial) (v v' : Value) :
    (found.withBody v).bind (withBody v') = none := by
  cases found with
  | method m =>
      rw [withBody, Option.bind_map]
      exact Option.bind_fun_none _
  | _ => rfl

theorem withMethod_withBody (found : Partial) (m : Method) (v : Value) :
    (found.withMethod m).bind (withBody v) = (found.withBody v).bind (withMethod m) := by
  cases found with
  | body w =>
      rw [withMethod, Option.bind_map]
      exact Option.bind_fun_none _
  | method m' =>
      rw [withBody, Option.bind_map]
      exact (Option.bind_fun_none _).symm
  | _ => rfl

end Partial

/-- What a buffered member adds to what was read of a request. -/
def take (found : Partial) (m : String × Value) : Option Partial :=
  if m.1 = methodTag then (Method.form.fromValue m.2).bind fun method => found.withMethod method
  else if m.1 = bodyTag then found.withBody m.2
  else some found

/-- The request of buffered members. -/
def ofMembers? (ms : List (String × Value)) : Option Request :=
  (ms.foldlM take .nothing).bind ofPartial?

/-- A member is read from its text as it is taken when it was buffered. -/
theorem toOption_readMember {l : Limits} (found : Partial) {name : String} {s rest : Bytes}
    {v : Value} (hroom : s.length ≤ l.steps)
    (hread : afterColon (readValue l.steps l.opens) s = .ok (v, rest)) :
    (readMember l found name s).toOption = (take found (name, v)).map (·, rest) := by
  have hmethod := Method.agrees_form.afterColon hroom hread
  obtain ⟨t, hcolon, hvalue⟩ := colon_of_afterColon hread
  have hlength := length_of_colon hcolon
  unfold readMember take
  by_cases hname : name = methodTag
  · rw [if_pos hname, if_pos hname]
    cases found with
    | nothing =>
        refine (toOption_map hmethod Partial.method).trans ?_
        cases Method.form.fromValue v <;> rfl
    | body w => exact toOption_accept hmethod fun method => (ofBody? method w).map Partial.whole
    | method _ | whole _ => cases Method.form.fromValue v <;> rfl
  · rw [if_neg hname, if_neg hname]
    by_cases hbody : name = bodyTag
    · rw [if_pos hbody, if_pos hbody]
      cases found with
      | nothing =>
          rw [hread]
          rfl
      | method method =>
          have hmade : (afterColon (readBody l method) s).toOption =
              (ofBody? method v).map (·, rest) := by
            rw [afterColon, hcolon]
            exact toOption_readBody (by omega) hvalue method
          exact toOption_map hmade Partial.whole
      | body _ | whole _ => rfl
    · -- a member of an unknown name is passed over up to the end of its value
      rw [if_neg hbody, if_neg hbody]
      have hskip : skipValue l.steps t = .ok rest :=
        (endsAsPassed_readValue l.steps l.opens hvalue).skipValue (by omega)
      simp only [afterColon, hcolon, hskip]
      rfl

/-- A text that spells an object of members is decoded as the request of these. -/
theorem decode_of_spells {s : Bytes} {ms : List (String × Value)}
    (h : Spells greatestDepth s (.object ms)) (r : Request) :
    decode s = .ok r ↔ ofMembers? ms = some r := by
  obtain ⟨rest, hread, hblank⟩ := complete_eq_ok_iff.1 h
  obtain ⟨c, more, -, -, hscalar⟩ | ⟨_, _, _, -, -, heq, -⟩ | ⟨n, more, _, hn, hc, heq, hmembers⟩ :=
    cases_of_readValue hread
  · exact absurd rfl ((not_container_of_scalar hscalar).2 ms)
  · cases heq
  · obtain rfl := Value.object.inj heq
    have hmore := length_of_skipBlanks hc
    obtain ⟨ms', hms, htake⟩ := toOption_membersAfter (takes_readValue (s.length + 1) n)
      (show more.length ≤ s.length + 1 by omega) hmembers
    rw [List.append_nil, List.reverse_inj] at hms
    subst hms
    have hobject : (membersAfter (readMember ⟨n, s.length + 1⟩) (s.length + 1) true .nothing
        more).toOption = (ms.foldlM take .nothing).map (·, rest) :=
      htake (fun found name t v after ht hvalue =>
        toOption_readMember found ht hvalue) .nothing
    have htext : (fromText (Limits.whole s) s).toOption = (ofMembers? ms).map (·, rest) := by
      simp only [fromText, hc, Form.enter_eq (l := Limits.whole s) hn]
      exact toOption_accept hobject ofPartial?
    rw [decode, complete_eq_ok_iff]
    constructor
    · rintro ⟨after, hok, -⟩
      rw [hok] at htext
      obtain ⟨r', hr, heq⟩ := Option.map_eq_some_iff.1 htext.symm
      rw [hr, (Prod.mk.inj heq).1]
    · intro hr
      rw [hr] at htext
      exact ⟨rest, ok_iff_toOption.2 htext, hblank⟩

/-! ## The order of members -/

/-- A member is a method, if one can be taken from it, or a body, or it changes nothing. -/
theorem take_cases (m : String × Value) :
    (∃ read : Option Method, ∀ found,
        take found m = read.bind fun method => found.withMethod method) ∨
      (∃ v, ∀ found, take found m = found.withBody v) ∨ ∀ found, take found m = some found := by
  by_cases hmethod : m.1 = methodTag
  · exact .inl ⟨_, fun _ => if_pos hmethod⟩
  · by_cases hbody : m.1 = bodyTag
    · exact .inr (.inl ⟨m.2, fun _ => (if_neg hmethod).trans (if_pos hbody)⟩)
    · exact .inr (.inr fun _ => (if_neg hmethod).trans (if_neg hbody))

/-- Of two members either may be taken first. -/
theorem take_comm (found : Partial) (a b : String × Value) :
    ((take found a).bind fun next => take next b) = (take found b).bind fun next => take next a := by
  obtain ⟨read, ha⟩ | ⟨v, ha⟩ | ha := take_cases a <;>
    obtain ⟨read', hb⟩ | ⟨w, hb⟩ | hb := take_cases b <;>
    simp only [ha, hb, Option.bind_some, Option.bind_fun_some, Partial.withBody_withBody]
  · cases read <;> cases read' <;>
      simp only [Option.bind_none, Option.bind_some, Option.bind_fun_none,
        Partial.withMethod_withMethod]
  · cases read <;>
      simp only [Option.bind_none, Option.bind_some, Option.bind_fun_none,
        Partial.withMethod_withBody]
  · cases read' <;>
      simp only [Option.bind_none, Option.bind_some, Option.bind_fun_none,
        Partial.withMethod_withBody]

theorem ofMembers?_perm {ms ms' : List (String × Value)} (h : ms.Perm ms') :
    ofMembers? ms = ofMembers? ms' := by
  have hfold : ∀ found, ms.foldlM take found = ms'.foldlM take found := by
    induction h with
    | nil => exact fun _ => rfl
    | cons m _ ih =>
        intro found
        rw [List.foldlM_cons, List.foldlM_cons]
        exact congrArg _ (funext ih)
    | swap a b ms =>
        intro found
        have hassoc : ∀ a b : String × Value, (a :: b :: ms).foldlM take found =
            ((take found a).bind fun next => take next b).bind fun next => ms.foldlM take next := by
          intro a b
          rw [List.foldlM_cons, Option.bind_assoc]
          rfl
        rw [hassoc, hassoc, take_comm]
    | trans _ _ ih ih' => exact fun found => (ih found).trans (ih' found)
  rw [ofMembers?, ofMembers?, hfold]

/-- Texts that spell the same members in any order are decoded as the same request, or none of
them is. -/
theorem decode_perm {s s' : Bytes} {ms ms' : List (String × Value)}
    (h : Spells greatestDepth s (.object ms)) (h' : Spells greatestDepth s' (.object ms'))
    (hperm : ms.Perm ms') (r : Request) : decode s = .ok r ↔ decode s' = .ok r := by
  rw [decode_of_spells h, decode_of_spells h', ofMembers?_perm hperm]

theorem spells_pair {name name' : String} {text text' : Bytes} {v v' : Value}
    (h : Spells (greatestDepth - 1) text v) (h' : Spells (greatestDepth - 1) text' v') :
    Spells greatestDepth (objectSpelled [(name, text), (name', text')])
      (.object [(name, v), (name', v')]) :=
  spells_object (.cons ⟨rfl, h⟩ (.cons ⟨rfl, h'⟩ .nil))

/-- A body whose text denotes a value may stand before its method or behind it: the texts are
decoded as the same request, or neither is. -/
theorem decode_body_first {method body : Bytes} {name v : Value}
    (hmethod : Spells (greatestDepth - 1) method name) (hbody : Spells (greatestDepth - 1) body v)
    (r : Request) :
    decode (objectSpelled [(bodyTag, body), (methodTag, method)]) = .ok r ↔
      decode (objectSpelled [(methodTag, method), (bodyTag, body)]) = .ok r :=
  decode_perm (spells_pair hbody hmethod) (spells_pair hmethod hbody) (.swap _ _ _) r

/-- The record of a message that was dealt with, its fields out of order and one of an unknown
name among them. -/
def mixedBody : Value :=
  .object [("topic", .text "t"), ("extra", .array [.null, .array []]), ("message", .text "aGk="),
    ("id", .text "a")]

theorem decode_body_first_mixed :
    Spells (greatestDepth - 1) (writeText "on_acknowledged") (.text "on_acknowledged") ∧
      Spells (greatestDepth - 1) mixedBody.write mixedBody ∧
      decode (objectSpelled [(bodyTag, mixedBody.write), (methodTag, writeText "on_acknowledged")]) =
        .ok (.acknowledged ⟨"a", "t", [0x68, 0x69]⟩) := by
  have hmethod : Spells (greatestDepth - 1) (writeText "on_acknowledged")
      (.text "on_acknowledged") :=
    (Value.Plain.scalar (.text "on_acknowledged")).spells
  have hplain : mixedBody.Plain (greatestDepth - 1) := by
    have hextra : (Value.array [.null, .array []]).Plain (greatestDepth - 1 - 1) := by
      refine .array (List.forall_mem_cons.2 ⟨.scalar .null, List.forall_mem_singleton.2 ?_⟩)
      exact .array nofun
    refine .object (List.forall_mem_cons.2 ⟨.scalar (.text "t"), ?_⟩)
    refine List.forall_mem_cons.2 ⟨hextra, List.forall_mem_cons.2 ⟨.scalar (.text "aGk="), ?_⟩⟩
    exact List.forall_mem_singleton.2 (.scalar (.text "a"))
  have hbody := hplain.spells
  refine ⟨hmethod, hbody, (decode_body_first hmethod hbody _).2 ?_⟩
  exact (decode_of_spells (spells_pair hmethod hbody) _).2 (by decide)

end Request

end TopicWatch.Bridge
