import Mathlib.Data.List.TakeWhile
import TopicWatch.Bridge.Request
import TopicWatch.Proofs.Record.Message

/-!
# Requests and answers survive the bridge

A request is written with its method first, so its body is read at once and with the form of
its method. Its text is an object and ends with it: before the closing brace it is unfinished,
and behind it nothing but blanks may stand. Every request is at least as long as the answer
to it.
-/

namespace TopicWatch.Bridge

open Json Record

theorem Method.faithful_form : Method.form.Faithful 0 :=
  Form.faithful_named fun m => by cases m <;> decide

theorem Status.faithful_form : Status.form.Faithful 0 :=
  Form.faithful_named fun a => by cases a <;> decide

namespace Request

/-- What stands in a request after its method. -/
def bodyMembers (r : Request) : List (String × Value) :=
  match r.body? with
  | some body => [(bodyTag, body)]
  | none => []

theorem toValue_eq (r : Request) :
    r.toValue = .object ((methodTag, .text r.method.name) :: r.bodyMembers) := rfl

/-- The body of a request is read with the form of its method. -/
theorem follows_readBody {l : Limits} {r : Request} {body : Value} (hbody : r.body? = some body)
    (hopens : 2 ≤ l.opens) : Follows (readBody l r.method) l.steps body.write r := by
  cases r with
  | healthCheck => exact absurd hbody (by simp [body?])
  | published m =>
      obtain rfl := Option.some.inj hbody
      exact (Published.faithful_form l m hopens).map published
  | consumed m =>
      obtain rfl := Option.some.inj hbody
      exact (Consumed.faithful_form l m hopens).map consumed
  | committed m =>
      obtain rfl := Option.some.inj hbody
      exact (Committed.faithful_form l m (Nat.le_of_succ_le hopens)).map committed
  | acknowledged m =>
      obtain rfl := Option.some.inj hbody
      exact (Acknowledged.faithful_form l m (Nat.le_of_succ_le hopens)).map acknowledged

theorem readMember_nothing (l : Limits) :
    readMember l .nothing methodTag = fun s =>
      (afterColon (Method.form.fromText l) s).map fun p => (.method p.1, p.2) :=
  funext fun _ => if_pos rfl

theorem readMember_body (l : Limits) (m : Method) :
    readMember l (.method m) bodyTag = fun s =>
      (afterColon (readBody l m) s).map fun p => (.whole p.1, p.2) :=
  funext fun _ => (if_neg (by decide)).trans (if_pos rfl)

theorem readMember_method_late (l : Limits) (v : Value) :
    readMember l (.body v) methodTag = fun s =>
      Form.accept (fun m => (ofBody? m v).map .whole) (afterColon (Method.form.fromText l) s) :=
  funext fun _ => if_pos rfl

theorem readMember_body_first (l : Limits) :
    readMember l .nothing bodyTag = fun s =>
      (afterColon (readValue l.steps l.opens) s).map fun p => (.body p.1, p.2) :=
  funext fun _ => (if_neg (by decide)).trans (if_pos rfl)

theorem readMember_other {name : String} (hname : ¬(name = methodTag ∨ name = bodyTag)) (l : Limits)
    (found : Partial) :
    readMember l found name = fun s =>
      (afterColon (fun t => (skipValue l.steps t).map ((), ·)) s).map fun p => (found, p.2) :=
  funext fun _ => (if_neg fun h => hname (.inl h)).trans (if_neg fun h => hname (.inr h))

theorem follows_method (l : Limits) (m : Method) :
    Follows (readMember l .nothing methodTag) l.steps (0x3A :: (Value.text m.name).write)
      (.method m) := by
  have hread : Follows (Method.form.fromText l) l.steps (Value.text m.name).write m :=
    Method.faithful_form l m (Nat.zero_le _)
  rw [readMember_nothing]
  exact hread.afterColon.map Partial.method

/-- The method is read first, and then the body as the method says. -/
theorem readsMembers {l : Limits} (r : Request) (hopens : 2 ≤ l.opens) :
    ∃ found, ofPartial? found = some r ∧
      ReadsMembers (readMember l) l.steps .nothing
        ((methodTag, .text r.method.name) :: r.bodyMembers) found := by
  cases hbody : r.body? with
  | none =>
      have hmembers : r.bodyMembers = [] := by
        rw [bodyMembers, hbody]
      have hr : r = healthCheck := by
        cases r <;> first | rfl | exact absurd hbody (by simp [body?])
      refine ⟨.method r.method, ?_, ?_⟩
      · rw [hr]
        rfl
      · rw [hmembers]
        exact ReadsMembers.cons (follows_method l r.method) (ReadsMembers.nil _)
  | some body =>
      have hmembers : r.bodyMembers = [(bodyTag, body)] := by
        rw [bodyMembers, hbody]
      have hread : Follows (readMember l (.method r.method) bodyTag) l.steps (0x3A :: body.write)
          (.whole r) := by
        rw [readMember_body]
        exact (follows_readBody hbody hopens).afterColon.map Partial.whole
      refine ⟨.whole r, rfl, ?_⟩
      rw [hmembers]
      exact ReadsMembers.cons (follows_method l r.method)
        (ReadsMembers.cons hread (ReadsMembers.nil _))

theorem opensObject {l inner : Limits} (henter : l.enter = .ok inner)
    (hsame : inner.steps = l.steps) :
    OpensObject (fromText l) (readMember inner) inner.steps .nothing ofPartial? := by
  refine ⟨rfl, fun t => ?_⟩
  rw [fromText, skipBlanks_cons (show isBlank 0x7B = false from rfl)]
  simp only
  rw [if_neg (by decide), if_pos trivial, henter, hsame]
  rfl

theorem fromText_encode {l : Limits} (r : Request) (hopens : 3 ≤ l.opens)
    (hsteps : r.encode.length ≤ l.steps) (rest : Bytes) :
    fromText l (r.encode ++ rest) = .ok (r, rest) := by
  obtain ⟨inner, henter, hinner, hsame⟩ := Limits.exists_enter hopens
  obtain ⟨found, hfound, hreads⟩ := r.readsMembers hinner
  rw [← hsame] at hsteps
  exact (opensObject henter hsame).whole hreads hfound hsteps rest

/-- A request that breaks off is unfinished, wherever it does. -/
theorem fromText_cut {l : Limits} {r : Request} {t : Bytes} (hopens : 3 ≤ l.opens)
    (ht : Cut t r.encode) (hsteps : t.length ≤ l.steps) :
    fromText l t = .error .unfinished := by
  obtain ⟨inner, henter, hinner, hsame⟩ := Limits.exists_enter hopens
  obtain ⟨found, -, hreads⟩ := r.readsMembers hinner
  rw [← hsame] at hsteps
  exact (opensObject henter hsame).cut hreads ht hsteps

/-- Behind a whole request only blanks may stand. -/
theorem decode_encode_append (r : Request) (s : Bytes) :
    decode (r.encode ++ s) = if s.all isBlank then .ok r else .error .malformed := by
  have hsteps : r.encode.length ≤ (Limits.whole (r.encode ++ s)).steps :=
    Nat.le_succ_of_le (List.length_append ▸ Nat.le_add_right _ _)
  have hread := r.fromText_encode (l := Limits.whole (r.encode ++ s))
    (show 3 ≤ greatestDepth by decide) hsteps s
  have hblank : (skipBlanks s).isEmpty = s.all isBlank := by
    rw [Bool.eq_iff_iff, List.isEmpty_iff, skipBlanks, List.dropWhile_eq_nil_iff, List.all_eq_true]
  rw [decode, hread, complete, hblank]

/-- Decoding what was encoded gives the request back. -/
theorem decode_encode (r : Request) : decode r.encode = .ok r := by
  have hread := r.decode_encode_append []
  rwa [List.append_nil] at hread

theorem decode_cut {r : Request} {t : Bytes} (ht : Cut t r.encode) :
    decode t = .error .unfinished := by
  have hread := fromText_cut (l := Limits.whole t) (show 3 ≤ greatestDepth by decide) ht
    (Nat.le_succ _)
  rw [decode, hread]
  rfl

/-- The text of a request tells where it ends: it denotes the request, no proper beginning of it
is taken for whole, and what follows it changes nothing as long as it is blank. -/
theorem encode_delimits_itself (r : Request) :
    decode r.encode = .ok r ∧
      (∀ t, t <+: r.encode → t ≠ r.encode → decode t = .error .unfinished) ∧
      ∀ s, ((∃ r', decode (r.encode ++ s) = .ok r') ↔
          ∀ b ∈ s, b = 0x20 ∨ b = 0x0A ∨ b = 0x09 ∨ b = 0x0D) ∧
        ∀ r', decode (r.encode ++ s) = .ok r' → r' = r := by
  refine ⟨r.decode_encode, fun t hbegins hne => decode_cut ⟨hbegins, hne⟩, fun s => ?_⟩
  have hblank : s.all isBlank ↔ ∀ b ∈ s, b = 0x20 ∨ b = 0x0A ∨ b = 0x09 ∨ b = 0x0D := by
    simp only [List.all_eq_true, isBlank_iff]
  rw [r.decode_encode_append s, ← hblank]
  by_cases hs : s.all isBlank
  · rw [if_pos hs]
    exact ⟨⟨fun _ => hs, fun _ => ⟨r, rfl⟩⟩, fun r' h => (Except.ok.inj h).symm⟩
  · rw [if_neg hs]
    exact ⟨⟨fun ⟨_, h⟩ => (nomatch h), fun h => absurd h hs⟩, fun _ h => nomatch h⟩

end Request

namespace Ack

theorem faithful_form : form.Faithful 1 :=
  Form.faithful_record ⟨Status.faithful_form, trivial⟩ (by decide) fun _ => rfl

/-- Decoding what was encoded gives the answer back. -/
theorem decode_encode (a : Ack) : decode a.encode = .ok a :=
  faithful_form.decode_encode (by decide) a

theorem length_encode_le (a : Ack) : a.encode.length ≤ 22 := by
  obtain ⟨status⟩ := a
  cases status <;> decide

end Ack

/-- A frame that has room for a request has room for every answer. -/
theorem length_answer_le_request (a : Ack) (r : Request) : a.encode.length ≤ r.encode.length := by
  have hanswer := a.length_encode_le
  have hname : 13 ≤ (Value.text r.method.name).write.length := by
    generalize r.method = m
    cases m <;> decide
  have htag : (writeText Request.methodTag).length = 8 := by decide
  rw [Request.encode, Request.toValue_eq, Value.write_object]
  simp only [Value.membersText, List.length_append, List.length_cons, if_true, List.length_nil]
  omega

end TopicWatch.Bridge
