import TopicWatch.Bridge.Request
import TopicWatch.Proofs.Json.Weight
import TopicWatch.Proofs.Keyed
import TopicWatch.Sink

/-!
# A request has room for its answer

However a request was spelled, as an object or as an array, with its members in any order and
among others, it is at least as long as the answer to it. So a frame that was let in because
it is within a limit cannot have an answer that the same limit refuses.
-/

namespace TopicWatch

open Json Bridge

namespace Record

theorem advances_headers : Headers.form.Advances := Form.advances_text.map.restrict _ _

theorem advances_key : (Form.optional .text).Advances := Form.advances_text.optional

theorem advances_payload : Form.bytes.Advances := Form.advances_text.restrict _ _

theorem advances_partition : Form.int32.Advances := (Form.advances_integer _ _).restrict _ _

theorem advances_offset : Form.int64.Advances := (Form.advances_integer _ _).restrict _ _

theorem Published.advances_form : Published.form.Advances := by
  have hfields : Published.fields.Advance :=
    ⟨Form.advances_text, Form.advances_text, advances_payload, advances_key, advances_headers,
      trivial⟩
  exact Form.advances_record hfields _ _

theorem Consumed.advances_form : Consumed.form.Advances := by
  have hfields : Consumed.fields.Advance :=
    ⟨Form.advances_text, Form.advances_text, advances_partition, advances_offset,
      advances_payload, advances_key, advances_headers, trivial⟩
  exact Form.advances_record hfields _ _

theorem Committed.advances_form : Committed.form.Advances := by
  have hfields : Committed.fields.Advance :=
    ⟨Form.advances_text, Form.advances_text, advances_partition, advances_offset,
      Form.advances_text, trivial⟩
  exact Form.advances_record hfields _ _

theorem Acknowledged.advances_form : Acknowledged.form.Advances := by
  have hfields : Acknowledged.fields.Advance :=
    ⟨Form.advances_text, Form.advances_text, advances_payload, trivial⟩
  exact Form.advances_record hfields _ _

end Record

namespace Bridge

open Record

theorem Method.takes_form (l : Limits) :
    Takes (Method.form.fromText l) fun m => m.name.length + 2 := by
  refine Form.takes_named (fun k m h => ?_) name l
  obtain ⟨m', -, heq⟩ := List.mem_map.1 (Keyed.mem_of_find? h)
  obtain ⟨rfl, rfl⟩ := Prod.mk.inj heq
  exact Nat.le_refl _

/-- The bytes that the body of a method takes at least: that of a health check is a null. -/
def Method.leastBody : Method → Nat
  | .healthCheck => 4
  | _ => 0

namespace Request

theorem method_of_map {α : Type} {read : Bytes → Step α} {least : Nat}
    (hread : Takes read fun _ => least) (make : α → Request) {m : Method}
    (hmake : ∀ a, (make a).method = m) {s rest : Bytes} {r : Request}
    (h : (read s).map (fun p => (make p.1, p.2)) = .ok (r, rest)) :
    r.method = m ∧ rest.length + least ≤ s.length := by
  obtain ⟨p, hstep, heq⟩ := exists_of_map h
  obtain ⟨rfl, rfl⟩ := Prod.mk.inj heq
  exact ⟨hmake p.1, hread hstep⟩

/-- A body that is read with the form of its method gives a request of this method. -/
theorem method_of_readBody {l : Limits} {m : Method} {s rest : Bytes} {r : Request}
    (h : readBody l m s = .ok (r, rest)) :
    r.method = m ∧ rest.length + m.leastBody ≤ s.length := by
  cases m with
  | healthCheck => exact method_of_map (Form.takes_null l) (fun _ => healthCheck) (fun _ => rfl) h
  | published => exact method_of_map (Published.advances_form l) published (fun _ => rfl) h
  | consumed => exact method_of_map (Consumed.advances_form l) consumed (fun _ => rfl) h
  | committed => exact method_of_map (Committed.advances_form l) committed (fun _ => rfl) h
  | acknowledged => exact method_of_map (Acknowledged.advances_form l) acknowledged (fun _ => rfl) h

theorem method_of_ofBody? {m : Method} {v : Value} {r : Request} (h : ofBody? m v = some r) :
    r.method = m := by
  cases m <;>
  · obtain ⟨_, -, rfl⟩ := Option.map_eq_some_iff.1 h
    rfl

/-- The bytes that the members took at least that gave what was found: a method takes its tag,
the colon and its name. -/
def Partial.least : Partial → Nat
  | .method m => m.name.length + 11
  | .whole r => r.method.name.length + 11
  | _ => 0

theorem length_of_readMember {l : Limits} {found now : Partial} {name : String} {s rest : Bytes}
    (h : readMember l found name s = .ok (now, rest)) :
    rest.length + now.least ≤ s.length + (name.length + 2) + found.least := by
  have hmethod := (Method.takes_form l).afterColon
  unfold readMember at h
  split at h
  · next htag =>
      have hlength : name.length = 6 := htag ▸ rfl
      split at h
      · obtain ⟨p, hread, heq⟩ := exists_of_map h
        obtain ⟨rfl, rfl⟩ := Prod.mk.inj heq
        have htakes : p.2.length + (p.1.name.length + 2 + 1) ≤ s.length := hmethod hread
        show p.2.length + (p.1.name.length + 11) ≤ s.length + (name.length + 2) + 0
        omega
      · next v =>
          obtain ⟨m, hread, hbody⟩ := exists_of_accept h
          obtain ⟨r, hr, rfl⟩ := Option.map_eq_some_iff.1 hbody
          have htakes : rest.length + (m.name.length + 2 + 1) ≤ s.length := hmethod hread
          show rest.length + (r.method.name.length + 11) ≤ s.length + (name.length + 2) + 0
          rw [method_of_ofBody? hr]
          omega
      · cases h
  · split at h
    · split at h
      · obtain ⟨p, hread, heq⟩ := exists_of_map h
        obtain ⟨rfl, rfl⟩ := Prod.mk.inj heq
        have htakes := (takes_readValue l.steps l.opens).afterColon hread
        show p.2.length ≤ s.length + (name.length + 2) + 0
        omega
      · next m =>
          obtain ⟨p, hread, heq⟩ := exists_of_map h
          obtain ⟨rfl, rfl⟩ := Prod.mk.inj heq
          obtain ⟨t, hbody, hcolon⟩ := exists_of_afterColon hread
          obtain ⟨hsame, htakes⟩ := method_of_readBody hbody
          show p.2.length + (p.1.method.name.length + 11) ≤
            s.length + (name.length + 2) + (m.name.length + 11)
          rw [hsame]
          omega
      · cases h
    · obtain ⟨p, hread, heq⟩ := exists_of_map h
      obtain ⟨rfl, rfl⟩ := Prod.mk.inj heq
      have htakes := (takes_skipValue l.steps).afterColon hread
      omega

end Request

end Bridge

end TopicWatch
