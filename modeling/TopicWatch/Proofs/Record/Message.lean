import TopicWatch.Proofs.Json.Object
import TopicWatch.Record.Message

/-!
# Records of messages read back what they write
-/

namespace TopicWatch.Record

open Json

namespace Headers

theorem faithful_form : form.Faithful 1 := by
  intro l headers hopens
  have hread : (Form.map .text).ReadsBack l headers.entries :=
    Form.readsBack_map Form.faithful_text headers.ascending hopens
  exact hread.restrict (congrArg some headers.ofPairs_entries) fun _ _ _ _ => rfl

end Headers

theorem faithful_key : (Form.optional .text).Faithful 0 :=
  Form.faithful_text.optional (fun s => ⟨0x22, _, rfl, rfl, by decide⟩) fun _ => rfl

namespace Published

theorem faithful_fields : fields.Faithful 1 := by
  refine ⟨?_, ?_, ?_, ?_, Headers.faithful_form, trivial⟩
  · exact Form.faithful_text.mono (Nat.zero_le _)
  · exact Form.faithful_text.mono (Nat.zero_le _)
  · exact Form.faithful_bytes.mono (Nat.zero_le _)
  · exact faithful_key.mono (Nat.zero_le _)

theorem faithful_form : form.Faithful 2 :=
  Form.faithful_record faithful_fields (by decide) fun _ => rfl

end Published

namespace Consumed

theorem faithful_fields : fields.Faithful 1 := by
  refine ⟨?_, ?_, ?_, ?_, ?_, ?_, Headers.faithful_form, trivial⟩
  · exact Form.faithful_text.mono (Nat.zero_le _)
  · exact Form.faithful_text.mono (Nat.zero_le _)
  · exact Form.faithful_int32.mono (Nat.zero_le _)
  · exact Form.faithful_int64.mono (Nat.zero_le _)
  · exact Form.faithful_bytes.mono (Nat.zero_le _)
  · exact faithful_key.mono (Nat.zero_le _)

theorem faithful_form : form.Faithful 2 :=
  Form.faithful_record faithful_fields (by decide) fun _ => rfl

end Consumed

namespace Committed

theorem faithful_fields : fields.Faithful 0 :=
  ⟨Form.faithful_text, Form.faithful_text, Form.faithful_int32, Form.faithful_int64,
    Form.faithful_text, trivial⟩

theorem faithful_form : form.Faithful 1 :=
  Form.faithful_record faithful_fields (by decide) fun _ => rfl

end Committed

namespace Acknowledged

theorem faithful_fields : fields.Faithful 0 :=
  ⟨Form.faithful_text, Form.faithful_text, Form.faithful_bytes, trivial⟩

theorem faithful_form : form.Faithful 1 :=
  Form.faithful_record faithful_fields (by decide) fun _ => rfl

end Acknowledged

end TopicWatch.Record
