import TopicWatch.Proofs.Json.Agreement
import TopicWatch.Record.Message

/-!
# Records of messages that were buffered

A record of a message is taken from a buffered value exactly if it is read from the text that was
buffered.
-/

namespace TopicWatch.Record

open Json

theorem Headers.agrees_form : form.Agrees := Form.agrees_text.map.restrict _ _

theorem agrees_key : (Form.optional .text).Agrees := Form.agrees_text.optional

theorem Published.agree_fields : fields.Agree :=
  ⟨Form.agrees_text, Form.agrees_text, Form.agrees_bytes, agrees_key, Headers.agrees_form, trivial⟩

theorem Published.agrees_form : form.Agrees := Form.agrees_record agree_fields _ _

theorem Consumed.agree_fields : fields.Agree :=
  ⟨Form.agrees_text, Form.agrees_text, Form.agrees_int32, Form.agrees_int64, Form.agrees_bytes,
    agrees_key, Headers.agrees_form, trivial⟩

theorem Consumed.agrees_form : form.Agrees := Form.agrees_record agree_fields _ _

theorem Committed.agree_fields : fields.Agree :=
  ⟨Form.agrees_text, Form.agrees_text, Form.agrees_int32, Form.agrees_int64, Form.agrees_text,
    trivial⟩

theorem Committed.agrees_form : form.Agrees := Form.agrees_record agree_fields _ _

theorem Acknowledged.agree_fields : fields.Agree :=
  ⟨Form.agrees_text, Form.agrees_text, Form.agrees_bytes, trivial⟩

theorem Acknowledged.agrees_form : form.Agrees := Form.agrees_record agree_fields _ _

end TopicWatch.Record
