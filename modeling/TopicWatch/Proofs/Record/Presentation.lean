import TopicWatch.Proofs.Json.Refusal
import TopicWatch.Proofs.Record.Buffered
import TopicWatch.Proofs.Record.Observation

/-!
# Presentations of records of messages

The fields of each record of a message are legible, so that the record is read from each of its
presentations and from no faulty text.
-/

namespace TopicWatch.Record

open Json

theorem Headers.ends_form : form.EndsAsPassed := Form.endsAsPassed_text.map.restrict _ _

theorem ends_key : (Form.optional .text).EndsAsPassed := Form.endsAsPassed_text.optional

theorem ends_bytes : Form.bytes.EndsAsPassed := Form.endsAsPassed_text.restrict _ _

theorem ends_int32 : Form.int32.EndsAsPassed := (Form.endsAsPassed_integer _ _).restrict _ _

theorem ends_int64 : Form.int64.EndsAsPassed := (Form.endsAsPassed_integer _ _).restrict _ _

namespace Published

/-- The values of the fields of a sent message. -/
def row (m : Published) : Row [String, String, Bytes, Option String, Headers] :=
  (m.id, m.topic, m.message, m.key, m.headers, ())

theorem legible_fields : fields.Legible 1 where
  agree := agree_fields
  restores := restores_fields
  ends := ⟨Form.endsAsPassed_text, Form.endsAsPassed_text, ends_bytes, ends_key, Headers.ends_form,
    trivial⟩
  distinct := by decide

end Published

namespace Consumed

/-- The values of the fields of a delivered message. -/
def row (m : Consumed) : Row [String, String, Partition, Offset, Bytes, Option String, Headers] :=
  (m.id, m.topic, m.partition, m.offset, m.message, m.key, m.headers, ())

theorem legible_fields : fields.Legible 1 where
  agree := agree_fields
  restores := restores_fields
  ends := ⟨Form.endsAsPassed_text, Form.endsAsPassed_text, ends_int32, ends_int64, ends_bytes,
    ends_key, Headers.ends_form, trivial⟩
  distinct := by decide

end Consumed

namespace Committed

/-- The values of the fields of a commit. -/
def row (m : Committed) : Row [String, String, Partition, Offset, String] :=
  (m.id, m.topic, m.partition, m.offset, m.metadata, ())

theorem legible_fields : fields.Legible 1 where
  agree := agree_fields
  restores := restores_fields
  ends := ⟨Form.endsAsPassed_text, Form.endsAsPassed_text, ends_int32, ends_int64,
    Form.endsAsPassed_text, trivial⟩
  distinct := by decide

end Committed

namespace Acknowledged

/-- The values of the fields of a message that was dealt with. -/
def row (m : Acknowledged) : Row [String, String, Bytes] := (m.id, m.topic, m.message, ())

theorem legible_fields : fields.Legible 1 where
  agree := agree_fields
  restores := restores_fields
  ends := ⟨Form.endsAsPassed_text, Form.endsAsPassed_text, ends_bytes, trivial⟩
  distinct := by decide

end Acknowledged

end TopicWatch.Record
