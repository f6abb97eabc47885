import TopicWatch.Harness
import TopicWatch.Proofs.Json.Buffer
import TopicWatch.Proofs.Sink.Retention
import TopicWatch.Proofs.Wait.Reasons
import TopicWatch.Proofs.Wait.Settling
import TopicWatch.Publish.Recorder

/-!
# What a harness sends

A harness files a message that it sends when the broker has confirmed it, and as it was sent.
What expectations see of such a message is the value that its payload was written from.
-/

namespace TopicWatch

open Json Record Bridge Publish

/-- What the broker says to messages that are sent one after the other. -/
def Publish.answers {π : Type} (publisher : Publisher π) :
    π → List Outgoing → List (Except Publish.Error Receipt)
  | _, [] => []
  | broker, m :: sent =>
      (publisher broker m).1 :: Publish.answers publisher (publisher broker m).2 sent

namespace Publish.Outgoing

/-- What becomes of a message that is given a key, headers, a partition or the name of a
test. -/
inductive Refines (origin : Outgoing) : Outgoing → Prop
  | origin : Refines origin origin
  | withKey {m : Outgoing} (h : Refines origin m) (key : String) : Refines origin (m.withKey key)
  | withHeader {m : Outgoing} (h : Refines origin m) (name value : String) :
      Refines origin (m.withHeader name value)
  | withPartition {m : Outgoing} (h : Refines origin m) (partition : Partition) :
      Refines origin (m.withPartition partition)
  | withTestCase {m : Outgoing} (h : Refines origin m) (name : String) :
      Refines origin (m.withTestCase name)

/-- A message keeps its topic and its payload. -/
theorem Refines.keeps {origin m : Outgoing} (h : Refines origin m) :
    m.topic = origin.topic ∧ m.payload = origin.payload := by
  induction h with
  | origin => exact ⟨rfl, rfl⟩
  | withKey _ _ ih => exact ih
  | withHeader _ _ _ ih => exact ih
  | withPartition _ _ ih => exact ih
  | withTestCase _ _ ih => exact ih

/-- The context under which a message is observed. -/
def context (m : Outgoing) : Metadata := ⟨m.topic, m.key, m.headers, none, none⟩

end Publish.Outgoing

namespace Harness

variable {π : Type} (h : Harness π)

/-- What the harness files of messages, given what the broker said to each. -/
def confirmed (sent : List (Outgoing × String)) (results : List (Except Publish.Error Receipt)) :
    List Request :=
  (sent.zip results).filterMap fun p =>
    p.2.toOption.map fun _ => .published (p.1.1.toPublished p.1.2)

@[simp] theorem publish_config (m : Outgoing) (id : String) :
    (h.publish m id).2.config = h.config := by
  rw [publish]
  split <;> rfl

theorem publish_fst (m : Outgoing) (id : String) :
    (h.publish m id).1 = (h.publisher h.broker m).1 := by
  rw [publish]
  split
  · next heq => exact heq.symm
  · next heq => exact heq.symm

@[simp] theorem publish_publisher (m : Outgoing) (id : String) :
    (h.publish m id).2.publisher = h.publisher := by
  rw [publish]
  split <;> rfl

@[simp] theorem publish_broker (m : Outgoing) (id : String) :
    (h.publish m id).2.broker = (h.publisher h.broker m).2 := by
  rw [publish]
  split <;> rfl

variable {h}

/-- A message that is refused leaves the store as it was. -/
theorem store_of_refused {m : Outgoing} {id : String} {e : Publish.Error}
    (hrefused : (h.publish m id).1 = .error e) : (h.publish m id).2.store = h.store := by
  rw [publish] at hrefused ⊢
  split at hrefused
  · rfl
  · cases hrefused

theorem store_of_confirmed {m : Outgoing} {id : String} {receipt : Receipt}
    (hconfirmed : (h.publish m id).1 = .ok receipt) :
    (h.publish m id).2.store =
      if h.config.listensToPublished then
        (Sink.accept h.config.suffixes h.store (.published (m.toPublished id))).1
      else h.store := by
  rw [publish] at hconfirmed ⊢
  split at hconfirmed
  · cases hconfirmed
  · rfl

theorem publishAll_append (h : Harness π) (earlier later : List (Outgoing × String)) :
    h.publishAll (earlier ++ later) =
      ((h.publishAll earlier).1 ++ ((h.publishAll earlier).2.publishAll later).1,
        ((h.publishAll earlier).2.publishAll later).2) := by
  induction earlier generalizing h with
  | nil => rfl
  | cons m earlier ih => rw [List.cons_append, publishAll, ih, publishAll, List.cons_append]

@[simp] theorem publishAll_config (h : Harness π) (sent : List (Outgoing × String)) :
    (h.publishAll sent).2.config = h.config := by
  induction sent generalizing h with
  | nil => rfl
  | cons m sent ih => rw [publishAll, ih, publish_config]

theorem publishAll_fst (h : Harness π) (sent : List (Outgoing × String)) :
    (h.publishAll sent).1 = answers h.publisher h.broker (sent.map Prod.fst) := by
  induction sent generalizing h with
  | nil => rfl
  | cons m sent ih =>
      rw [publishAll, ih, publish_publisher, publish_broker, publish_fst, List.map_cons, answers]

/-- The store after messages were sent: it is filed what was confirmed, if it is listened to. -/
theorem store_publishAll (h : Harness π) (sent : List (Outgoing × String)) :
    (h.publishAll sent).2.store =
      if h.config.listensToPublished then
        Sink.acceptAll h.config.suffixes h.store (confirmed sent (h.publishAll sent).1)
      else h.store := by
  induction sent generalizing h with
  | nil => split <;> rfl
  | cons m sent ih =>
      obtain ⟨m, id⟩ := m
      rw [publishAll, ih, publish_config]
      cases hone : (h.publish m id).1 with
      | error e => rw [store_of_refused hone]; rfl
      | ok receipt =>
          rw [store_of_confirmed hone]
          split <;> rfl

theorem exists_of_mem_confirmed {sent : List (Outgoing × String)}
    {results : List (Except Publish.Error Receipt)} {r : Request}
    (hr : r ∈ confirmed sent results) :
    ∃ m id, (m, id) ∈ sent ∧ r = .published (m.toPublished id) := by
  obtain ⟨⟨⟨m, id⟩, result⟩, hmem, hsome⟩ := List.mem_filterMap.1 hr
  obtain ⟨_, -, rfl⟩ := Option.map_eq_some_iff.1 hsome
  exact ⟨m, id, (List.of_mem_zip hmem).1, rfl⟩

/-- What is filed of a message that was confirmed stays as long as no other message is sent
under its id. -/
theorem mem_snapshot_of_confirmed {earlier later : List (Outgoing × String)} {m : Outgoing}
    {id : String} {receipt : Receipt} (hlistens : h.config.listensToPublished)
    (hconfirmed : ((h.publishAll earlier).2.publish m id).1 = .ok receipt)
    (hid : id ∉ later.map Prod.snd) {o : Observation}
    (ho : o ∈ Sink.ofPublished h.config.suffixes (m.toPublished id)) :
    o ∈ (h.publishAll (earlier ++ (m, id) :: later)).2.store.snapshot o.kind := by
  have hfiled : o ∈ ((h.publishAll earlier).2.publish m id).2.store.snapshot o.kind := by
    rw [store_of_confirmed hconfirmed, publishAll_config, if_pos hlistens]
    exact Sink.mem_snapshot_accept ho _
  rw [publishAll_append, publishAll, store_publishAll, publish_config, publishAll_config,
    if_pos hlistens, Sink.acceptAll_eq_foldl, Store.mem_snapshot_foldl_record_iff hfiled]
  -- a later record in the same place would be of a message with the same id
  rintro x ⟨front, back, hsplit, -⟩ hplace
  have hx : x ∈ front ++ x :: back := by simp
  rw [← hsplit] at hx
  obtain ⟨r, hr, hobserved⟩ := List.mem_flatMap.1 hx
  obtain ⟨m', id', hsent, rfl⟩ := exists_of_mem_confirmed hr
  have hsame : some id' = some id := by
    calc some id' = some x.id := Sink.id_of_mem_observations hobserved
      _ = some o.id := congrArg some (congrArg Prod.snd hplace)
      _ = some id := (Sink.id_of_mem_observations (r := .published (m.toPublished id)) ho).symm
  obtain rfl := Option.some.inj hsame
  exact absurd (List.mem_map.2 ⟨_, hsent, rfl⟩) hid

/-- The value that a payload spells. -/
def value? (payload : Bytes) : Option Value := (Form.any.decode payload).toOption

/-- Whoever asks for a sent message, and for anything that holds of a given one, is shown one of
which it holds in the first pass; so whoever asks for that very one is shown it. -/
def ShowsSent (h : Harness π) (m : Wait.Observed Value) : Prop :=
  ∀ (typeName : String) (timeout : Nat) (test : Wait.Observed Value → Bool)
    (order : Nat → Wait.Order) (start : Nat), (∀ now, (order now).Rearranges) → test m →
    ∃ seen, ((h.assertions.shouldBePublished typeName timeout).run (.pure value? test) order
      (fun _ => h.store) none start ()).1 = some ⟨start, .ok seen⟩ ∧ test seen

/-- Whoever asks for a message that failed, and for anything that holds of a given one, is shown
one of which it holds in the first pass; so whoever asks for that very one is shown it. -/
def ShowsFailed (h : Harness π) (m : Wait.Observed Value) : Prop :=
  ∀ (typeName : String) (timeout : Nat) (test : Wait.Observed Value → Bool)
    (order : Nat → Wait.Order) (start : Nat), (∀ now, (order now).Rearranges) → test m →
    ∃ seen, ((h.assertions.shouldBeFailed typeName timeout).run (.pure value? test) order
      (fun _ => h.store) none start ()).1 = some ⟨start, .ok seen⟩ ∧
      test ⟨seen.value, seen.metadata⟩

section Shown

variable {v : Value}

/-- A value in the payload of a sent message is seen among the sent messages. -/
theorem showsSent_of_mem {p : Published} (hp : .published p ∈ h.store.snapshot .published)
    (hvalue : value? p.message = some v) : h.ShowsSent ⟨v, p.metadata⟩ := by
  intro typeName timeout test order start horder htest
  let e := h.assertions.shouldBePublished typeName timeout
  have hkind : e.kind ≠ .consumed := fun heq => nomatch heq
  have hwanted : Wait.wanted? value? test (.published p) = some ⟨v, p.metadata⟩ :=
    Wait.wanted?_of_payload rfl hvalue htest
  have hmem : ⟨v, p.metadata⟩ ∈ e.matching value? test h.store :=
    List.mem_filterMap.2 ⟨_, hp, Option.filter_eq_some_iff.2 ⟨hwanted, rfl⟩⟩
  have hmet : e.Met value? test h.store := List.length_pos_of_mem hmem
  obtain ⟨seen, hseen, hrun⟩ : ∃ seen ∈ e.matching value? test h.store,
      (e.run (.pure value? test) order (fun _ => h.store) none start ()).1 =
        some ⟨start, .ok seen⟩ :=
    Wait.Expectation.run_of_met (fun _ => h.store) hkind (horder start) hmet
  exact ⟨seen, hrun, Wait.Expectation.test_of_mem_matching hseen⟩

/-- A value in the payload of a failed message is seen among the failures. -/
theorem showsFailed_of_mem {f : Failed} (hf : .failed f ∈ h.store.snapshot .failed)
    (hvalue : value? f.message = some v) : h.ShowsFailed ⟨v, f.metadata⟩ := by
  intro typeName timeout test order start horder htest
  let e := h.assertions.shouldBeFailed typeName timeout
  have hwanted : Wait.wanted? value? test (.failed f) = some ⟨v, f.metadata⟩ :=
    Wait.wanted?_of_payload rfl hvalue htest
  have hobserved : Wait.observedFailure? value? test (.failed f) =
      some ⟨v, f.metadata, f.reason⟩ := by
    rw [Wait.observedFailure?, hwanted]
    rfl
  have hmem : ⟨v, f.metadata, f.reason⟩ ∈ Wait.FailureExpectation.matching value? test h.store :=
    List.mem_filterMap.2 ⟨_, hf, hobserved⟩
  obtain ⟨seen, hseen, hrun⟩ : ∃ seen ∈ Wait.FailureExpectation.matching value? test h.store,
      (e.run (.pure value? test) order (fun _ => h.store) none start ()).1 =
        some ⟨start, .ok seen⟩ :=
    Wait.FailureExpectation.run_of_expected (fun _ => h.store) (horder start) hmem rfl
  exact ⟨seen, hrun, Wait.FailureExpectation.test_of_mem_matching hseen⟩

/-- The value that a message was built from is seen once the message is confirmed. -/
theorem shows_of_confirmed {earlier later : List (Outgoing × String)} {m : Outgoing}
    {id : String} {receipt : Receipt} {topic : String} (hlistens : h.config.listensToPublished)
    (hconfirmed : ((h.publishAll earlier).2.publish m id).1 = .ok receipt)
    (hid : id ∉ later.map Prod.snd) (hm : (Outgoing.json topic v).Refines m)
    (hv : v.Plain greatestDepth) :
    let after := (h.publishAll (earlier ++ (m, id) :: later)).2
    after.ShowsSent ⟨v.normal, m.context⟩ ∧
      (h.config.suffixes.isError topic → after.ShowsFailed ⟨v.normal, m.context⟩) := by
  intro after
  obtain ⟨htopic, hpayload⟩ := hm.keeps
  have hvalue : value? m.payload = some v.normal := by
    rw [value?, hpayload, show (Outgoing.json topic v).payload = v.write from rfl, hv.decode_any]
    rfl
  constructor
  · have hp : .published (m.toPublished id) ∈
        Sink.ofPublished h.config.suffixes (m.toPublished id) := by
      rw [Sink.ofPublished]
      split <;> simp
    exact showsSent_of_mem (mem_snapshot_of_confirmed hlistens hconfirmed hid hp) hvalue
  · intro herror
    have hm : h.config.suffixes.isError (m.toPublished id).topic := by
      rwa [show (m.toPublished id).topic = topic from htopic]
    have hf : .failed (Failed.ofPublished (m.toPublished id)
          (FailureReason.ofHeaders m.topic m.headers)) ∈
        Sink.ofPublished h.config.suffixes (m.toPublished id) := by
      rw [Sink.ofPublished, if_pos hm]
      exact List.mem_cons_self
    exact showsFailed_of_mem (mem_snapshot_of_confirmed hlistens hconfirmed hid hf) hvalue

end Shown

/-- What a harness sends is seen as it was sent. Each message gets the answer that the broker
gives to it. If messages that are sent do not count, the store never changes. If they do,
exactly those that the broker confirmed are filed, in order and as the bridge would file them,
and one that is refused changes nothing. When a message is confirmed whose payload was written
from a value without fractions, in which no more brackets are open at once than can be read,
that value, in its normal form, is seen at once among the sent messages, in the context of the
message, and on an error topic also among the failures. It is still seen after other messages
were sent under other ids. -/
theorem sent_messages_are_seen (h : Harness π) (sent : List (Outgoing × String)) :
    let results := answers h.publisher h.broker (sent.map Prod.fst)
    let after := (h.publishAll sent).2
    (h.publishAll sent).1 = results ∧
      (¬h.config.listensToPublished → after.store = h.store) ∧
      (h.config.listensToPublished → after.store =
        Sink.acceptAll h.config.suffixes h.store (confirmed sent results)) ∧
      (∀ m id e, (after.publish m id).1 = .error e → (after.publish m id).2.store = after.store) ∧
      ∀ earlier m id later receipt topic v, sent = earlier ++ (m, id) :: later →
        h.config.listensToPublished →
        ((h.publishAll earlier).2.publish m id).1 = .ok receipt → id ∉ later.map Prod.snd →
        (Outgoing.json topic v).Refines m → v.Plain greatestDepth →
        after.ShowsSent ⟨v.normal, m.context⟩ ∧
          (h.config.suffixes.isError topic → after.ShowsFailed ⟨v.normal, m.context⟩) := by
  intro results after
  have hresults : (h.publishAll sent).1 = results := h.publishAll_fst sent
  refine ⟨hresults, ?_, ?_, fun m id e => store_of_refused, ?_⟩
  · intro hdeaf
    rw [store_publishAll, if_neg hdeaf]
  · intro hlistens
    rw [store_publishAll, if_pos hlistens, hresults]
  · rintro earlier m id later receipt topic v rfl hlistens hconfirmed hid hm hv
    exact shows_of_confirmed hlistens hconfirmed hid hm hv

/-- A value that is sent to an error topic between a message that is refused and another one. -/
theorem sent_messages_are_seen_dead_lettered :
    let h : Harness Recorder :=
      ⟨⟨.usual, .standard, .usual, true⟩, 4000, .empty, Recorder.refusing ["audit"], .empty⟩
    let v : Value := .object [("id", .number (.integer 7)), ("tags", .array [.bool true, .null])]
    let m := ((Outgoing.json "orders.DLT" v).withKey "seven").withTestCase "dead letters"
    let after := (h.publishAll
      [(.raw "audit" [0x31], "a"), (m, "b"), (.raw "orders" [0x32], "c")]).2
    after.ShowsSent ⟨v, m.context⟩ ∧ after.ShowsFailed ⟨v, m.context⟩ := by
  intro h v m after
  have hplain : v.Plain greatestDepth := by
    refine .object fun w hw => ?_
    simp only [List.mem_cons, List.not_mem_nil, or_false] at hw
    obtain rfl | rfl := hw
    · exact .scalar (.integer (by decide) (by decide))
    · refine .array fun w hw => ?_
      simp only [List.mem_cons, List.not_mem_nil, or_false] at hw
      obtain rfl | rfl := hw
      · exact .scalar (.bool true)
      · exact .scalar .null
  have hm : (Outgoing.json "orders.DLT" v).Refines m :=
    (Outgoing.Refines.origin.withKey "seven").withTestCase "dead letters"
  obtain ⟨-, -, -, -, hshown⟩ := sent_messages_are_seen h
    [(.raw "audit" [0x31], "a"), (m, "b"), (.raw "orders" [0x32], "c")]
  obtain ⟨hsent, hfailed⟩ := hshown [(.raw "audit" [0x31], "a")] m "b"
    [(.raw "orders" [0x32], "c")] ⟨"orders.DLT", 0, 0⟩ "orders.DLT" v rfl rfl rfl (by decide) hm
    hplain
  exact ⟨hsent, hfailed (by decide)⟩

end Harness

end TopicWatch
