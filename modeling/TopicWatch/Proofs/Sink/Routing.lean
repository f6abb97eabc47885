import TopicWatch.Proofs.Sink.Log

/-!
# Where requests are filed

Every record in a store that was filled by requests is one of those that a request stands for,
unchanged, and its bucket suits its topic. Requests with ids of their own lose nothing: each of
them is in all of its buckets and in no other, so the counts are those of the log.
-/

namespace TopicWatch

open Record Topic Bridge

/-- Where a reason comes from. The first pair of headers whose kind is there gives both the kind
and the message, which is empty if its header is missing; without such a pair the reason names
the topic. -/
inductive Record.FailureReason.Given (topic : String) (headers : Headers) :
    FailureReason → Prop
  | pair {earlier later : List (String × String)} {pair : String × String} {kind : String}
      (hpairs : headerPairs = earlier ++ pair :: later)
      (hearlier : ∀ p ∈ earlier, headers.get? p.1 = none)
      (hkind : headers.get? pair.1 = some kind) :
      Given topic headers ⟨kind, (headers.get? pair.2).getD ""⟩
  | topic (hnone : ∀ p ∈ headerPairs, headers.get? p.1 = none) :
      Given topic headers (ofTopic topic)

theorem Record.FailureReason.given_ofHeaders (topic : String) (headers : Headers) :
    Given topic headers (ofHeaders topic headers) := by
  rw [ofHeaders]
  cases hfound : headerPairs.findSome? (ofPair? headers) with
  | none =>
      refine .topic fun p hp => ?_
      exact Option.map_eq_none_iff.1 (List.findSome?_eq_none_iff.1 hfound p hp)
  | some reason =>
      obtain ⟨earlier, pair, later, hpairs, hreason, hearlier⟩ :=
        List.findSome?_eq_some_iff.1 hfound
      obtain ⟨kind, hkind, rfl⟩ := Option.map_eq_some_iff.1 hreason
      exact .pair hpairs (fun p hp => Option.map_eq_none_iff.1 (hearlier p hp)) hkind

namespace Sink

variable {suffixes : Suffixes}

/-- What a request is filed as. A sent message is filed as sent, and also as a failure without
a place if its topic is for failures. A delivered message is filed as one thing by what its
topic is for. Commits and what was dealt with are filed as such. -/
inductive Filed (suffixes : Suffixes) : Request → Observation → Prop
  | published (m : Published) : Filed suffixes (.published m) (.published m)
  | sentFailure {m : Published} (h : suffixes.classify m.topic = .error) :
      Filed suffixes (.published m)
        (.failed ⟨m.id, m.topic, m.message, m.key, m.headers, none, none,
          .ofHeaders m.topic m.headers⟩)
  | consumed {m : Consumed} (h : suffixes.classify m.topic = .normal) :
      Filed suffixes (.consumed m) (.consumed m)
  | retried {m : Consumed} (h : suffixes.classify m.topic = .retry) :
      Filed suffixes (.consumed m) (.retried m)
  | deliveredFailure {m : Consumed} (h : suffixes.classify m.topic = .error) :
      Filed suffixes (.consumed m)
        (.failed ⟨m.id, m.topic, m.message, m.key, m.headers, some m.partition, some m.offset,
          .ofHeaders m.topic m.headers⟩)
  | committed (m : Committed) : Filed suffixes (.committed m) (.committed m)
  | acknowledged (m : Acknowledged) : Filed suffixes (.acknowledged m) (.acknowledged m)

theorem mem_observations_iff {r : Request} {o : Observation} :
    o ∈ observations suffixes r ↔ Filed suffixes r o := by
  constructor
  · intro ho
    cases r with
    | healthCheck => cases ho
    | published m =>
        rw [observations, ofPublished] at ho
        split at ho
        · next herror =>
            simp only [List.mem_cons, List.not_mem_nil, or_false] at ho
            obtain rfl | rfl := ho
            · exact .sentFailure (eq_of_beq herror)
            · exact .published m
        · rw [List.mem_singleton.1 ho]
          exact .published m
    | consumed m =>
        rw [List.mem_singleton.1 ho, ofConsumed]
        split
        · next herror => exact .deliveredFailure herror
        · next hretry => exact .retried hretry
        · next hnormal => exact .consumed hnormal
    | committed m =>
        rw [List.mem_singleton.1 ho]
        exact .committed m
    | acknowledged m =>
        rw [List.mem_singleton.1 ho]
        exact .acknowledged m
  · rintro (m | h | h | h | h | m | m)
    · rw [observations, ofPublished]
      split <;> simp
    · simp [observations, ofPublished, Suffixes.isError, h, Failed.ofPublished]
    · simp [observations, ofConsumed, h]
    · simp [observations, ofConsumed, h]
    · simp [observations, ofConsumed, h, Failed.ofConsumed]
    · exact List.mem_singleton_self _
    · exact List.mem_singleton_self _

/-- The kind of topic that a bucket is for, if it is not for all of them. -/
def topicOf? : Record.Kind → Option Topic.Kind
  | .consumed => some .normal
  | .retried => some .retry
  | .failed => some .error
  | _ => none

theorem Filed.classify {r : Request} {o : Observation} (h : Filed suffixes r o) {kind : Topic.Kind}
    (hkind : topicOf? o.kind = some kind) : suffixes.classify o.topic = kind := by
  cases h with
  | published | committed | acknowledged => cases hkind
  | sentFailure h | consumed h | retried h | deliveredFailure h =>
      obtain rfl := Option.some.inj hkind
      exact h

theorem Filed.reason_given {r : Request} {f : Failed} (h : Filed suffixes r (.failed f)) :
    f.reason = .ofHeaders f.topic f.headers ∧ f.reason.Given f.topic f.headers := by
  cases h with
  | sentFailure | deliveredFailure => exact ⟨rfl, FailureReason.given_ofHeaders _ _⟩

/-- The buckets that a request belongs to. -/
def buckets (suffixes : Suffixes) : Request → List Record.Kind
  | .healthCheck => []
  | .published m =>
      if suffixes.classify m.topic = .error then [.published, .failed] else [.published]
  | .consumed m =>
      match suffixes.classify m.topic with
      | .normal => [.consumed]
      | .retry => [.retried]
      | .error => [.failed]
  | .committed _ => [.committed]
  | .acknowledged _ => [.acknowledged]

variable (suffixes) in
theorem countP_kind_observations (kind : Record.Kind) (r : Request) :
    (observations suffixes r).countP (fun o => o.kind = kind) =
      if kind ∈ buckets suffixes r then 1 else 0 := by
  cases r with
  | healthCheck => rfl
  | published m =>
      by_cases h : suffixes.classify m.topic = .error <;>
        cases kind <;>
          simp [observations, ofPublished, Suffixes.isError, buckets, h, Observation.kind]
  | consumed m =>
      cases h : suffixes.classify m.topic <;>
        cases kind <;> simp [observations, ofConsumed, buckets, h, Observation.kind]
  | committed m => cases kind <;> simp [observations, buckets, Observation.kind]
  | acknowledged m => cases kind <;> simp [observations, buckets, Observation.kind]

theorem mem_buckets_iff {r : Request} {kind : Record.Kind} :
    kind ∈ buckets suffixes r ↔ ∃ o, Filed suffixes r o ∧ o.kind = kind := by
  have hpos : 0 < (observations suffixes r).countP (fun o => o.kind = kind) ↔
      kind ∈ buckets suffixes r := by
    rw [countP_kind_observations]
    split <;> simp [*]
  rw [← hpos, List.countP_pos_iff]
  simp only [mem_observations_iff, decide_eq_true_iff]

theorem count_acceptAll {requests : List Request}
    (hids : (requests.filterMap Request.id?).Nodup) (kind : Record.Kind) :
    (acceptAll suffixes .empty requests).count kind =
      requests.countP fun r => kind ∈ buckets suffixes r := by
  rw [← Store.length_snapshot, (snapshot_acceptAll hids kind).length_eq,
    ← List.countP_eq_length_filter]
  apply countP_logged
  intro r
  rw [countP_kind_observations]
  simp

theorem filed_of_mem_snapshot {requests : List Request} {kind : Record.Kind} {o : Observation}
    (h : o ∈ (acceptAll suffixes .empty requests).snapshot kind) :
    o.kind = kind ∧ ∃ r ∈ requests, Filed suffixes r o := by
  obtain ⟨hkind, r, hr, ho⟩ := exists_of_mem_snapshot h
  exact ⟨hkind, r, hr, mem_observations_iff.1 ho⟩

theorem mem_snapshot_of_filed {requests : List Request}
    (hids : (requests.filterMap Request.id?).Nodup) {r : Request} (hr : r ∈ requests)
    {o : Observation} (h : Filed suffixes r o) :
    o ∈ (acceptAll suffixes .empty requests).snapshot o.kind := by
  rw [(snapshot_acceptAll hids o.kind).mem_iff, List.mem_filter]
  exact ⟨List.mem_flatMap.2 ⟨r, hr, mem_observations_iff.2 h⟩, decide_eq_true rfl⟩

/-- Under an id of its own a request is in its buckets and in no other. -/
theorem exists_mem_snapshot_iff {requests : List Request}
    (hids : (requests.filterMap Request.id?).Nodup) {r : Request} (hr : r ∈ requests)
    {id : String} (hid : r.id? = some id) (kind : Record.Kind) :
    (∃ o ∈ (acceptAll suffixes .empty requests).snapshot kind, o.id = id) ↔
      kind ∈ buckets suffixes r := by
  rw [mem_buckets_iff]
  constructor
  · rintro ⟨o, ho, rfl⟩
    obtain ⟨hkind, r', hr', hfiled⟩ := filed_of_mem_snapshot ho
    have hid' : r'.id? = some o.id := id_of_mem_observations (mem_observations_iff.2 hfiled)
    -- no other request could have left a record under this id
    obtain rfl : r' = r := consistent_of_nodup hids r' hr' r hr _ hid' hid
    exact ⟨o, hfiled, hkind⟩
  · rintro ⟨o, hfiled, rfl⟩
    have hid' : r.id? = some o.id := id_of_mem_observations (mem_observations_iff.2 hfiled)
    exact ⟨o, mem_snapshot_of_filed hids hr hfiled,
      Option.some.inj (hid'.symm.trans hid)⟩

/-- Requests are filed where they belong, and with ids of their own none is lost. Everything
in a store that was filled by requests is what one of them stands for, unchanged. Delivered
messages are in the bucket that suits their topic, failures are about topics for failures and
have the reason that their own headers or their topic give. When all ids are different, a
request is filed in all of its buckets, and only there. A delivered message has exactly one
bucket, and the log alone tells how much is in each. -/
theorem routed_by_topic (suffixes : Suffixes) (requests : List Request) :
    let s := acceptAll suffixes .empty requests
    (∀ kind, ∀ o ∈ s.snapshot kind, o.kind = kind ∧ ∃ r ∈ requests, Filed suffixes r o) ∧
      (∀ o ∈ s.snapshot .consumed, suffixes.classify o.topic = .normal) ∧
      (∀ o ∈ s.snapshot .retried, suffixes.classify o.topic = .retry) ∧
      (∀ o ∈ s.snapshot .failed, suffixes.classify o.topic = .error) ∧
      (∀ f, .failed f ∈ s.snapshot .failed →
        f.reason = .ofHeaders f.topic f.headers ∧ f.reason.Given f.topic f.headers) ∧
      ((requests.filterMap Request.id?).Nodup →
        (∀ r ∈ requests, ∀ o, Filed suffixes r o → o ∈ s.snapshot o.kind) ∧
          (∀ r ∈ requests, ∀ id, r.id? = some id → ∀ kind,
            (∃ o ∈ s.snapshot kind, o.id = id) ↔ kind ∈ buckets suffixes r) ∧
          (∀ m, .consumed m ∈ requests →
            ∃! kind, ∃ o ∈ s.snapshot kind, o.id = m.id) ∧
          ∀ kind, s.count kind = requests.countP fun r => kind ∈ buckets suffixes r) := by
  intro s
  have hfiled : ∀ kind, ∀ o ∈ s.snapshot kind,
      o.kind = kind ∧ ∃ r ∈ requests, Filed suffixes r o :=
    fun kind o ho => filed_of_mem_snapshot ho
  have htopic : ∀ kind topicKind, topicOf? kind = some topicKind → ∀ o ∈ s.snapshot kind,
      suffixes.classify o.topic = topicKind := by
    intro kind topicKind htopic o ho
    obtain ⟨rfl, r, -, hr⟩ := hfiled kind o ho
    exact hr.classify htopic
  refine ⟨hfiled, htopic .consumed _ rfl, htopic .retried _ rfl, htopic .failed _ rfl, ?_, ?_⟩
  · intro f hf
    obtain ⟨-, r, -, hr⟩ := hfiled .failed _ hf
    exact hr.reason_given
  · intro hids
    refine ⟨fun r hr o => mem_snapshot_of_filed hids hr,
      fun r hr id hid => exists_mem_snapshot_iff hids hr hid, ?_, count_acceptAll hids⟩
    intro m hm
    have hone : ∀ kind, (∃ o ∈ s.snapshot kind, o.id = m.id) ↔
        kind ∈ buckets suffixes (.consumed m) := exists_mem_snapshot_iff hids hm rfl
    simp only [hone, buckets]
    split <;> simp

/-- A message sent to a topic for failures counts twice, and one delivered from there once. -/
theorem routed_by_topic_mixed :
    let log : List Request :=
      [.published ⟨"p", "orders.DLT", [0x31], none, .empty⟩, .healthCheck,
        .consumed ⟨"e", "orders.error", 0, 7, [0x31], none, .empty⟩,
        .consumed ⟨"r", "orders.retry", 0, 7, [0x31], none, .empty⟩,
        .consumed ⟨"n", "orders", 0, 7, [0x31], none, .empty⟩,
        .committed ⟨"c", "orders.error", 0, 8, ""⟩, .acknowledged ⟨"a", "orders.retry", []⟩]
    let s := acceptAll .standard .empty log
    (log.filterMap Request.id?).Nodup ∧
      (∀ kind, s.count kind = if kind = .failed then 2 else 1) ∧
      ∃! kind, ∃ o ∈ s.snapshot kind, o.id = "r" := by
  intro log s
  have hids : (log.filterMap Request.id?).Nodup := by decide
  obtain ⟨-, -, hone, hcount⟩ := (routed_by_topic .standard log).2.2.2.2.2 hids
  refine ⟨hids, fun kind => (hcount kind).trans ?_,
    hone ⟨"r", "orders.retry", 0, 7, [0x31], none, .empty⟩ (by simp [log])⟩
  cases kind <;> decide

end Sink

end TopicWatch
