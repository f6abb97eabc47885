import TopicWatch.Proofs.Harness
import TopicWatch.Publish.Recorder

/-!
# The recorder numbers like a log

The next offset of a partition is the number of messages that went to it, which every message
keeps so. The receipts of a partition therefore count up from zero without gaps, and the messages
that were sent are kept as they were sent.
-/

namespace TopicWatch.Publish

open Record

/-- The broker after messages were sent one after the other. -/
def after {π : Type} (publisher : Publisher π) (broker : π) (messages : List Outgoing) : π :=
  messages.foldl (fun broker m => (publisher broker m).2) broker

theorem answers_append {π : Type} (publisher : Publisher π) (broker : π)
    (earlier later : List Outgoing) :
    answers publisher broker (earlier ++ later) =
      answers publisher broker earlier ++
        answers publisher (after publisher broker earlier) later := by
  induction earlier generalizing broker with
  | nil => rfl
  | cons m earlier ih =>
      rw [List.cons_append, answers, ih]
      rfl

theorem length_answers {π : Type} (publisher : Publisher π) (broker : π)
    (messages : List Outgoing) :
    (answers publisher broker messages).length = messages.length := by
  induction messages generalizing broker with
  | nil => rfl
  | cons m messages ih => rw [answers, List.length_cons, List.length_cons, ih]

namespace Recorder

/-- How many of the messages go to a partition. -/
def countAt (p : String × Partition) (messages : List Outgoing) : Nat :=
  messages.countP fun m => place m = p

/-- The offset in a partition that an answer tells of. -/
def offsetAt? (p : String × Partition) : Except Error Receipt → Option Int
  | .ok receipt =>
      if (receipt.topic, receipt.partition) = p then some receipt.offset.toInt else none
  | .error _ => none

/-- The offsets in a partition that answers tell of, in order. -/
def offsetsAt (p : String × Partition) (results : List (Except Error Receipt)) : List Int :=
  results.filterMap (offsetAt? p)

/-- A message that names the partition it goes to. -/
def placed (m : Outgoing) : Outgoing := m.withPartition (m.partition.getD 0)

/-- The next offset of every partition is the number of messages that went to it. -/
def Counts (r : Recorder) : Prop :=
  ∀ p, nextOffset p r.next = Int64.ofNat (countAt p r.sent)

theorem countAt_append_cons (p : String × Partition) (earlier later : List Outgoing)
    (m : Outgoing) :
    countAt p (earlier ++ m :: later) =
      countAt p earlier + (countAt p later + if place m = p then 1 else 0) := by
  simp only [countAt, List.countP_append, List.countP_cons, decide_eq_true_eq]

theorem countAt_le_length (p : String × Partition) (messages : List Outgoing) :
    countAt p messages ≤ messages.length :=
  List.countP_le_length

/-- Counting a message of one partition leaves every other one alone. -/
theorem nextOffset_advance (p q : String × Partition)
    (next : List ((String × Partition) × Offset)) :
    nextOffset q (advance p next) = if q = p then nextOffset p next + 1 else nextOffset q next := by
  induction next with
  | nil =>
      by_cases hq : q = p
      · subst hq
        simp [advance, nextOffset]
      · simp [advance, nextOffset, hq]
  | cons entry rest ih =>
      obtain ⟨known, offset⟩ := entry
      by_cases hp : p = known
      · subst hp
        by_cases hq : q = p <;> simp [advance, nextOffset, hq]
      · by_cases hq : q = known
        · subst hq
          simp [advance, nextOffset, hp, Ne.symm hp]
        · simp only [advance, nextOffset, hp, hq, if_false, ih]

/-- One more message keeps every next offset the number of messages. -/
theorem Counts.publish {r : Recorder} (h : Counts r) (m : Outgoing) :
    Counts (Recorder.publish r m).2 := by
  intro p
  show nextOffset p (advance (place m) r.next) = Int64.ofNat (countAt p (r.sent ++ [m]))
  rw [nextOffset_advance, countAt_append_cons, h p, h (place m)]
  by_cases hp : p = place m
  · subst hp
    rw [if_pos rfl, if_pos rfl, Int64.ofNat_add]
    rfl
  · rw [if_neg hp, if_neg (Ne.symm hp)]
    rfl

theorem counts_after {r : Recorder} (h : Counts r) (messages : List Outgoing) :
    Counts (after Recorder.publish r messages) := by
  induction messages generalizing r with
  | nil => exact h
  | cons m messages ih => exact ih (h.publish m)

theorem sent_after (r : Recorder) (messages : List Outgoing) :
    (after Recorder.publish r messages).sent = r.sent ++ messages := by
  induction messages generalizing r with
  | nil => exact (List.append_nil _).symm
  | cons m messages ih =>
      calc (after Recorder.publish r (m :: messages)).sent
          = (Recorder.publish r m).2.sent ++ messages := ih (Recorder.publish r m).2
        _ = r.sent ++ m :: messages := List.append_assoc r.sent [m] messages

/-- Messages are answered alike whether or not they name partition zero. -/
theorem answers_placed {r r' : Recorder} (h : r.next = r'.next) (messages : List Outgoing) :
    answers publish r (messages.map placed) = answers publish r' messages := by
  induction messages generalizing r r' with
  | nil => rfl
  | cons m messages ih =>
      have hfirst : (publish r (placed m)).1 = (publish r' m).1 := by
        simp only [publish, place, placed, Outgoing.withPartition, Option.getD_some, h]
      have hnext : (publish r (placed m)).2.next = (publish r' m).2.next := by
        simp only [publish, place, placed, Outgoing.withPartition, Option.getD_some, h]
      rw [List.map_cons, answers, answers, hfirst, ih hnext]

/-- The answer to a message that follows others. -/
def told (earlier : List Outgoing) (m : Outgoing) : Receipt :=
  ⟨m.topic, m.partition.getD 0, Int64.ofNat (countAt (place m) earlier)⟩

/-- A message is told how many messages went to its partition before. -/
theorem publish_after (earlier : List Outgoing) (m : Outgoing) :
    (publish (after publish .empty earlier) m).1 = .ok (told earlier m) := by
  have hcounts := counts_after (r := .empty) (fun _ => rfl) earlier (place m)
  rw [sent_after] at hcounts
  rw [publish, hcounts]
  rfl

theorem answers_concat (earlier : List Outgoing) (m : Outgoing) :
    answers publish .empty (earlier ++ [m]) =
      answers publish .empty earlier ++ [.ok (told earlier m)] := by
  rw [answers_append, answers, publish_after]
  rfl

theorem getElem?_answers (earlier later : List Outgoing) (m : Outgoing) :
    (answers publish .empty (earlier ++ m :: later))[earlier.length]? =
      some (.ok (told earlier m)) := by
  rw [answers_append, List.getElem?_append_right (Nat.le_of_eq (length_answers _ _ _)),
    length_answers, Nat.sub_self, answers, publish_after]
  rfl

/-- The offset that a message is told does not wrap around. -/
theorem toInt_offset_told {earlier : List Outgoing} (hfew : earlier.length < Nat.pow 2 63)
    (m : Outgoing) : (told earlier m).offset.toInt = countAt (place m) earlier :=
  Int64.toInt_ofNat_of_lt (Nat.lt_of_le_of_lt (countAt_le_length _ _) hfew)

/-- The offsets of a partition count up from zero. -/
theorem offsetsAt_answers (p : String × Partition) {messages : List Outgoing}
    (hfew : messages.length < Nat.pow 2 63) :
    offsetsAt p (answers publish .empty messages) =
      (List.range (countAt p messages)).map Int.ofNat := by
  -- the last message adds the next offset of its partition
  induction messages using List.reverseRecOn with
  | nil => rfl
  | append_singleton earlier m ih =>
      rw [List.length_append, List.length_singleton] at hfew
      have hearlier : earlier.length < Nat.pow 2 63 := by omega
      have hone : offsetAt? p (.ok (told earlier m)) =
          if place m = p then some ((told earlier m).offset.toInt) else none := rfl
      rw [answers_concat, offsetsAt, List.filterMap_append, ← offsetsAt, ih hearlier,
        countAt_append_cons, List.filterMap_cons, hone]
      by_cases hp : place m = p
      · subst hp
        rw [if_pos rfl, if_pos rfl, toInt_offset_told hearlier]
        calc (List.range (countAt (place m) earlier)).map Int.ofNat ++
              [(countAt (place m) earlier : Int)]
            = (List.range (countAt (place m) earlier) ++ [countAt (place m) earlier]).map
                Int.ofNat := by rw [List.map_append, List.map_singleton]; rfl
          _ = (List.range (countAt (place m) earlier + 1)).map Int.ofNat := by
                rw [List.range_succ]
      · rw [if_neg hp, if_neg hp]
        exact List.append_nil _

/-- A receipt that was given tells of an offset below the number of messages. -/
theorem offset_lt_of_mem {messages : List Outgoing} (hfew : messages.length < Nat.pow 2 63)
    {receipt : Receipt} (h : .ok receipt ∈ answers publish .empty messages) :
    receipt.offset.toInt < countAt (receipt.topic, receipt.partition) messages := by
  have hmem : receipt.offset.toInt ∈
      offsetsAt (receipt.topic, receipt.partition) (answers publish .empty messages) :=
    List.mem_filterMap.2 ⟨.ok receipt, h, if_pos rfl⟩
  rw [offsetsAt_answers _ hfew] at hmem
  obtain ⟨n, hn, heq⟩ := List.mem_map.1 hmem
  rw [← heq]
  exact Int.ofNat_lt.2 (List.mem_range.1 hn)

theorem nodup_answers {messages : List Outgoing} (hfew : messages.length < Nat.pow 2 63) :
    (answers publish .empty messages).Nodup := by
  induction messages using List.reverseRecOn with
  | nil => exact List.nodup_nil
  | append_singleton earlier m ih =>
      rw [List.length_append, List.length_singleton] at hfew
      have hearlier : earlier.length < Nat.pow 2 63 := by omega
      have hnew : .ok (told earlier m) ∉ answers publish .empty earlier := by
        intro hmem
        have hlt := offset_lt_of_mem hearlier hmem
        rw [toInt_offset_told hearlier] at hlt
        exact Int.lt_irrefl _ hlt
      rw [answers_concat]
      apply List.nodup_append.2
      refine ⟨ih hearlier, List.nodup_singleton _, ?_⟩
      intro a ha b hb heq
      exact hnew (List.mem_singleton.1 hb ▸ heq ▸ ha)

/-- The recorder numbers like a log. Every message is confirmed, and is told the partition that it
goes to and how many messages went there before it, in unbounded integers. So the offsets of each
partition count up from zero without gaps, and no two receipts are equal. Partition zero is the
one of messages that name none. The messages are kept as they were sent, in order. -/
theorem numbers_like_log (messages : List Outgoing) (hfew : messages.length < Nat.pow 2 63) :
    let results := answers publish .empty messages
    results.length = messages.length ∧
      (∀ earlier m later, messages = earlier ++ m :: later →
        ∃ receipt : Receipt, results[earlier.length]? = some (.ok receipt) ∧ receipt.topic = m.topic ∧
          receipt.partition = m.partition.getD 0 ∧
          receipt.offset.toInt = countAt (m.topic, m.partition.getD 0) earlier) ∧
      results.Nodup ∧
      (∀ p, offsetsAt p results = (List.range (countAt p messages)).map Int.ofNat) ∧
      answers publish .empty (messages.map placed) = results ∧
      (after publish .empty messages).sent = messages := by
  refine ⟨length_answers _ _ _, ?_, nodup_answers hfew, fun p => offsetsAt_answers p hfew,
    answers_placed rfl messages, sent_after .empty messages⟩
  rintro earlier m later rfl
  have hearlier : earlier.length < Nat.pow 2 63 := by
    rw [List.length_append] at hfew
    omega
  exact ⟨told earlier m, getElem?_answers earlier later m, rfl, rfl,
    toInt_offset_told hearlier m⟩

/-- Messages to the same partition count on whether or not they name it, and those in between to
another partition and to another topic do not count. -/
theorem numbers_like_log_unnamed :
    let zero := Outgoing.raw "orders" [0x61]
    let messages := [zero, zero.withPartition 1, zero.withPartition 0,
      Outgoing.raw "payments" [0x61], zero]
    messages.length < Nat.pow 2 63 ∧ (answers publish .empty messages).Nodup ∧
      offsetsAt ("orders", 0) (answers publish .empty messages) = [0, 1, 2] ∧
      answers publish .empty (messages.map placed) = answers publish .empty messages ∧
      (after publish .empty messages).sent = messages := by
  intro zero messages
  have hfew : messages.length < Nat.pow 2 63 := by decide
  obtain ⟨-, -, hnodup, hoffsets, hplaced, hsent⟩ := numbers_like_log messages hfew
  exact ⟨hfew, hnodup, hoffsets ("orders", 0), hplaced, hsent⟩

end Recorder

end TopicWatch.Publish
