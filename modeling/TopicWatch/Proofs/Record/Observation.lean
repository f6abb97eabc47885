import Mathlib.Data.List.Nodup
import TopicWatch.Proofs.Json.Buffer
import TopicWatch.Record.Observation

/-!
# Observations survive JSON

An observation is read back from what is written for it, alone or in a list, wherever its kind
stands among its fields and whatever members of other names are added, as long as their values
can be read at all.
-/

namespace TopicWatch.Record

open Json

/-! ## Records of every kind -/

theorem Headers.restores_form : Headers.form.Restores 1 := by
  constructor
  · intro headers
    have htext : Form.text.Restores 0 := Form.restores_text
    have hread := Form.fromValue_map htext headers.entries
    show ((Form.map .text).fromValue ((Form.map .text).toValue headers.entries)).bind _ = _
    rw [hread, Option.bind_some, Keyed.ofPairs_of_ascending headers.ascending,
      Keyed.Map.ofPairs_entries]
  · exact fun headers => Form.plain_map Form.restores_text headers.entries

theorem restores_key {depth : Nat} : (Form.optional .text).Restores depth :=
  Form.restores_text.optional fun _ => nofun

theorem restores_partition {depth : Nat} : (Form.optional .int32).Restores depth :=
  Form.restores_int32.optional fun _ => nofun

theorem restores_offset {depth : Nat} : (Form.optional .int64).Restores depth :=
  Form.restores_int64.optional fun _ => nofun

theorem FailureReason.restores_form : FailureReason.form.Restores 1 := by
  have hfields : Fields.Restores 0 (.cons (.required "kind" .text)
      (.cons (.required "message" .text) .nil)) :=
    ⟨Form.restores_text, Form.restores_text, trivial⟩
  exact Form.restores_record hfields (by decide) fun _ => rfl

theorem Published.restores_fields : Published.fields.Restores 1 :=
  ⟨Form.restores_text, Form.restores_text, Form.restores_bytes, restores_key,
    Headers.restores_form, trivial⟩

theorem Consumed.restores_fields : Consumed.fields.Restores 1 :=
  ⟨Form.restores_text, Form.restores_text, Form.restores_int32, Form.restores_int64,
    Form.restores_bytes, restores_key, Headers.restores_form, trivial⟩

theorem Committed.restores_fields : Committed.fields.Restores 1 :=
  ⟨Form.restores_text, Form.restores_text, Form.restores_int32, Form.restores_int64,
    Form.restores_text, trivial⟩

theorem Acknowledged.restores_fields : Acknowledged.fields.Restores 1 :=
  ⟨Form.restores_text, Form.restores_text, Form.restores_bytes, trivial⟩

theorem Failed.restores_fields : Failed.fields.Restores 1 :=
  ⟨Form.restores_text, Form.restores_text, Form.restores_bytes, restores_key,
    Headers.restores_form, restores_partition, restores_offset, FailureReason.restores_form,
    trivial⟩

namespace Observation

/-- The members of an object of an observation, without its kind. -/
def recordMembers (o : Observation) : List (String × Value) :=
  match o.recordValue with
  | .object ms => ms
  | _ => []

/-- The members of an object of an observation, in the order in which they are written. -/
def members (o : Observation) : List (String × Value) :=
  (tag, .text o.kind.name) :: o.recordMembers

/-- The names of the fields of the records of a kind. -/
def fieldNames : Kind → List String
  | .published => Published.fields.names
  | .consumed | .retried => Consumed.fields.names
  | .committed => Committed.fields.names
  | .acknowledged => Acknowledged.fields.names
  | .failed => Failed.fields.names

/-- The names of the members of an observation. -/
def names (o : Observation) : List String := tag :: fieldNames o.kind

theorem toValue_eq (o : Observation) : form.toValue o = .object o.members := by
  cases o <;> rfl

theorem map_fst_recordMembers (o : Observation) :
    o.recordMembers.map Prod.fst = fieldNames o.kind := by
  cases o <;> exact Fields.map_fst_members _ _

theorem map_fst_members (o : Observation) : o.members.map Prod.fst = o.names := by
  rw [members, List.map_cons, map_fst_recordMembers, names]

theorem nodup_names (o : Observation) : o.names.Nodup := by
  rw [names]
  cases o.kind <;> decide

theorem plain_members (o : Observation) : ∀ m ∈ o.members, m.2.Plain 1 := by
  refine List.forall_mem_cons.2 ⟨.scalar (.text _), ?_⟩
  cases o with
  | published m => exact Published.restores_fields.plain _
  | consumed m | retried m => exact Consumed.restores_fields.plain _
  | committed m => exact Committed.restores_fields.plain _
  | acknowledged m => exact Acknowledged.restores_fields.plain _
  | failed m => exact Failed.restores_fields.plain _

/-- The record of an observation is found among members in any order. -/
theorem ofRecord?_eq (o : Observation) {ms : List (String × Value)}
    (h : (ms.filter fun m => m.1 ∈ fieldNames o.kind).Perm o.recordMembers) :
    ofRecord? o.kind (.object ms) = some o := by
  cases o with
  | published m =>
      have hread : Published.form.fromValue (.object ms) = some m :=
        Form.fromValue_record Published.restores_fields (by decide) (fun _ => rfl) h
      exact congrArg (Option.map published) hread
  | consumed m =>
      have hread : Consumed.form.fromValue (.object ms) = some m :=
        Form.fromValue_record Consumed.restores_fields (by decide) (fun _ => rfl) h
      exact congrArg (Option.map consumed) hread
  | committed m =>
      have hread : Committed.form.fromValue (.object ms) = some m :=
        Form.fromValue_record Committed.restores_fields (by decide) (fun _ => rfl) h
      exact congrArg (Option.map committed) hread
  | acknowledged m =>
      have hread : Acknowledged.form.fromValue (.object ms) = some m :=
        Form.fromValue_record Acknowledged.restores_fields (by decide) (fun _ => rfl) h
      exact congrArg (Option.map acknowledged) hread
  | retried m =>
      have hread : Consumed.form.fromValue (.object ms) = some m :=
        Form.fromValue_record Consumed.restores_fields (by decide) (fun _ => rfl) h
      exact congrArg (Option.map retried) hread
  | failed m =>
      have hread : Failed.form.fromValue (.object ms) = some m :=
        Form.fromValue_record Failed.restores_fields (by decide) (fun _ => rfl) h
      exact congrArg (Option.map failed) hread

/-! ## Reading -/

/-- What was read of an observation after one more buffered member. -/
def Partial.add (found : Partial) (m : String × Value) : Option Partial :=
  if m.1 = tag then
    if found.kind.isSome then none
    else (ofTag? m.2).map fun kind => { found with kind := some kind }
  else some { found with members := m :: found.members }

/-- A member that was buffered could have been read at once. -/
theorem readMember_eq {l : Limits} {found now : Partial} {name : String} {v : Value}
    {s rest : Bytes} (h : afterColon (readValue l.steps l.opens) s = .ok (v, rest))
    (hadd : found.add (name, v) = some now) : readMember l found name s = .ok (now, rest) := by
  rw [Partial.add] at hadd
  rw [readMember]
  split at hadd
  · next htag =>
      split at hadd
      · cases hadd
      · next hnone =>
          obtain ⟨kind, hkind, rfl⟩ := Option.map_eq_some_iff.1 hadd
          have htext : ∃ name, v = .text name := by
            cases v with
            | text name => exact ⟨name, rfl⟩
            | _ => cases hkind
          obtain ⟨text, rfl⟩ := htext
          rw [if_pos htag, if_neg hnone]
          unfold afterColon at h ⊢
          split at h
          · rw [readScalar_of_readValue h (fun _ => nofun) (fun _ => nofun) hkind]
            rfl
          · cases h
  · next htag =>
      obtain rfl := Option.some.inj hadd
      rw [if_neg htag, h]
      rfl

theorem ofTag?_name (kind : Kind) : ofTag? (.text kind.name) = some kind := by
  cases kind <;> rfl

/-- Members other than the kind are kept. -/
theorem foldlM_add_of_ne {ms : List (String × Value)} (h : ∀ m ∈ ms, m.1 ≠ tag)
    (found : Partial) :
    ms.foldlM Partial.add found = some { found with members := ms.reverse ++ found.members } := by
  induction ms generalizing found with
  | nil => rfl
  | cons m ms ih =>
      obtain ⟨hhead, hrest⟩ := List.forall_mem_cons.1 h
      rw [List.foldlM_cons, Partial.add, if_neg hhead]
      show ms.foldlM Partial.add _ = _
      rw [ih hrest, List.reverse_cons, List.append_assoc]
      rfl

/-- These are the members of an observation, in any order, among members of other names. -/
def Shows (o : Observation) (ms : List (String × Value)) : Prop :=
  (ms.filter fun m => m.1 ∈ o.names).Perm o.members

/-- The kind stands somewhere among the fields, and the fields are those of the record. -/
theorem Shows.exists_split {o : Observation} {ms : List (String × Value)} (h : o.Shows ms) :
    ∃ front back, ms = front ++ (tag, .text o.kind.name) :: back ∧
      (∀ m ∈ front ++ back, m.1 ≠ tag) ∧
      ((front ++ back).filter fun m => m.1 ∈ fieldNames o.kind).Perm o.recordMembers := by
  have hmem : (tag, .text o.kind.name) ∈ ms :=
    List.mem_of_mem_filter (h.mem_iff.2 List.mem_cons_self)
  obtain ⟨front, back, rfl⟩ := List.append_of_mem hmem
  have hfields : ((front ++ back).filter fun m => m.1 ∈ o.names).Perm o.recordMembers := by
    rw [Shows, members, List.filter_append, List.filter_cons_of_pos (by simp [names])] at h
    rw [List.filter_append]
    exact (List.perm_middle.symm.trans h).cons_inv
  have hne : ∀ m ∈ front ++ back, m.1 ≠ tag := by
    intro m hm htag
    have hfound : m ∈ o.recordMembers :=
      hfields.mem_iff.1 (List.mem_filter.2 ⟨hm, by simp [htag, names]⟩)
    have hname : m.1 ∈ fieldNames o.kind :=
      map_fst_recordMembers o ▸ List.mem_map_of_mem hfound
    exact (List.nodup_cons.1 o.nodup_names).1 (htag ▸ hname)
  refine ⟨front, back, rfl, hne, ?_⟩
  have hsame : (front ++ back).filter (fun m => m.1 ∈ fieldNames o.kind) =
      (front ++ back).filter fun m => m.1 ∈ o.names := by
    apply List.filter_congr
    intro m hm
    simp [names, hne m hm]
  rw [hsame]
  exact hfields

/-- Members in any order add up to an observation. -/
theorem Shows.foldlM_add {o : Observation} {ms : List (String × Value)} (h : o.Shows ms) :
    ∃ found, ms.foldlM Partial.add ⟨none, []⟩ = some found ∧ ofPartial? found = some o := by
  obtain ⟨front, back, rfl, hne, hfields⟩ := h.exists_split
  have hfront : ∀ m ∈ front, m.1 ≠ tag := fun m hm => hne m (List.mem_append_left _ hm)
  have hback : ∀ m ∈ back, m.1 ≠ tag := fun m hm => hne m (List.mem_append_right _ hm)
  refine ⟨⟨some o.kind, (front ++ back).reverse⟩, ?_, ?_⟩
  · rw [List.foldlM_append, foldlM_add_of_ne hfront]
    show List.foldlM Partial.add _ _ = _
    rw [List.foldlM_cons, Partial.add, if_pos rfl, if_neg (by simp), ofTag?_name]
    show List.foldlM Partial.add _ _ = _
    rw [foldlM_add_of_ne hback, List.append_nil, List.reverse_append]
  · rw [ofPartial?, Option.bind_some, List.reverse_reverse]
    exact o.ofRecord?_eq hfields

/-- What is the object of an observation when it is buffered is read as the observation. -/
theorem fromText_of_readValue {o : Observation} {ms : List (String × Value)} (hshows : o.Shows ms)
    {l : Limits} {s rest : Bytes}
    (h : readValue l.steps l.opens s = .ok (.object ms, rest)) :
    form.fromText l s = .ok (o, rest) := by
  obtain ⟨found, hfold, hfound⟩ := hshows.foldlM_add
  obtain ⟨c, more, -, -, hread⟩ | ⟨_, _, _, _, _, heq, _⟩ |
    ⟨n, more, ms', hopens, hblanks, heq, hread⟩ := cases_of_readValue h
  · exact absurd rfl ((not_container_of_scalar hread).2 ms)
  · cases heq
  · obtain rfl := Value.object.inj heq
    obtain ⟨ms', heq, htake⟩ := exists_members hread
    obtain rfl : ms = ms' := by simpa using heq
    let inner : Limits := { l with opens := n }
    have henter : l.enter = .ok inner := by rw [Limits.enter, hopens]
    have hmember : ∀ found name s v rest now,
        afterColon (readValue l.steps n) s = .ok (v, rest) → found.add (name, v) = some now →
          readMember inner found name s = .ok (now, rest) :=
      fun _ _ _ _ _ _ hvalue hadd => readMember_eq hvalue hadd
    have hmembers := htake hmember _ _ hfold
    simp only [form, hblanks]
    rw [if_neg (by decide), if_pos trivial, henter]
    show Form.accept ofPartial? (membersAfter (readMember inner) l.steps true _ more) = _
    rw [hmembers, Form.accept, hfound]

/-- The observations of what is an array of their objects when it is buffered. -/
theorem list_fromText_of_readValue {os : List Observation} {vs : List Value}
    (hshows : List.Forall₂ (fun v o => ∃ ms, v = .object ms ∧ o.Shows ms) vs os) {l : Limits}
    {s rest : Bytes} (h : readValue l.steps l.opens s = .ok (.array vs, rest)) :
    (Form.list form).fromText l s = .ok (os, rest) := by
  obtain ⟨c, more, -, -, hread⟩ | ⟨n, more, items, hopens, hblanks, heq, hread⟩ |
    ⟨_, _, _, _, _, heq, _⟩ := cases_of_readValue h
  · exact absurd rfl ((not_container_of_scalar hread).1 vs)
  · obtain rfl := Value.array.inj heq
    obtain ⟨vs', heq, htake⟩ := exists_items hread
    obtain rfl : vs = vs' := by simpa using heq
    let inner : Limits := { l with opens := n }
    have henter : l.enter = .ok inner := by rw [Limits.enter, hopens]
    have hitem : ∀ s v rest o, readValue inner.steps inner.opens s = .ok (v, rest) →
        (∃ ms, v = .object ms ∧ o.Shows ms) → form.fromText inner s = .ok (o, rest) := by
      rintro s _ rest o hvalue ⟨ms, rfl, ho⟩
      exact fromText_of_readValue ho hvalue
    have hitems := htake hitem os [] hshows
    simp only [Form.list, hblanks]
    rw [if_pos trivial, henter]
    exact hitems
  · cases heq

/-! ## Spelled members -/

/-- The texts of the members of an observation, as they are written, in any order among those of
members of other names, whose values can be read with at most so many brackets open at once. -/
def SpelledBy (o : Observation) (opens : Nat) (ms : List (String × Bytes)) : Prop :=
  (ms.filter fun m => m.1 ∈ o.names).Perm (o.members.map Value.spelled) ∧
    ∀ m ∈ ms, m.1 ∉ o.names → ∃ v, Spells opens m.2 v

theorem spelledBy_members (o : Observation) (opens : Nat) :
    o.SpelledBy opens (o.members.map Value.spelled) := by
  have hall : ∀ m ∈ o.members.map Value.spelled, m.1 ∈ o.names := by
    intro m hm
    obtain ⟨m, hmember, rfl⟩ := List.mem_map.1 hm
    exact map_fst_members o ▸ List.mem_map_of_mem hmember
  refine ⟨?_, fun m hm hname => absurd (hall m hm) hname⟩
  rw [List.filter_eq_self.2 fun m hm => decide_eq_true (hall m hm)]

theorem eq_of_mem_members {o : Observation} {name : String} {v w : Value}
    (hv : (name, v) ∈ o.members) (hw : (name, w) ∈ o.members) : v = w := by
  have hnodup : (o.members.map Prod.fst).Nodup := map_fst_members o ▸ o.nodup_names
  exact (Prod.mk.inj (List.inj_on_of_nodup_map hnodup hv hw rfl)).2

/-- The values of spelled members are those of an observation. -/
theorem SpelledBy.exists_shows {o : Observation} {opens : Nat} {ms : List (String × Bytes)}
    (h : o.SpelledBy opens ms) (hopens : 1 ≤ opens) :
    ∃ vs, List.Forall₂ (fun m v => m.1 = v.1 ∧ Spells opens m.2 v.2) ms vs ∧ o.Shows vs := by
  obtain ⟨hown, hother⟩ := h
  have hvalue : ∀ m ∈ ms, ∃ v, Spells opens m.2 v ∧ (m.1 ∈ o.names → (m.1, v) ∈ o.members) := by
    intro m hm
    by_cases hname : m.1 ∈ o.names
    · have hspelled : m ∈ o.members.map Value.spelled :=
        hown.mem_iff.1 (List.mem_filter.2 ⟨hm, decide_eq_true hname⟩)
      obtain ⟨m, hmember, rfl⟩ := List.mem_map.1 hspelled
      exact ⟨m.2, ((o.plain_members m hmember).mono hopens).spells, fun _ => hmember⟩
    · obtain ⟨v, hv⟩ := hother m hm hname
      exact ⟨v, hv, fun hmem => absurd hmem hname⟩
  choose! value hspells hmember using hvalue
  let valued (m : String × Bytes) : String × Value := (m.1, value m)
  refine ⟨ms.map valued, ?_, ?_⟩
  · rw [List.forall₂_map_right_iff, List.forall₂_same]
    exact fun m hm => ⟨rfl, hspells m hm⟩
  · have hsame : ∀ m ∈ o.members, valued (Value.spelled m) = m := by
      intro m hm
      have hin : Value.spelled m ∈ ms :=
        List.mem_of_mem_filter (hown.mem_iff.2 (List.mem_map_of_mem hm))
      have hname : m.1 ∈ o.names := map_fst_members o ▸ List.mem_map_of_mem hm
      exact Prod.ext rfl (eq_of_mem_members (hmember _ hin hname) hm)
    have hfilter : (ms.map valued).filter (fun m => m.1 ∈ o.names) =
        (ms.filter fun m => m.1 ∈ o.names).map valued := List.filter_map
    rw [Shows, hfilter]
    refine (hown.map valued).trans (.of_eq ?_)
    rw [List.map_map]
    exact (List.map_congr_left hsame).trans (List.map_id _)

theorem decode_objectSpelled {o : Observation} {ms : List (String × Bytes)}
    (h : o.SpelledBy (greatestDepth - 1) ms) : form.decode (objectSpelled ms) = .ok o := by
  obtain ⟨vs, hspells, hshows⟩ := h.exists_shows (by decide)
  exact decode_of_spells (spells_object hspells) fun _ hread => fromText_of_readValue hshows hread

theorem decode_arraySpelled {os : List Observation} {docs : List (List (String × Bytes))}
    (h : List.Forall₂ (fun o ms => o.SpelledBy (greatestDepth - 2) ms) os docs) :
    (Form.list form).decode (arraySpelled (docs.map objectSpelled)) = .ok os := by
  have hitems : ∃ vs, List.Forall₂ (Spells (greatestDepth - 1)) (docs.map objectSpelled) vs ∧
      List.Forall₂ (fun v o => ∃ ms, v = .object ms ∧ o.Shows ms) vs os := by
    induction h with
    | nil => exact ⟨[], .nil, .nil⟩
    | cons hspelled _ ih =>
        obtain ⟨vs, hspells, hshows⟩ := ih
        obtain ⟨ms, hms, ho⟩ := hspelled.exists_shows (by decide)
        exact ⟨.object ms :: vs, .cons (spells_object hms) hspells, .cons ⟨ms, rfl, ho⟩ hshows⟩
  obtain ⟨vs, hspells, hshows⟩ := hitems
  exact decode_of_spells (spells_array hspells) fun _ hread =>
    list_fromText_of_readValue hshows hread

theorem encode_eq (o : Observation) :
    form.encode o = objectSpelled (o.members.map Value.spelled) := by
  rw [Form.encode, toValue_eq, Value.write_object_eq]

theorem encode_list_eq (os : List Observation) :
    (Form.list form).encode os =
      arraySpelled ((os.map fun o => o.members.map Value.spelled).map objectSpelled) := by
  have hall : ((os.map form.toValue).map Value.write) =
      (os.map fun o => o.members.map Value.spelled).map objectSpelled := by
    rw [List.map_map, List.map_map]
    exact List.map_congr_left fun o _ => encode_eq o
  show (Value.array (os.map form.toValue)).write = _
  rw [Value.write_array_eq, hall]

theorem decode_encode (o : Observation) : form.decode (form.encode o) = .ok o := by
  rw [encode_eq]
  exact decode_objectSpelled (o.spelledBy_members _)

theorem decode_encode_list (os : List Observation) :
    (Form.list form).decode ((Form.list form).encode os) = .ok os := by
  rw [encode_list_eq]
  apply decode_arraySpelled
  rw [List.forall₂_map_right_iff, List.forall₂_same]
  exact fun o _ => o.spelledBy_members _

/-- Observations survive JSON. An observation, and a list of observations, is what is read from
the text that is written for it, so no two have the same text, not even a delivered and a
retried message. It is still what is read when the members are put in another order, the kind
anywhere among the fields, and when members of other names are put between them, as long as
the value of each can be read at all and no more brackets are open at once, counted from the
outermost, than ever may. -/
theorem survives_json :
    (∀ o, form.decode (form.encode o) = .ok o) ∧
      (∀ os, (Form.list form).decode ((Form.list form).encode os) = .ok os) ∧
      (∀ o o', form.encode o = form.encode o' → o = o') ∧
      (∀ o ms, SpelledBy o (greatestDepth - 1) ms → form.decode (objectSpelled ms) = .ok o) ∧
      ∀ os docs, List.Forall₂ (fun o ms => SpelledBy o (greatestDepth - 2) ms) os docs →
        (Form.list form).decode (arraySpelled (docs.map objectSpelled)) = .ok os := by
  refine ⟨decode_encode, decode_encode_list, ?_, fun o ms => decode_objectSpelled,
    fun os docs => decode_arraySpelled⟩
  intro o o' heq
  have hsame := decode_encode o
  rw [heq, decode_encode o'] at hsame
  exact (Except.ok.inj hsame).symm

/-- The kind stands last, and a member of another name is an array in an array. -/
example :
    (form.decode (objectSpelled [("id", writeText "a"), ("seen", [0x5B, 0x5B, 0x5D, 0x20, 0x5D]),
      ("topic", writeText "orders"), ("message", writeText "AQ=="),
      ("kind", writeText "acknowledged")])).toOption =
      some (.acknowledged ⟨"a", "orders", [1]⟩) := by
  decide +kernel

end Observation

end TopicWatch.Record
