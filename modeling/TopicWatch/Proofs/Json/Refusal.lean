import TopicWatch.Proofs.Json.Presentation

/-!
# Refused records

An object that has a field twice or lacks one without a default is read as no record, and neither
is an array that ends before such a field. A reader of members counts the fields that it has found:
each member of a field adds one to its number, and what was found once is not found again.
-/

namespace TopicWatch.Json

/-- What each step over a member counts is counted over all of them. -/
theorem Chain.count {σ : Type} {step : σ → Member → σ → Prop} {s s' : σ} {ms : List Member}
    (h : Chain step s ms s') (size : σ → Nat) (name : String)
    (hstep : ∀ {s m s'}, step s m s' → size s' = size s + [m.name].count name) :
    size s' = size s + (ms.map Member.name).count name := by
  induction h with
  | nil s => rfl
  | @cons m ms s mid s' head tail ih =>
      have hcons : (m :: ms).map Member.name = [m.name] ++ ms.map Member.name := rfl
      rw [ih, hstep head, hcons, List.count_append, Nat.add_assoc]

/-- What each step keeps is kept by a run. -/
theorem Chain.invariant {σ α : Type} {step : σ → α → σ → Prop} {P : σ → Prop} {s s' : σ}
    {as : List α} (h : Chain step s as s')
    (hstep : ∀ a ∈ as, ∀ {s s'}, step s a s' → P s → P s') (hs : P s) : P s' := by
  induction h with
  | nil s => exact hs
  | cons head tail ih =>
      obtain ⟨hfirst, hmore⟩ := List.forall_mem_cons.1 hstep
      exact ih hmore (hfirst head hs)

namespace Fields

variable {types : List Type} {fields : Fields types} {l : Limits}

/-- The names of the fields that an object has to have. -/
def required : {types : List Type} → Fields types → List String
  | _, .nil => []
  | _, .cons field rest =>
      if field.whenMissing.isSome then rest.required else field.name :: rest.required

/-- Whether an array of so many items has all the fields that it has to have, and no item more than
there are fields. -/
def fits : {types : List Type} → Fields types → Nat → Bool
  | _, fields, 0 => fields.short.isSome
  | _, .nil, _ + 1 => false
  | _, .cons _ rest, n + 1 => rest.fits n

/-- The texts of objects that have a field twice or lack one that they have to have, and of arrays
that lack one. -/
inductive Faulty (fields : Fields types) : Bytes → Prop
  | twice {ms : List Member} {blanks : Bytes} {name : String}
      (hms : ∀ m ∈ ms, Wellformed m.value.text) (hname : name ∈ fields.names)
      (htwice : 2 ≤ (ms.map Member.name).count name) (hblanks : Blanks blanks) :
      Faulty fields (enclosed .object (ms.map Member.bytes) blanks)
  | missing {ms : List Member} {blanks : Bytes} {name : String}
      (hms : ∀ m ∈ ms, Wellformed m.value.text) (hname : name ∈ fields.required)
      (hmissing : name ∉ ms.map Member.name) (hblanks : Blanks blanks) :
      Faulty fields (enclosed .object (ms.map Member.bytes) blanks)
  | short {ps : List Padded} {blanks : Bytes} (hps : ∀ p ∈ ps, Wellformed p.text)
      (hshort : fields.fits ps.length = false) (hblanks : Blanks blanks) :
      Faulty fields (enclosed .array (ps.map Padded.bytes) blanks)

theorem Faulty.begins {t : Bytes} (h : fields.Faulty t) : Begins t := by
  cases h <;> exact begins_enclosed _ _ _

/-! ## Counting fields -/

/-- Whether the field of a name was found. -/
def has (name : String) : {types : List Type} → Fields types → Slots types → Bool
  | _, .nil, _ => false
  | _, .cons field rest, slots =>
      if name = field.name then slots.1.isSome else rest.has name slots.2

theorem has_cons (name : String) {α : Type} (field : Field α) (rest : Fields types)
    (first : Option α) (later : Slots types) :
    (cons field rest).has name (first, later) =
      if name = field.name then first.isSome else rest.has name later := rfl

theorem has_vacant (name : String) (fields : Fields types) :
    fields.has name fields.vacant = false := by
  induction fields with
  | nil => rfl
  | cons field rest ih =>
      show (if name = field.name then false else rest.has name rest.vacant) = false
      rw [ih, ite_self]

/-- The member of a field adds one to the number of times that it was found, and nothing to those of
the others. -/
theorem has_of_readMember {name : String} {s rest : Bytes} {slots next : Slots types}
    (h : readMember l s name fields slots = some (.ok (next, rest))) (other : String) :
    (fields.has other next).toNat = (fields.has other slots).toNat + [name].count other := by
  induction fields with
  | nil => cases h
  | cons field more ih =>
      rw [readMember] at h
      obtain ⟨first, later⟩ := slots
      split at h
      · next hname =>
          subst hname
          split at h
          · cases h
          · next hfirst =>
              have hnew : first.isSome = false := Bool.eq_false_iff.2 hfirst
              obtain ⟨p, -, heq⟩ := exists_of_map (Option.some.inj h)
              obtain ⟨rfl, -⟩ := Prod.mk.inj heq
              rw [has_cons, has_cons]
              by_cases hother : other = field.name
              · rw [if_pos hother, if_pos hother, hother, List.count_cons_self, hnew]
                rfl
              · rw [if_neg hother, if_neg hother, List.count_eq_zero.2 (by simpa using hother)]
                rfl
      · next hname =>
          obtain ⟨step, hstep, heq⟩ := Option.map_eq_some_iff.1 h
          obtain ⟨p, rfl, hp⟩ := exists_of_map heq
          obtain ⟨rfl, rfl⟩ := Prod.mk.inj hp
          rw [has_cons, has_cons]
          by_cases hother : other = field.name
          · rw [if_pos hother, if_pos hother,
              List.count_eq_zero.2 (by simpa [hother] using Ne.symm hname)]
            rfl
          · rw [if_neg hother, if_neg hother]
            exact ih hstep

theorem isSome_readMember {name : String} (h : name ∈ fields.names) (slots : Slots types)
    (s : Bytes) : (readMember l s name fields slots).isSome := by
  induction fields with
  | nil => exact absurd h List.not_mem_nil
  | cons field rest ih =>
      rw [readMember]
      split
      · split <;> rfl
      · next hne =>
          rw [Option.isSome_map]
          exact ih ((List.mem_cons.1 h).resolve_left hne) slots.2

theorem has_of_readAny {name : String} {s rest : Bytes} {slots next : Slots types}
    (h : fields.readAny l slots name s = .ok (next, rest)) {other : String}
    (hother : other ∈ fields.names) :
    (fields.has other next).toNat = (fields.has other slots).toNat + [name].count other := by
  unfold readAny at h
  split at h
  · next step hstep =>
      subst h
      exact has_of_readMember hstep other
  · next hnone =>
      -- what is no field is none of those that are counted
      have hne : name ≠ other := by
        rintro rfl
        have hsome := isSome_readMember (l := l) hother slots s
        rw [hnone] at hsome
        cases hsome
      obtain ⟨p, -, heq⟩ := exists_of_map h
      obtain ⟨rfl, -⟩ := Prod.mk.inj heq
      rw [List.count_eq_zero.2 (by simpa using Ne.symm hne), Nat.add_zero]

theorem required_subset (fields : Fields types) : fields.required ⊆ fields.names := by
  induction fields with
  | nil => exact List.Subset.refl _
  | cons field rest ih =>
      rw [required, names]
      split
      · exact List.subset_cons_of_subset _ ih
      · exact List.cons_subset_cons _ ih

/-- A row is made only where every field without a default was found. -/
theorem has_of_fill (hnames : fields.names.Nodup) {slots : Slots types} {row : Row types}
    (h : fields.fill slots = some row) {name : String} (hname : name ∈ fields.required) :
    fields.has name slots = true := by
  induction fields with
  | nil => exact absurd hname List.not_mem_nil
  | cons field rest ih =>
      obtain ⟨first, later⟩ := slots
      obtain ⟨hfresh, hrest⟩ := List.nodup_cons.1 hnames
      obtain ⟨a, ha, hmore⟩ := Option.bind_eq_some_iff.1 h
      obtain ⟨row', hrow, -⟩ := Option.bind_eq_some_iff.1 hmore
      have hlater : name ∈ rest.required → (cons field rest).has name (first, later) = true := by
        intro hmem
        have hne : name ≠ field.name := fun heq => hfresh (heq ▸ required_subset rest hmem)
        rw [has_cons, if_neg hne]
        exact ih hrest hrow hmem
      rw [required] at hname
      split at hname
      · exact hlater hname
      · next hnone =>
          obtain rfl | hmem := List.mem_cons.1 hname
          · rw [Option.not_isSome_iff_eq_none.1 hnone] at ha
            rw [has_cons, if_pos rfl]
            cases first with
            | none => cases ha
            | some _ => rfl
          · exact hlater hmem

theorem count_of_readObject {depth : Nat} (hfields : fields.Legible depth) {ms : List Member}
    (hms : ∀ m ∈ ms, Wellformed m.value.text) {blanks : Bytes} (hblanks : Blanks blanks)
    {rest rest' : Bytes} {row : Row types}
    (h : fields.readObject l (itemsSpelled true (ms.map Member.bytes) ++ (blanks ++ 0x7D :: rest)) =
      .ok (row, rest')) :
    (∀ name ∈ fields.names, (ms.map Member.name).count name ≤ 1) ∧
      ∀ name ∈ fields.required, name ∈ ms.map Member.name := by
  rw [readObject_eq] at h
  obtain ⟨slots, hmembers, hfill⟩ := exists_of_accept h
  obtain ⟨-, hchain⟩ := chain_of_membersAfter (endsMember_readAny hfields.ends l)
    (fun m hm => (hms m hm).stands) blank_nil hblanks (Nat.le_refl _) hmembers
  have hcount : ∀ name ∈ fields.names,
      (fields.has name slots).toNat = (ms.map Member.name).count name := by
    intro name hname
    have hall := hchain.count (fun slots => (fields.has name slots).toNat) name
      fun {_ _ _} ⟨_, _, _, hread⟩ => has_of_readAny hread hname
    rwa [has_vacant, Bool.toNat_false, Nat.zero_add] at hall
  refine ⟨fun name hname => hcount name hname ▸ Bool.toNat_le _, fun name hname => ?_⟩
  have hfound := hcount name (required_subset fields hname)
  rw [has_of_fill hfields.distinct hfill hname] at hfound
  exact List.count_pos_iff.1 (hfound ▸ Nat.one_pos)

/-- An array that is read as a record has all the items that it has to have. -/
theorem fits_of_readArray (hends : fields.EndAsPassed) {ps : List Padded}
    (hps : ∀ p ∈ ps, Wellformed p.text) {first : Bool} {blanks blanks' : Bytes}
    (hblanks : Blank blanks) (hblanks' : Blanks blanks') {rest rest' : Bytes} {row : Row types}
    (h : readArray l fields first
      (blanks ++ (itemsSpelled first (ps.map Padded.bytes) ++ (blanks' ++ 0x5D :: rest))) =
        .ok (row, rest')) : fields.fits ps.length = true := by
  induction fields generalizing ps first blanks with
  | nil =>
      cases ps with
      | nil => rfl
      | cons p ps =>
          have hitem := nextItem_part (hps p List.mem_cons_self).stands.begins hblanks first
            (ps.map Padded.bytes) (blanks' ++ 0x5D :: rest)
          obtain ⟨after, hclose, -⟩ := exists_of_map h
          have hnone := closeArray_of_item hitem
          rw [List.map_cons] at hclose
          rw [hclose] at hnone
          cases hnone
  | cons field more ih =>
      cases ps with
      | nil =>
          rw [readArray, List.map_nil, nextItem_close hblanks hblanks'.blank] at h
          simp only at h
          split at h
          · next hshort =>
              show (Fields.cons field more).short.isSome = true
              rw [hshort]
              rfl
          · cases h
      | cons p ps =>
          obtain ⟨hp, hmore⟩ := List.forall_mem_cons.1 hps
          have hbehind : EndsNumber (p.after ++ (itemsSpelled false (ps.map Padded.bytes) ++
              (blanks' ++ 0x5D :: rest))) :=
            p.after_blanks.endsNumber (endsNumber_parts .array _ hblanks' rest)
          rw [readArray, List.map_cons, nextItem_part hp.stands.begins hblanks] at h
          simp only at h
          split at h
          · cases h
          · next a after hvalue =>
              obtain rfl := (hends.1 l hvalue).unique (hp.stands.passes hbehind)
              obtain ⟨q, hrest, heq⟩ := exists_of_map h
              obtain ⟨-, rfl⟩ := Prod.mk.inj heq
              exact ih hends.2 hmore p.after_blanks.blank hrest

end Fields

/-- An object that is read as a record has each field at most once, and all that it has to have. -/
theorem Form.count_of_record {α : Type} {types : List Type} {fields : Fields types}
    {depth : Nat} (hfields : fields.Legible depth) {make : Row types → α}
    {row : α → Row types} {ms : List Member} (hms : ∀ m ∈ ms, Wellformed m.value.text)
    {blanks : Bytes} (hblanks : Blanks blanks) {l : Limits} {behind rest : Bytes} {a : α}
    (h : (record fields make row).fromText l
      (enclosed .object (ms.map Member.bytes) blanks ++ behind) = .ok (a, rest)) :
    (∀ name ∈ fields.names, (ms.map Member.name).count name ≤ 1) ∧
      ∀ name ∈ fields.required, name ∈ ms.map Member.name := by
  simp only [record, skipBlanks_enclosed, Bracket.opening, Bracket.close] at h
  obtain ⟨inner, -, hinner⟩ := exists_of_bind h
  obtain ⟨p, hobject, -⟩ := exists_of_map hinner
  exact Fields.count_of_readObject hfields hms hblanks hobject

/-- No record is read from a faulty text. -/
theorem Form.refuses_faulty {α : Type} {types : List Type} {fields : Fields types}
    {depth : Nat} (hfields : fields.Legible depth) {make : Row types → α}
    {row : α → Row types} {p : Padded} (h : fields.Faulty p.text) {l : Limits} {behind : Bytes}
    {read : α × Bytes} : (record fields make row).fromText l (p.bytes ++ behind) ≠ .ok read := by
  obtain ⟨a, rest⟩ := read
  intro hread
  rw [fromText_record_padded h.begins] at hread
  generalize p.after ++ behind = behind at hread
  generalize p.text = t at h hread
  cases h with
  | twice hms hname htwice hblanks =>
      have hcount := (count_of_record hfields hms hblanks hread).1 _ hname
      omega
  | missing hms hname hmissing hblanks =>
      exact hmissing ((count_of_record hfields hms hblanks hread).2 _ hname)
  | short hps hshort hblanks =>
      simp only [record, skipBlanks_enclosed, Bracket.opening, Bracket.close] at hread
      obtain ⟨inner, -, hinner⟩ := exists_of_bind hread
      obtain ⟨p, harray, -⟩ := exists_of_map hinner
      have hfits := Fields.fits_of_readArray hfields.ends hps blank_nil hblanks harray
      rw [hshort] at hfits
      cases hfits

end TopicWatch.Json
