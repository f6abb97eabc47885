import TopicWatch.Proofs.Json.Consumption

/-!
# How much values take

What is passed over, buffered or read as a record moves the reader on, and never back. A null
takes its four letters, and a string or a name at least its characters and its quotes.
-/

namespace TopicWatch.Json

namespace Takes

variable {α β : Type} {read : Bytes → Step α} {weight : α → Nat}

theorem mono (h : Takes read weight) {least : α → Nat} (hle : ∀ a, least a ≤ weight a) :
    Takes read least :=
  fun _ a _ hread => Nat.le_trans (Nat.add_le_add_left (hle a) _) (h hread)

theorem map (h : Takes read weight) (f : α → β) {least : β → Nat}
    (hle : ∀ a, least (f a) ≤ weight a) :
    Takes (fun s => (read s).map fun p => (f p.1, p.2)) least := by
  intro s b rest hread
  obtain ⟨p, hstep, heq⟩ := exists_of_map hread
  obtain ⟨rfl, rfl⟩ := Prod.mk.inj heq
  exact Nat.le_trans (Nat.add_le_add_left (hle p.1) _) (h hstep)

theorem accept (h : Takes read weight) (f : α → Option β) {least : β → Nat}
    (hle : ∀ a b, f a = some b → least b ≤ weight a) :
    Takes (fun s => Form.accept f (read s)) least := by
  intro s b rest hread
  obtain ⟨a, hstep, hf⟩ := exists_of_accept hread
  exact Nat.le_trans (Nat.add_le_add_left (hle a b hf) _) (h hstep)

theorem afterColon (h : Takes read weight) : Takes (afterColon read) fun a => weight a + 1 := by
  intro s a rest hread
  obtain ⟨t, hvalue, hcolon⟩ := exists_of_afterColon hread
  have hlength := h hvalue
  show rest.length + (weight a + 1) ≤ s.length
  omega

end Takes

/-! ## Values that are passed over -/

theorem length_of_skipScalar {c : UInt8} {s rest : Bytes} (h : skipScalar c s = .ok rest) :
    rest.length ≤ s.length := by
  have hletters : ∀ {word : Bytes}, literal word s = .ok rest → rest.length ≤ s.length :=
    fun hword => Nat.le_of_add_right_le (length_of_literal hword)
  unfold skipScalar at h
  split at h
  · exact hletters h
  split at h
  · exact hletters h
  split at h
  · exact hletters h
  split at h
  · exact length_of_skipText h
  split at h
  · exact Nat.le_of_lt (length_of_skipNumber h)
  split at h
  · exact Nat.le_of_lt_succ (length_of_skipNumber h)
  · cases h

theorem length_of_skipName {b : Bracket} {s rest : Bytes} (h : skipName b s = .ok rest) :
    rest.length ≤ s.length := by
  unfold skipName at h
  split at h
  · exact Nat.le_of_eq (congrArg List.length (Except.ok.inj h)).symm
  · cases h
  · next c more hblanks =>
      have hmore := length_of_skipBlanks hblanks
      split at h
      · split at h
        · next after hname =>
            have htext := length_of_skipText hname
            have hcolon := length_of_colon h
            omega
        · cases h
      · cases h

theorem length_of_unwind {stack open' : List Bracket} {s rest : Bytes}
    (h : unwind stack s = .ok (open', rest)) : rest.length ≤ s.length := by
  induction stack generalizing s with
  | nil =>
      obtain ⟨-, rfl⟩ := Prod.mk.inj (Except.ok.inj h)
      exact Nat.le_refl _
  | cons b stack ih =>
      rw [unwind] at h
      split at h
      · cases h
      · next c more hblanks =>
          have hmore := length_of_skipBlanks hblanks
          split at h
          · exact Nat.le_trans (ih h) (Nat.le_of_succ_le hmore)
          · split at h
            · split at h
              · next after hname =>
                  obtain ⟨-, rfl⟩ := Prod.mk.inj (Except.ok.inj h)
                  exact Nat.le_trans (length_of_skipName hname) (Nat.le_of_succ_le hmore)
              · cases h
            · cases h

theorem length_of_skipOn {more : List Bracket → Bytes → Except Fault Bytes}
    (hmore : ∀ {stack s rest}, more stack s = .ok rest → rest.length ≤ s.length)
    {stack : List Bracket} {s rest : Bytes} (h : skipOn more stack s = .ok rest) :
    rest.length ≤ s.length := by
  unfold skipOn at h
  split at h
  · next hunwind =>
      obtain rfl := Except.ok.inj h
      exact length_of_unwind hunwind
  · next hunwind => exact Nat.le_trans (hmore h) (length_of_unwind hunwind)
  · cases h

theorem length_of_skipFrom {n : Nat} {stack : List Bracket} {s rest : Bytes}
    (h : skipFrom n stack s = .ok rest) : rest.length ≤ s.length := by
  induction n generalizing stack s rest with
  | zero => cases h
  | succ n ih =>
      rw [skipFrom] at h
      split at h
      · cases h
      · next c more hblanks =>
          have hfirst := length_of_skipBlanks hblanks
          split at h
          · split at h
            · next after hscalar =>
                have hrest := length_of_skipOn ih h
                have hafter := length_of_skipScalar hscalar
                omega
            · cases h
          · split at h
            · cases h
            · next d behind hinside =>
                have hsecond := length_of_skipBlanks hinside
                split at h
                · have hrest := length_of_skipOn ih h
                  omega
                · split at h
                  · next after hname =>
                      have hrest := ih h
                      have hafter := length_of_skipName hname
                      rw [List.length_cons] at hafter
                      omega
                  · cases h

theorem takes_skipValue (steps : Nat) :
    Takes (fun s => (skipValue steps s).map ((), ·)) fun _ => 0 := by
  intro s a rest h
  obtain ⟨after, hskip, heq⟩ := exists_of_map h
  obtain ⟨-, rfl⟩ := Prod.mk.inj heq
  exact length_of_skipFrom hskip

/-! ## Loops -/

theorem takes_itemsAfter {α : Type} {item : Bytes → Step α}
    (hitem : Takes item fun _ => 0) (n : Nat) (first : Bool) (found : List α) :
    Takes (itemsAfter item n first found) fun _ => 0 := by
  intro s all rest h
  replace h := run_of_itemsAfter h
  induction h with
  | closed hnext => exact Nat.le_of_succ_le (length_of_nextItem_closed hnext)
  | item hnext hread _ ih =>
      have hbegin := length_of_nextItem_item hnext
      have hone := hitem hread
      omega

/-- When each member takes what it adds to the weight of what was found, an object takes the
whole weight and its closing brace. -/
theorem length_of_membersAfter {σ : Type} {member : σ → String → Bytes → Step σ}
    {weight : σ → Nat}
    (hmember : ∀ ⦃found name s now rest⦄, member found name s = .ok (now, rest) →
      rest.length + weight now ≤ s.length + (name.length + 2) + weight found)
    {n : Nat} {first : Bool} {found now : σ} {s rest : Bytes}
    (h : membersAfter member n first found s = .ok (now, rest)) :
    rest.length + weight now + 1 ≤ s.length + weight found := by
  replace h := run_of_membersAfter h
  induction h with
  | closed hnext =>
      have hclose := length_of_nextMember_closed hnext
      omega
  | member hnext hread _ ih =>
      have hname := length_of_nextMember_name hnext
      have hone := hmember hread
      omega

theorem takes_membersAfter {σ : Type} {member : σ → String → Bytes → Step σ}
    (hmember : ∀ found name, Takes (member found name) fun _ => 0) (n : Nat) (first : Bool)
    (found : σ) : Takes (membersAfter member n first found) fun _ => 0 := by
  intro s now rest h
  let weight : σ → Nat := fun _ => 0
  have hstep : ∀ ⦃found name s now rest⦄, member found name s = .ok (now, rest) →
      rest.length + weight now ≤ s.length + (name.length + 2) + weight found :=
    fun found name s now rest hread =>
      Nat.le_trans (hmember found name hread) (Nat.le_add_right _ _)
  exact Nat.le_of_succ_le (length_of_membersAfter hstep h)

/-! ## Generic values -/

/-- The bytes that a value takes at least: the letters of a null, the characters and the quotes
of a string. -/
def Value.least : Value → Nat
  | .null => 4
  | .text s => s.length + 2
  | _ => 0

theorem length_of_scalar {c : UInt8} {s rest : Bytes} {v : Value}
    (h : scalar c s = .ok (v, rest)) : rest.length + v.least ≤ s.length + 1 := by
  have hletters : ∀ {word : Bytes} {w : Value}, w.least ≤ word.length + 1 →
      (literal word s).map (w, ·) = .ok (v, rest) → rest.length + v.least ≤ s.length + 1 := by
    intro word w hleast hread
    obtain ⟨after, hword, heq⟩ := exists_of_map hread
    obtain ⟨rfl, rfl⟩ := Prod.mk.inj heq
    have hlength := length_of_literal hword
    omega
  have hnumber : ∀ {negative : Bool} {t : Bytes}, t.length ≤ s.length + 1 →
      (readNumber negative t).map (fun p => (Value.number p.1, p.2)) = .ok (v, rest) →
      rest.length + v.least ≤ s.length + 1 := by
    intro negative t ht hread
    obtain ⟨p, hnumber, heq⟩ := exists_of_map hread
    obtain ⟨rfl, rfl⟩ := Prod.mk.inj heq
    exact Nat.le_trans (length_of_readNumber hnumber) ht
  unfold scalar at h
  split at h
  · exact hletters (by decide) h
  split at h
  · exact hletters (by decide) h
  split at h
  · exact hletters (by decide) h
  split at h
  · have htext : Takes (fun t => (readText t).map fun p => (Value.text p.1, p.2)) fun v =>
        v.least - 1 := takes_readText.map Value.text fun _ => Nat.le_refl _
    have hlength : rest.length + (v.least - 1) ≤ s.length := htext h
    omega
  split at h
  · exact hnumber (Nat.le_succ _) h
  split at h
  · exact hnumber (Nat.le_refl _) h
  · cases h

theorem takes_readWith (steps : Nat) {inner : Option (Bytes → Step Value)}
    (hinner : ∀ value, inner = some value → Takes value fun _ => 0) :
    Takes (readWith steps inner) fun _ => 0 := by
  intro s v rest h
  unfold readWith at h
  split at h
  · cases h
  · next c more hblanks =>
      have hmore := length_of_skipBlanks hblanks
      split at h
      · have hscalar := length_of_scalar h
        show rest.length ≤ s.length
        omega
      · cases h
      · next value _ =>
          have harray : Takes (fun t => (itemsAfter value steps true [] t).map fun p =>
              (Value.array p.1, p.2)) fun _ => 0 :=
            (takes_itemsAfter (hinner value rfl) steps true []).map Value.array
              fun _ => Nat.le_refl _
          exact Nat.le_trans (harray h) (Nat.le_of_succ_le hmore)
      · next value _ =>
          have hmember : ∀ (found : List (String × Value)) (name : String),
              Takes (fun t => (afterColon value t).map fun p => ((name, p.1) :: found, p.2))
                fun _ => 0 :=
            fun found name => (hinner value rfl).afterColon.map (fun v => (name, v) :: found)
              fun _ => Nat.zero_le _
          have hobject : Takes (fun t => (membersAfter (fun found name at' =>
              (afterColon value at').map fun p => ((name, p.1) :: found, p.2)) steps true [] t).map
              fun p => (Value.object p.1.reverse, p.2)) fun _ => 0 :=
            (takes_membersAfter hmember steps true []).map (fun ms => Value.object ms.reverse)
              fun _ => Nat.le_refl _
          exact Nat.le_trans (hobject h) (Nat.le_of_succ_le hmore)

theorem takes_readValue (steps opens : Nat) : Takes (readValue steps opens) fun _ => 0 := by
  induction opens with
  | zero => exact takes_readWith steps fun _ h => nomatch h
  | succ n ih =>
      refine takes_readWith steps fun value h => ?_
      obtain rfl := Option.some.inj h
      exact ih

/-! ## Forms -/

namespace Form

variable {α β : Type}

/-- A form whose values never move the reader back. -/
def Advances (form : Form α) : Prop := ∀ l, Takes (form.fromText l) fun _ => 0

theorem takes_readScalar {want : Value → Option α} {weight : α → Nat}
    (hwant : ∀ v a, want v = some a → weight a ≤ v.least) : Takes (readScalar want) weight := by
  intro s a rest h
  unfold readScalar at h
  split at h
  · cases h
  · next c more hblanks =>
      have hmore := length_of_skipBlanks hblanks
      split at h
      · cases h
      · obtain ⟨v, hscalar, hv⟩ := exists_of_accept h
        have hvalue := length_of_scalar hscalar
        have hleast := hwant v a hv
        omega

/-- A string takes its characters and its quotes. -/
theorem takes_text (l : Limits) : Takes (text.fromText l) fun s => s.length + 2 := by
  refine takes_readScalar fun v s h => ?_
  split at h
  · obtain rfl := Option.some.inj h
    exact Nat.le_refl _
  · cases h

/-- A null takes its four letters. -/
theorem takes_null (l : Limits) : Takes (null.fromText l) fun _ => 4 := by
  refine takes_readScalar fun v s h => ?_
  split at h
  · exact Nat.le_refl _
  · cases h

theorem advances_text : text.Advances := fun l => (takes_text l).mono fun _ => Nat.zero_le _

theorem Advances.restrict {form : Form α} (h : form.Advances) (read : α → Option β)
    (show' : β → α) : (form.restrict read show').Advances :=
  fun l => (h l).accept read fun _ _ _ => Nat.le_refl _

theorem advances_integer (least greatest : Int) : (integer least greatest).Advances :=
  fun _ => takes_readScalar fun _ _ _ => Nat.zero_le _

theorem Advances.optional {form : Form α} (h : form.Advances) : form.optional.Advances := by
  intro l s a rest hread
  have hblanks := length_skipBlanks s
  simp only [Form.optional] at hread
  split at hread
  · next more hmore =>
      obtain ⟨after, hword, heq⟩ := exists_of_map hread
      obtain ⟨-, rfl⟩ := Prod.mk.inj heq
      have hlength := length_of_literal hword
      have hfirst := length_of_skipBlanks hmore
      show after.length ≤ s.length
      omega
  · have hsome : Takes (fun t => (form.fromText l t).map fun p => (some p.1, p.2)) fun _ => 0 :=
      (h l).map some fun _ => Nat.le_refl _
    exact Nat.le_trans (hsome hread) hblanks

/-- A reader that takes an opening bracket and goes on inside it. -/
theorem takes_bracket {l : Limits} {read : Limits → Bytes → Step α} {weight : α → Nat}
    (hread : ∀ inner, Takes (read inner) weight) :
    Takes (fun s => l.enter.bind fun inner => read inner s) weight := by
  intro s a rest h
  obtain ⟨inner, -, hinner⟩ := exists_of_bind h
  exact hread inner hinner

theorem Advances.map {form : Form α} (h : form.Advances) : form.map.Advances := by
  intro l s a rest hread
  simp only [Form.map] at hread
  split at hread
  · cases hread
  · next c more hblanks =>
      have hmore := length_of_skipBlanks hblanks
      split at hread
      · have hmembers : Takes (fun t => l.enter.bind fun inner =>
            membersAfter (fun entries k at' => (afterColon (form.fromText inner) at').map fun p =>
              (Keyed.insert k p.1 entries, p.2)) l.steps true [] t) fun _ => 0 :=
          takes_bracket fun inner => takes_membersAfter (fun entries k =>
            (h inner).afterColon.map (fun a => Keyed.insert k a entries) fun _ => Nat.zero_le _)
            l.steps true []
        exact Nat.le_trans (hmembers hread) (Nat.le_of_succ_le hmore)
      · cases hread

section Names

variable {table : List (String × α)} {weight : α → Nat}

theorem takes_readNamedNull (htable : ∀ k a, lookUp table k = some a → weight a ≤ k.length) :
    Takes (readNamedNull table) fun a => weight a + 2 := by
  have hname : Takes (fun s => accept (lookUp table) (text.fromText ⟨0, 0⟩ s)) fun a =>
      weight a + 2 :=
    (takes_text ⟨0, 0⟩).accept (lookUp table) fun k a hk => Nat.add_le_add_right (htable k a hk) 2
  intro s a rest h
  unfold readNamedNull at h
  split at h
  · cases h
  · next b behind hread =>
      have hfirst : behind.length + (weight b + 2) ≤ s.length := hname hread
      split at h
      · cases h
      · next after hnull =>
          have hsecond : after.length + 5 ≤ behind.length :=
            (takes_null ⟨0, 0⟩).afterColon hnull
          split at h
          · cases h
          · next c done hblanks =>
              have hclose := length_of_skipBlanks hblanks
              split at h
              · obtain ⟨rfl, rfl⟩ := Prod.mk.inj (Except.ok.inj h)
                show done.length + (weight b + 2) ≤ s.length
                omega
              · cases h

/-- A name takes its characters and its quotes, whether it stands alone or in an object. -/
theorem takes_named (htable : ∀ k a, lookUp table k = some a → weight a ≤ k.length)
    (name : α → String) (l : Limits) :
    Takes ((named table name).fromText l) fun a => weight a + 2 := by
  have htext : Takes (fun s => accept (lookUp table) (readText s)) fun a => weight a + 1 :=
    takes_readText.accept (lookUp table) fun k a hk => Nat.succ_le_succ (htable k a hk)
  have hobject : Takes (fun s => l.enter.bind fun _ => readNamedNull table s) fun a =>
      weight a + 2 := takes_bracket fun _ => takes_readNamedNull htable
  intro s a rest h
  simp only [named] at h
  split at h
  · cases h
  · next c more hblanks =>
      have hmore := length_of_skipBlanks hblanks
      split at h
      · have hlength : rest.length + (weight a + 1) ≤ more.length := htext h
        show rest.length + (weight a + 2) ≤ s.length
        omega
      · split at h
        · have hlength : rest.length + (weight a + 2) ≤ more.length := hobject h
          show rest.length + (weight a + 2) ≤ s.length
          omega
        · cases h

end Names

end Form

/-! ## Records -/

namespace Fields

/-- The values of no field move the reader back. -/
def Advance : {types : List Type} → Fields types → Prop
  | _, .nil => True
  | _, .cons field rest => field.form.Advances ∧ Advance rest

theorem length_of_readMember {l : Limits} {s : Bytes} {name : String} {types : List Type}
    {fields : Fields types} (h : fields.Advance) {slots now : Slots types} {rest : Bytes}
    (hread : readMember l s name fields slots = some (.ok (now, rest))) :
    rest.length ≤ s.length := by
  induction fields with
  | nil => cases hread
  | cons field fields ih =>
      rw [readMember] at hread
      split at hread
      · split at hread
        · cases hread
        · have hvalue : Takes (fun s => (afterColon (field.form.fromText l) s).map fun p =>
              ((some p.1, slots.2), p.2)) fun _ => 0 :=
            (h.1 l).afterColon.map (fun a => (some a, slots.2)) fun _ => Nat.zero_le _
          exact hvalue (Option.some.inj hread)
      · obtain ⟨step, hstep, hmap⟩ := Option.map_eq_some_iff.1 hread
        obtain ⟨p, rfl, heq⟩ := exists_of_map hmap
        obtain ⟨-, rfl⟩ := Prod.mk.inj heq
        exact ih h.2 hstep

theorem takes_readObject {types : List Type} {fields : Fields types} (h : fields.Advance)
    (l : Limits) : Takes (fields.readObject l) fun _ => 0 := by
  have hskip : ∀ slots : Slots types, Takes (fun s =>
      (afterColon (fun t => (skipValue l.steps t).map ((), ·)) s).map fun p => (slots, p.2))
      fun _ => 0 :=
    fun slots => (takes_skipValue l.steps).afterColon.map (fun _ => slots) fun _ => Nat.zero_le _
  intro s row rest hobject
  obtain ⟨found, hmembers, -⟩ := exists_of_accept hobject
  refine takes_membersAfter (fun slots name => ?_) l.steps true fields.vacant hmembers
  intro s now rest hread
  simp only at hread
  split at hread
  · next step hstep => exact length_of_readMember h (hread ▸ hstep)
  · exact hskip slots hread

theorem takes_readArray {types : List Type} {fields : Fields types} (h : fields.Advance)
    (l : Limits) (first : Bool) : Takes (readArray l fields first) fun _ => 0 := by
  intro s row rest hread
  induction fields generalizing first s with
  | nil =>
      rw [readArray] at hread
      obtain ⟨after, hclose, heq⟩ := exists_of_map hread
      obtain ⟨-, rfl⟩ := Prod.mk.inj heq
      exact Nat.le_of_succ_le (length_of_closeArray hclose)
  | cons field fields ih =>
      rw [readArray] at hread
      split at hread
      · cases hread
      · next after hnext =>
          have hclosed := length_of_nextItem_closed hnext
          split at hread
          · obtain ⟨-, rfl⟩ := Prod.mk.inj (Except.ok.inj hread)
            exact Nat.le_of_succ_le hclosed
          · cases hread
      · next at' hnext =>
          have hitem := length_of_nextItem_item hnext
          split at hread
          · cases hread
          · next a after hvalue =>
              have hfirst : after.length ≤ at'.length := h.1 l hvalue
              obtain ⟨p, hmore, heq⟩ := exists_of_map hread
              obtain ⟨-, rfl⟩ := Prod.mk.inj heq
              have hrest : p.2.length ≤ after.length := ih h.2 false hmore
              show p.2.length ≤ s.length
              omega

end Fields

/-- A record does not move the reader back when its fields do not. -/
theorem Form.advances_record {α : Type} {types : List Type} {fields : Fields types}
    (h : fields.Advance) (make : Row types → α) (row : α → Row types) :
    (record fields make row).Advances := by
  intro l s a rest hread
  simp only [record] at hread
  split at hread
  · cases hread
  · next c more hblanks =>
      have hmore := length_of_skipBlanks hblanks
      split at hread
      · have harray : Takes (fun t => l.enter.bind fun inner =>
            (Fields.readArray inner fields true t).map fun p => (make p.1, p.2)) fun _ => 0 :=
          takes_bracket fun inner =>
            (Fields.takes_readArray h inner true).map make fun _ => Nat.le_refl _
        exact Nat.le_trans (harray hread) (Nat.le_of_succ_le hmore)
      · split at hread
        · have hobject : Takes (fun t => l.enter.bind fun inner =>
              (fields.readObject inner t).map fun p => (make p.1, p.2)) fun _ => 0 :=
            takes_bracket fun inner =>
              (Fields.takes_readObject h inner).map make fun _ => Nat.le_refl _
          exact Nat.le_trans (hobject hread) (Nat.le_of_succ_le hmore)
        · cases hread

end TopicWatch.Json
