import TopicWatch.Proofs.Json.Buffer
import TopicWatch.Proofs.Json.SkipScalar

/-!
# Where values end

Passing over a value takes a number of steps that does not depend on what is open around the
value, and no more steps than the value has bytes. So it ends at one place, within whatever the
value stands, and a value that is read ends there too.
-/

namespace TopicWatch.Json

/-! ## Values -/

/-- Passing over the value that a text begins with leads to the given rest of it. -/
def Passes (s rest : Bytes) : Prop :=
  ∃ k, k + rest.length ≤ s.length ∧
    ∀ n stack, skipFrom (n + k) stack s = skipOn (skipFrom n) stack rest

/-- Passing over what follows a value up to the end of the bracket around it leads to the given
rest. -/
def PassesOn (b : Bracket) (s rest : Bytes) : Prop :=
  ∃ k, k + rest.length ≤ s.length ∧
    ∀ n stack, skipOn (skipFrom (n + k)) (b :: stack) s = skipOn (skipFrom n) stack rest

/-- Passing over what follows the beginning of a bracket up to its end leads to the given
rest. -/
inductive PassesIn (b : Bracket) (s rest : Bytes) : Prop
  | empty (hclose : skipBlanks s = b.close :: rest)
  | value {d : UInt8} {more after mid : Bytes} (hd : skipBlanks s = d :: more) (hne : d ≠ b.close)
      (hname : skipName b (d :: more) = .ok after) (hvalue : Passes after mid)
      (hon : PassesOn b mid rest)

theorem skipFrom_skipBlanks (n : Nat) (stack : List Bracket) (s : Bytes) :
    skipFrom n stack (skipBlanks s) = skipFrom n stack s := by
  cases n with
  | zero => rfl
  | succ n => rw [skipFrom, skipFrom, skipBlanks_skipBlanks]

theorem Passes.of_skipBlanks {s rest : Bytes} (h : Passes (skipBlanks s) rest) : Passes s rest := by
  obtain ⟨k, hlength, hskip⟩ := h
  refine ⟨k, Nat.le_trans hlength (length_skipBlanks s), fun n stack => ?_⟩
  rw [← skipFrom_skipBlanks, hskip]

/-- Passing over a value leads to one place only. -/
theorem Passes.unique {s rest rest' : Bytes} (h : Passes s rest) (h' : Passes s rest') :
    rest = rest' := by
  obtain ⟨k, -, hskip⟩ := h
  obtain ⟨k', -, hskip'⟩ := h'
  have hone : skipFrom (k' + k) [] s = .ok rest := hskip k' []
  have hother : skipFrom (k' + k) [] s = .ok rest' := Nat.add_comm k k' ▸ hskip' k []
  exact Except.ok.inj (hone.symm.trans hother)

/-- A value is passed over when there are as many steps as bytes. -/
theorem Passes.skipValue {s rest : Bytes} (h : Passes s rest) {steps : Nat}
    (hsteps : s.length ≤ steps) : skipValue steps s = .ok rest := by
  obtain ⟨k, hlength, hskip⟩ := h
  obtain ⟨n, rfl⟩ := Nat.exists_eq_add_of_le' (show k ≤ steps by omega)
  exact hskip n []

theorem passes_scalar {c : UInt8} {s more rest : Bytes} (hc : skipBlanks s = c :: more)
    (hopen : Bracket.ofOpen? c = none) (h : skipScalar c more = .ok rest) : Passes s rest := by
  have hmore := length_of_skipBlanks hc
  have hlength := length_of_skipScalar h
  refine ⟨1, by omega, fun n stack => ?_⟩
  rw [skipFrom, hc]
  simp only [hopen, h]

theorem passesOn_close {b : Bracket} {s rest : Bytes} (h : skipBlanks s = b.close :: rest) :
    PassesOn b s rest := by
  have hlength := length_of_skipBlanks h
  refine ⟨0, by omega, fun n stack => ?_⟩
  rw [skipOn, unwind, h]
  simp only [if_true]
  rfl

theorem passesOn_comma {b : Bracket} {s more after mid rest : Bytes}
    (hcomma : skipBlanks s = 0x2C :: more) (hname : skipName b more = .ok after)
    (hvalue : Passes after mid) (hon : PassesOn b mid rest) : PassesOn b s rest := by
  obtain ⟨k, hlength, hskip⟩ := hvalue
  obtain ⟨k', hlength', hskip'⟩ := hon
  have hmore := length_of_skipBlanks hcomma
  have hafter := length_of_skipName hname
  have hne : (0x2C : UInt8) ≠ b.close := by cases b <;> decide
  refine ⟨k' + k, by omega, fun n stack => ?_⟩
  rw [skipOn, unwind, hcomma]
  simp only [hne, if_false, if_true, hname]
  rw [← Nat.add_assoc, hskip, hskip']

theorem passes_bracket {b : Bracket} {c : UInt8} {s more rest : Bytes}
    (hc : skipBlanks s = c :: more) (hopen : Bracket.ofOpen? c = some b)
    (h : PassesIn b more rest) : Passes s rest := by
  have hmore := length_of_skipBlanks hc
  cases h with
  | empty hclose =>
      have hlength := length_of_skipBlanks hclose
      refine ⟨1, by omega, fun n stack => ?_⟩
      rw [skipFrom, hc]
      simp only [hopen, hclose, if_true]
  | value hd hne hname hvalue hon =>
      obtain ⟨k, hlength, hskip⟩ := hvalue
      obtain ⟨k', hlength', hskip'⟩ := hon
      have hafter := length_of_skipName hname
      have hblanks := length_skipBlanks more
      rw [hd] at hblanks
      refine ⟨k' + k + 1, by omega, fun n stack => ?_⟩
      rw [← Nat.add_assoc, skipFrom, hc]
      simp only [hopen, hd, hne, if_false, hname]
      rw [← Nat.add_assoc, hskip, hskip']

/-! ## Items and members -/

theorem close_of_nextItem {first : Bool} {s rest : Bytes}
    (h : nextItem first s = .ok (.closed rest)) : skipBlanks s = 0x5D :: rest := by
  unfold nextItem at h
  split at h
  · cases h
  · next c more hblanks =>
      split at h
      · next hclose =>
          obtain rfl := NextItem.closed.inj (Except.ok.inj h)
          rw [hblanks, hclose]
      · split at h
        · cases h
        · split at h
          · split at h
            · cases h
            · split at h <;> cases h
          · cases h

theorem item_of_nextItem_first {s at' : Bytes} (h : nextItem true s = .ok (.item at')) :
    ∃ c more, skipBlanks s = c :: more ∧ c ≠ 0x5D ∧ at' = c :: more := by
  unfold nextItem at h
  split at h
  · cases h
  · next c more hblanks =>
      split at h
      · cases h
      · next hclose =>
          rw [if_pos rfl] at h
          obtain rfl := NextItem.item.inj (Except.ok.inj h)
          exact ⟨c, more, hblanks, hclose, rfl⟩

theorem item_of_nextItem_later {s at' : Bytes} (h : nextItem false s = .ok (.item at')) :
    ∃ more, skipBlanks s = 0x2C :: more ∧ at' = skipBlanks more := by
  unfold nextItem at h
  split at h
  · cases h
  · next c more hblanks =>
      split at h
      · cases h
      · rw [if_neg Bool.false_ne_true] at h
        split at h
        · next hcomma =>
            split at h
            · cases h
            · next d later hd =>
                split at h
                · cases h
                · obtain rfl := NextItem.item.inj (Except.ok.inj h)
                  exact ⟨more, by rw [hblanks, hcomma], hd.symm⟩
        · cases h

theorem exists_of_readName {s at' : Bytes} {name : String}
    (h : readName s = .ok (.name name at')) :
    ∃ t, s = 0x22 :: t ∧ readText t = .ok (name, at') := by
  unfold readName at h
  split at h
  · cases h
  · next c t =>
      split at h
      · next hquote =>
          split at h
          · next hread =>
              obtain ⟨rfl, rfl⟩ := NextMember.name.inj (Except.ok.inj h)
              exact ⟨t, by rw [hquote], hread⟩
          · cases h
      · cases h

theorem close_of_nextMember {first : Bool} {s rest : Bytes}
    (h : nextMember first s = .ok (.closed rest)) : skipBlanks s = 0x7D :: rest := by
  unfold nextMember at h
  split at h
  · cases h
  · next c more hblanks =>
      split at h
      · next hclose =>
          obtain rfl := NextMember.closed.inj (Except.ok.inj h)
          rw [hblanks, hclose]
      · split at h
        · exact absurd h ne_closed_of_readName
        · split at h
          · exact absurd h ne_closed_of_readName
          · cases h

theorem name_of_nextMember_first {s at' : Bytes} {name : String}
    (h : nextMember true s = .ok (.name name at')) :
    ∃ t, skipBlanks s = 0x22 :: t ∧ readText t = .ok (name, at') := by
  unfold nextMember at h
  split at h
  · cases h
  · next c more hblanks =>
      split at h
      · cases h
      · rw [if_pos rfl] at h
        rw [hblanks]
        exact exists_of_readName h

theorem name_of_nextMember_later {s at' : Bytes} {name : String}
    (h : nextMember false s = .ok (.name name at')) :
    ∃ more t, skipBlanks s = 0x2C :: more ∧ skipBlanks more = 0x22 :: t ∧
      readText t = .ok (name, at') := by
  unfold nextMember at h
  split at h
  · cases h
  · next c more hblanks =>
      split at h
      · cases h
      · rw [if_neg Bool.false_ne_true] at h
        split at h
        · next hcomma =>
            obtain ⟨t, ht, hread⟩ := exists_of_readName h
            exact ⟨more, t, by rw [hblanks, hcomma], ht, hread⟩
        · cases h

theorem skipName_object {s t at' after : Bytes} {name : String} (hquote : skipBlanks s = 0x22 :: t)
    (hread : readText t = .ok (name, at')) (hcolon : colon at' = .ok after) :
    skipName .object s = .ok after := by
  simp only [skipName, hquote, if_true, skipText_of_textAfter hread, hcolon]

/-- A reader that ends where passing over the value does. -/
def EndsAsPassed {α : Type} (read : Bytes → Step α) : Prop :=
  ∀ ⦃s a rest⦄, read s = .ok (a, rest) → Passes s rest

/-- A reader of what follows the name of a member that ends where passing over its value
does. -/
def EndsMember {α : Type} (read : Bytes → Step α) : Prop :=
  ∀ ⦃s a rest⦄, read s = .ok (a, rest) → ∃ t, colon s = .ok t ∧ Passes t rest

/-- What passing over the content of a bracket leads to, before the first value in it or behind
another one. -/
def PassesRest (b : Bracket) (first : Bool) (s rest : Bytes) : Prop :=
  if first then PassesIn b s rest else PassesOn b s rest

theorem passesRest_close {b : Bracket} {first : Bool} {s rest : Bytes}
    (h : skipBlanks s = b.close :: rest) : PassesRest b first s rest := by
  cases first with
  | true => exact .empty h
  | false => exact passesOn_close h

theorem passesRest_item {first : Bool} {s at' mid rest : Bytes}
    (h : nextItem first s = .ok (.item at')) (hvalue : Passes at' mid)
    (hon : PassesRest .array false mid rest) : PassesRest .array first s rest := by
  cases first with
  | true =>
      obtain ⟨c, more, hc, hne, rfl⟩ := item_of_nextItem_first h
      exact .value hc hne rfl hvalue hon
  | false =>
      obtain ⟨more, hcomma, rfl⟩ := item_of_nextItem_later h
      exact passesOn_comma hcomma rfl hvalue.of_skipBlanks hon

theorem passes_itemsAfter {α : Type} {item : Bytes → Step α} (hitem : EndsAsPassed item) {n : Nat}
    {first : Bool} {found all : List α} {s rest : Bytes}
    (h : itemsAfter item n first found s = .ok (all, rest)) : PassesRest .array first s rest := by
  replace h := run_of_itemsAfter h
  induction h with
  | closed hnext => exact passesRest_close (close_of_nextItem hnext)
  | item hnext hread _ ih => exact passesRest_item hnext (hitem hread) ih

theorem passesRest_name {first : Bool} {name : String} {s at' after mid rest : Bytes}
    (h : nextMember first s = .ok (.name name at')) (hcolon : colon at' = .ok after)
    (hvalue : Passes after mid) (hon : PassesRest .object false mid rest) :
    PassesRest .object first s rest := by
  cases first with
  | true =>
      obtain ⟨more, hquote, htext⟩ := name_of_nextMember_first h
      have hname := skipName_object (skipBlanks_cons rfl more) htext hcolon
      exact .value hquote (by decide) hname hvalue hon
  | false =>
      obtain ⟨more, t, hcomma, hquote, htext⟩ := name_of_nextMember_later h
      exact passesOn_comma hcomma (skipName_object hquote htext hcolon) hvalue hon

theorem passes_membersAfter {σ : Type} {member : σ → String → Bytes → Step σ}
    (hmember : ∀ found name, EndsMember (member found name)) {n : Nat} {first : Bool}
    {found now : σ} {s rest : Bytes} (h : membersAfter member n first found s = .ok (now, rest)) :
    PassesRest .object first s rest := by
  replace h := run_of_membersAfter h
  induction h with
  | closed hnext => exact passesRest_close (close_of_nextMember hnext)
  | member hnext hread _ ih =>
      obtain ⟨t, hcolon, hvalue⟩ := hmember _ _ hread
      exact passesRest_name hnext hcolon hvalue ih

theorem colon_of_afterColon {α : Type} {read : Bytes → Step α} {s rest : Bytes} {a : α}
    (h : afterColon read s = .ok (a, rest)) :
    ∃ t, colon s = .ok t ∧ read t = .ok (a, rest) := by
  unfold afterColon at h
  split at h
  · next t hcolon => exact ⟨t, hcolon, h⟩
  · cases h

theorem EndsAsPassed.afterColon {α : Type} {read : Bytes → Step α} (h : EndsAsPassed read) :
    EndsMember (afterColon read) := by
  intro s a rest hread
  obtain ⟨t, hcolon, hvalue⟩ := colon_of_afterColon hread
  exact ⟨t, hcolon, h hvalue⟩

theorem EndsAsPassed.map {α β : Type} {read : Bytes → Step α} (h : EndsAsPassed read) (f : α → β) :
    EndsAsPassed fun s => (read s).map fun p => (f p.1, p.2) := by
  intro s b rest hread
  obtain ⟨p, hstep, heq⟩ := exists_of_map hread
  obtain ⟨-, rfl⟩ := Prod.mk.inj heq
  exact h hstep

theorem EndsMember.map {α β : Type} {read : Bytes → Step α} (h : EndsMember read) (f : α → β) :
    EndsMember fun s => (read s).map fun p => (f p.1, p.2) := by
  intro s b rest hread
  obtain ⟨p, hstep, heq⟩ := exists_of_map hread
  obtain ⟨-, rfl⟩ := Prod.mk.inj heq
  exact h hstep

/-! ## Values that are passed over -/

/-- What passing over the rest of a bracket does, if passing over each value in it ends somewhere
and goes on from there. -/
theorem passesOn_of_skipOn {n : Nat}
    (hvalues : ∀ m ≤ n, ∀ {stack : List Bracket} {s rest : Bytes}, skipFrom m stack s = .ok rest →
      ∃ k < m, ∃ mid, Passes s mid ∧ skipOn (skipFrom k) stack mid = .ok rest)
    {b : Bracket} {stack : List Bracket} {s rest : Bytes}
    (h : skipOn (skipFrom n) (b :: stack) s = .ok rest) :
    ∃ k ≤ n, ∃ mid, PassesOn b s mid ∧ skipOn (skipFrom k) stack mid = .ok rest := by
  induction n using Nat.strongRecOn generalizing s with
  | ind n ih =>
      rw [skipOn, unwind] at h
      cases hc : skipBlanks s with
      | nil =>
          rw [hc] at h
          cases h
      | cons c more =>
          simp only [hc] at h
          by_cases hclose : c = b.close
          · subst hclose
            rw [if_pos rfl] at h
            exact ⟨n, Nat.le_refl n, more, passesOn_close hc, h⟩
          · rw [if_neg hclose] at h
            by_cases hcomma : c = 0x2C
            · subst hcomma
              rw [if_pos rfl] at h
              cases hname : skipName b more with
              | error f =>
                  rw [hname] at h
                  cases h
              | ok after =>
                  simp only [hname] at h
                  obtain ⟨k, hk, mid, hvalue, hmore⟩ := hvalues n (Nat.le_refl n) h
                  obtain ⟨j, hj, last, hon, hrest⟩ :=
                    ih k hk (fun m hm => hvalues m (Nat.le_trans hm (Nat.le_of_lt hk))) hmore
                  exact ⟨j, by omega, last, passesOn_comma hc hname hvalue hon, hrest⟩
            · rw [if_neg hcomma] at h
              cases h

theorem passes_of_skipFrom {n : Nat} {stack : List Bracket} {s rest : Bytes}
    (h : skipFrom n stack s = .ok rest) :
    ∃ k < n, ∃ mid, Passes s mid ∧ skipOn (skipFrom k) stack mid = .ok rest := by
  induction n using Nat.strongRecOn generalizing stack s rest with
  | ind n ih =>
      cases n with
      | zero => cases h
      | succ n =>
          rw [skipFrom] at h
          split at h
          · cases h
          · next c more hc =>
              split at h
              · next hopen =>
                  split at h
                  · next after hscalar =>
                      exact ⟨n, Nat.lt_succ_self n, after, passes_scalar hc hopen hscalar, h⟩
                  · cases h
              · next b hopen =>
                  split at h
                  · cases h
                  · next d inner hd =>
                      split at h
                      · next hclose =>
                          rw [hclose] at hd
                          exact ⟨n, Nat.lt_succ_self n, inner,
                            passes_bracket hc hopen (.empty hd), h⟩
                      · next hclose =>
                          split at h
                          · next after hname =>
                              obtain ⟨k, hk, mid, hvalue, hmore⟩ := ih n (Nat.lt_succ_self n) h
                              obtain ⟨j, hj, last, hon, hrest⟩ := passesOn_of_skipOn
                                (fun m hm => ih m (by omega)) hmore
                              exact ⟨j, by omega, last,
                                passes_bracket hc hopen (.value hd hclose hname hvalue hon), hrest⟩
                          · cases h

/-- A value that is passed over within one text is passed over in the same way within every
other one. -/
theorem passes_of_skipValue {steps : Nat} {s rest : Bytes} (h : skipValue steps s = .ok rest) :
    Passes s rest := by
  obtain ⟨k, -, mid, hvalue, hmid⟩ := passes_of_skipFrom h
  obtain rfl : mid = rest := Except.ok.inj hmid
  exact hvalue

theorem endsAsPassed_skipValue (steps : Nat) :
    EndsAsPassed fun t => (skipValue steps t).map ((), ·) := by
  intro t _ rest h
  obtain ⟨mid, hmid, heq⟩ := exists_of_map h
  obtain ⟨-, rfl⟩ := Prod.mk.inj heq
  exact passes_of_skipValue hmid

/-! ## Values that are read -/

theorem endsMember_collect {value : Bytes → Step Value} (h : EndsAsPassed value)
    (found : List (String × Value)) (name : String) : EndsMember (collect value found name) :=
  h.afterColon.map fun v => (name, v) :: found

/-- A value that is read ends where passing over it does. -/
theorem endsAsPassed_readValue (steps opens : Nat) : EndsAsPassed (readValue steps opens) := by
  have hscalar : ∀ {c : UInt8} {s more rest : Bytes} {v : Value}, skipBlanks s = c :: more →
      Bracket.ofOpen? c = none → scalar c more = .ok (v, rest) → Passes s rest :=
    fun hc hopen hread => passes_scalar hc hopen (skipScalar_of_scalar hread)
  induction opens with
  | zero =>
      intro s v rest h
      obtain ⟨c, more, hc, hopen, hread⟩ | ⟨_, _, _, hn, _⟩ | ⟨_, _, _, hn, _⟩ :=
        cases_of_readValue h
      · exact hscalar hc hopen hread
      · cases hn
      · cases hn
  | succ opens ih =>
      intro s v rest h
      obtain ⟨c, more, hc, hopen, hread⟩ | ⟨_, more, _, hn, hc, -, hread⟩ |
        ⟨_, more, _, hn, hc, -, hread⟩ := cases_of_readValue h
      · exact hscalar hc hopen hread
      · cases hn
        exact passes_bracket hc rfl (passes_itemsAfter ih hread)
      · cases hn
        exact passes_bracket hc rfl (passes_membersAfter (endsMember_collect ih) hread)

end TopicWatch.Json
