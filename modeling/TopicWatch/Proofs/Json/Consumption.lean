import Mathlib.Data.List.Basic
import TopicWatch.Json.Record

/-!
# How much a reader takes

No reader gives back more bytes than it was given. A reader that gives a value has taken at
least as many bytes as the value needs to be written at all, however it was spelled.
-/

namespace TopicWatch.Json

/-- A reader that has taken at least so many bytes whenever it gives a result. -/
def Takes {α : Type} (read : Bytes → Step α) (weight : α → Nat) : Prop :=
  ∀ ⦃s a rest⦄, read s = .ok (a, rest) → rest.length + weight a ≤ s.length

/-! ## Outcomes of outcomes -/

theorem exists_of_map {α β : Type} {step : Except Fault α} {f : α → β} {b : β}
    (h : step.map f = .ok b) : ∃ a, step = .ok a ∧ f a = b := by
  cases step with
  | error e => cases h
  | ok a => exact ⟨a, rfl, Except.ok.inj h⟩

theorem exists_fst_of_map {α β : Type} {step : Except Fault α} {f : α → β × Bytes} {b : β}
    {rest : Bytes} (h : step.map f = .ok (b, rest)) : ∃ a, (f a).1 = b := by
  obtain ⟨a, -, heq⟩ := exists_of_map h
  exact ⟨a, congrArg Prod.fst heq⟩

theorem exists_of_bind {α β : Type} {step : Except Fault α} {f : α → Except Fault β} {b : β}
    (h : step.bind f = .ok b) : ∃ a, step = .ok a ∧ f a = .ok b := by
  cases step with
  | error e => cases h
  | ok a => exact ⟨a, rfl, h⟩

theorem exists_of_accept {α β : Type} {step : Step α} {f : α → Option β} {b : β} {rest : Bytes}
    (h : Form.accept f step = .ok (b, rest)) : ∃ a, step = .ok (a, rest) ∧ f a = some b := by
  cases step with
  | error e => cases h
  | ok p =>
      simp only [Form.accept] at h
      split at h
      · next hf =>
          obtain ⟨rfl, rfl⟩ := Prod.mk.inj (Except.ok.inj h)
          exact ⟨p.1, rfl, hf⟩
      · cases h

/-! ## Tokens -/

theorem length_skipBlanks (s : Bytes) : (skipBlanks s).length ≤ s.length :=
  (List.dropWhile_sublist _).length_le

theorem length_of_skipBlanks {s rest : Bytes} {c : UInt8} (h : skipBlanks s = c :: rest) :
    rest.length + 1 ≤ s.length := by
  have hle := length_skipBlanks s
  rwa [h] at hle

theorem length_of_literal {word s rest : Bytes} (h : literal word s = .ok rest) :
    rest.length + word.length ≤ s.length := by
  induction word generalizing s with
  | nil =>
      obtain rfl := Except.ok.inj h
      exact Nat.le_refl _
  | cons w word ih =>
      cases s with
      | nil => cases h
      | cons c s =>
          rw [literal] at h
          split at h
          · exact Nat.succ_le_succ (ih h)
          · cases h

theorem length_of_decode? {s : Bytes} {t : String} (h : Utf8.decode? s = some t) :
    t.length ≤ s.length := by
  have hpieces : (Utf8.pieces s).length ≤ s.length := by
    clear h
    induction hn : s.length using Nat.strongRecOn generalizing s with
    | ind n ih =>
        cases s with
        | nil =>
            rw [Utf8.pieces_nil]
            exact Nat.zero_le n
        | cons b rest =>
            have hrest := Utf8.next_length_le b rest
            have hmore := ih (Utf8.next b rest).2.length
              (hn ▸ Nat.lt_succ_of_le hrest) rfl
            rw [Utf8.pieces_cons, List.length_cons, ← hn, List.length_cons]
            exact Nat.succ_le_succ (Nat.le_trans hmore hrest)
  simp only [Utf8.decode?] at h
  split at h
  · obtain rfl := Option.some.inj h
    rw [String.length_ofList]
    exact Nat.le_trans (List.length_filterMap_le _ _) (by rwa [List.length_map])
  · cases h

/-- A string takes a byte for each character that it stands for, and one for its end. -/
theorem length_of_textAfter {read : Bytes} {high : Option Nat} {s rest : Bytes} {t : String}
    (h : textAfter read high s = .ok (t, rest)) :
    rest.length + t.length + 1 ≤ s.length + read.length := by
  -- an escape is at least as long as the bytes of its character
  fun_induction textAfter read high s with
  | case4 read high _ _ _ _ s _ _ ch _ ih =>
      have hchar := ch.utf8Size_le_four
      have hrest := ih h
      simp only [List.length_append, List.length_reverse, String.length_utf8EncodeChar,
        List.length_cons] at hrest ⊢
      omega
  | case5 read high _ _ _ _ s _ _ half _ ih =>
      have hrest := ih h
      simp only [List.length_cons]
      omega
  | case9 read high _ s _ _ _ _ _ ih =>
      have hrest := ih h
      simp only [List.length_cons] at hrest ⊢
      omega
  | case12 read high s _ t' ht =>
      obtain ⟨rfl, rfl⟩ := Prod.mk.inj (Except.ok.inj h)
      have hchars := length_of_decode? ht
      rw [List.length_reverse] at hchars
      simp only [List.length_cons]
      omega
  | case15 read high _ s _ _ _ _ _ _ ih =>
      have hrest := ih h
      simp only [List.length_cons] at hrest ⊢
      omega
  | _ => cases h

theorem takes_readText : Takes readText fun t => t.length + 1 := by
  intro s t rest h
  have hlength := length_of_textAfter h
  rwa [List.length_nil, Nat.add_zero, Nat.add_assoc] at hlength

theorem length_of_skipText {s rest : Bytes} (h : skipText s = .ok rest) :
    rest.length ≤ s.length := by
  fun_induction skipText s with
  | case3 _ _ _ _ s _ ih =>
      have hrest := ih h
      simp only [List.length_cons]
      omega
  | case6 _ s _ _ _ ih =>
      have hrest := ih h
      simp only [List.length_cons]
      omega
  | case8 s =>
      obtain rfl := Except.ok.inj h
      exact Nat.le_succ _
  | case10 _ s _ _ _ _ _ ih => exact Nat.le_succ_of_le (ih h)
  | _ => cases h

/-! ## Numbers -/

theorem length_spanDigits (s : Bytes) : (spanDigits s).2.length ≤ s.length :=
  (List.dropWhile_sublist _).length_le

theorem length_of_binary {negative : Bool} {significand : Nat} {exponent : Int} {s rest : Bytes}
    {n : Number} (h : binary negative significand exponent s = .ok (n, rest)) :
    rest.length ≤ s.length := by
  rw [binary] at h
  split at h
  · obtain ⟨-, rfl⟩ := Prod.mk.inj (Except.ok.inj h)
    exact Nat.le_refl _
  · cases h

theorem length_of_readExponent {s rest : Bytes} {e : Int} (h : readExponent s = .ok (e, rest)) :
    rest.length ≤ s.length := by
  simp only [readExponent] at h
  split at h
  · cases h
  · next c more hsigned =>
      split at h
      · obtain ⟨-, rfl⟩ := Prod.mk.inj (Except.ok.inj h)
        refine Nat.le_trans (length_spanDigits (c :: more)) ?_
        rw [← hsigned]
        split <;> simp
      · cases h

theorem length_of_withExponent {negative : Bool} {significand : Nat} {exponent : Int}
    {s rest : Bytes} {n : Number}
    (h : withExponent negative significand exponent s = .ok (n, rest)) :
    rest.length ≤ s.length := by
  have hexponent : ∀ {more after : Bytes} {e : Int}, readExponent more = .ok (e, after) →
      binary negative significand (exponent + e) after = .ok (n, rest) →
      rest.length ≤ more.length + 1 :=
    fun hread hbinary =>
      Nat.le_succ_of_le (Nat.le_trans (length_of_binary hbinary) (length_of_readExponent hread))
  unfold withExponent at h
  split at h
  · split at h
    · next hread => exact hexponent hread h
    · cases h
  · split at h
    · next hread => exact hexponent hread h
    · cases h
  · exact length_of_binary h

theorem length_of_integerOf {negative : Bool} {significand : Nat} {s rest : Bytes} {n : Number}
    (h : integerOf negative significand s = .ok (n, rest)) : rest.length ≤ s.length := by
  unfold integerOf at h
  split at h
  · split at h
    · exact length_of_binary h
    · obtain ⟨-, rfl⟩ := Prod.mk.inj (Except.ok.inj h)
      exact Nat.le_refl _
  · obtain ⟨-, rfl⟩ := Prod.mk.inj (Except.ok.inj h)
    exact Nat.le_refl _

theorem length_of_readNumber {negative : Bool} {s rest : Bytes} {n : Number}
    (h : readNumber negative s = .ok (n, rest)) : rest.length ≤ s.length := by
  unfold readNumber at h
  split at h
  · cases h
  · next c more =>
      have hwhole := length_spanDigits (c :: more)
      split at h
      · cases h
      · simp only at h
        split at h
        · next fraction hpoint =>
            split at h
            · cases h
            · have hplaces := length_spanDigits fraction
              rw [hpoint, List.length_cons] at hwhole
              have hrest := length_of_withExponent h
              omega
        · exact Nat.le_trans (length_of_withExponent h) hwhole
        · exact Nat.le_trans (length_of_withExponent h) hwhole
        · split at h
          · exact Nat.le_trans (length_of_integerOf h) hwhole
          · exact Nat.le_trans (length_of_binary h) hwhole

theorem length_of_skipExponent {s rest : Bytes} (h : skipExponent s = .ok rest) :
    rest.length ≤ s.length := by
  simp only [skipExponent] at h
  split at h
  · next c more hunsigned =>
      split at h
      · obtain rfl := Except.ok.inj h
        have hdigits := (List.dropWhile_sublist (p := Ascii.isDigit) (l := more)).length_le
        have hle : (c :: more).length ≤ s.length := by
          rw [← hunsigned]
          split <;> simp
        exact Nat.le_trans hdigits (Nat.le_of_succ_le hle)
      · cases h
  · cases h

/-- Digits are passed over, and the exponent behind them. -/
theorem length_of_skipExponent_after {c : UInt8} {s after rest : Bytes}
    (hafter : s.dropWhile Ascii.isDigit = c :: after) (h : skipExponent after = .ok rest) :
    rest.length < s.length := by
  have hdigits := (List.dropWhile_sublist (p := Ascii.isDigit) (l := s)).length_le
  rw [hafter, List.length_cons] at hdigits
  exact Nat.lt_of_le_of_lt (length_of_skipExponent h) hdigits

theorem length_of_skipNumber {s rest : Bytes} (h : skipNumber s = .ok rest) :
    rest.length < s.length := by
  unfold skipNumber at h
  split at h
  · cases h
  · next c more =>
      have hwhole := (List.dropWhile_sublist (p := Ascii.isDigit) (l := more)).length_le
      split at h
      · cases h
      · split at h
        · next fraction hpoint =>
            have hplaces := (List.dropWhile_sublist (p := Ascii.isDigit) (l := fraction)).length_le
            rw [hpoint, List.length_cons] at hwhole
            have hrest : rest.length ≤ fraction.length := by
              split at h
              · split at h
                · next hafter => exact Nat.le_of_lt (length_of_skipExponent_after hafter h)
                · next hafter => exact Nat.le_of_lt (length_of_skipExponent_after hafter h)
                · exact Except.ok.inj h ▸ hplaces
              · cases h
            rw [List.length_cons]
            omega
        · next hafter => exact Nat.lt_succ_of_lt (length_of_skipExponent_after hafter h)
        · next hafter => exact Nat.lt_succ_of_lt (length_of_skipExponent_after hafter h)
        · obtain rfl := Except.ok.inj h
          exact Nat.lt_succ_of_le hwhole

/-! ## Between items and members -/

theorem length_of_nextItem_item {first : Bool} {s rest : Bytes}
    (h : nextItem first s = .ok (.item rest)) :
    rest.length + (if first then 0 else 1) ≤ s.length := by
  unfold nextItem at h
  split at h
  · cases h
  · next c more hblanks =>
      have hmore := length_of_skipBlanks hblanks
      split at h
      · cases h
      · split at h
        · next hfirst =>
            obtain rfl := NextItem.item.inj (Except.ok.inj h)
            rwa [if_pos hfirst]
        · next hfirst =>
            split at h
            · split at h
              · cases h
              · next d behind hd =>
                  have hbehind := length_of_skipBlanks hd
                  split at h
                  · cases h
                  · obtain rfl := NextItem.item.inj (Except.ok.inj h)
                    rw [if_neg hfirst, List.length_cons]
                    omega
            · cases h

theorem length_of_nextItem_closed {first : Bool} {s rest : Bytes}
    (h : nextItem first s = .ok (.closed rest)) : rest.length + 1 ≤ s.length := by
  unfold nextItem at h
  split at h
  · cases h
  · next c more hblanks =>
      split at h
      · obtain rfl := NextItem.closed.inj (Except.ok.inj h)
        exact length_of_skipBlanks hblanks
      · split at h
        · cases h
        · split at h
          · split at h
            · cases h
            · split at h <;> cases h
          · cases h

theorem length_of_closeArray {s rest : Bytes} (h : closeArray s = .ok rest) :
    rest.length + 1 ≤ s.length := by
  unfold closeArray at h
  split at h
  · cases h
  · next c more hblanks =>
      split at h
      · obtain rfl := Except.ok.inj h
        exact length_of_skipBlanks hblanks
      · cases h

theorem length_of_colon {s rest : Bytes} (h : colon s = .ok rest) :
    rest.length + 1 ≤ s.length := by
  unfold colon at h
  split at h
  · cases h
  · next c more hblanks =>
      split at h
      · obtain rfl := Except.ok.inj h
        exact length_of_skipBlanks hblanks
      · cases h

theorem exists_of_afterColon {α : Type} {value : Bytes → Step α} {s rest : Bytes} {a : α}
    (h : afterColon value s = .ok (a, rest)) :
    ∃ t, value t = .ok (a, rest) ∧ t.length + 1 ≤ s.length := by
  unfold afterColon at h
  split at h
  · next t hcolon => exact ⟨t, h, length_of_colon hcolon⟩
  · cases h

theorem length_of_readName {s rest : Bytes} {name : String}
    (h : readName s = .ok (.name name rest)) : rest.length + (name.length + 2) ≤ s.length := by
  unfold readName at h
  split at h
  · cases h
  · split at h
    · split at h
      · next htext =>
          obtain ⟨rfl, rfl⟩ := NextMember.name.inj (Except.ok.inj h)
          exact Nat.succ_le_succ (takes_readText htext)
      · cases h
    · cases h

theorem ne_closed_of_readName {s rest : Bytes} : readName s ≠ .ok (.closed rest) := by
  intro h
  unfold readName at h
  split at h
  · cases h
  · split at h
    · split at h <;> cases h
    · cases h

/-- The name of a member takes its characters and two quotes. -/
theorem length_of_nextMember_name {first : Bool} {s rest : Bytes} {name : String}
    (h : nextMember first s = .ok (.name name rest)) :
    rest.length + (name.length + 2) ≤ s.length := by
  unfold nextMember at h
  split at h
  · cases h
  · next c more hblanks =>
      have hmore := length_of_skipBlanks hblanks
      split at h
      · cases h
      · split at h
        · exact Nat.le_trans (length_of_readName h) hmore
        · split at h
          · have hname := length_of_readName h
            have hblank := length_skipBlanks more
            omega
          · cases h

theorem length_of_nextMember_closed {first : Bool} {s rest : Bytes}
    (h : nextMember first s = .ok (.closed rest)) : rest.length + 1 ≤ s.length := by
  unfold nextMember at h
  split at h
  · cases h
  · next c more hblanks =>
      split at h
      · obtain rfl := NextMember.closed.inj (Except.ok.inj h)
        exact length_of_skipBlanks hblanks
      · split at h
        · exact absurd h ne_closed_of_readName
        · split at h
          · exact absurd h ne_closed_of_readName
          · cases h

/-! ## Runs over items and members -/

/-- What a run over the items of an array does that comes to the end of the array: it finds the end,
or it reads an item and goes on behind it. -/
inductive ItemsRun {α : Type} (item : Bytes → Step α) :
    Nat → Bool → List α → Bytes → List α → Bytes → Prop
  | closed {n : Nat} {first : Bool} {read : List α} {s rest : Bytes}
      (h : nextItem first s = .ok (.closed rest)) :
      ItemsRun item (n + 1) first read s read.reverse rest
  | item {n : Nat} {first : Bool} {read all : List α} {s at' mid rest : Bytes} {a : α}
      (hnext : nextItem first s = .ok (.item at')) (hread : item at' = .ok (a, mid))
      (tail : ItemsRun item n false (a :: read) mid all rest) :
      ItemsRun item (n + 1) first read s all rest

theorem run_of_itemsAfter {α : Type} {item : Bytes → Step α} {n : Nat} {first : Bool}
    {read all : List α} {s rest : Bytes} (h : itemsAfter item n first read s = .ok (all, rest)) :
    ItemsRun item n first read s all rest := by
  induction n generalizing first read s with
  | zero => cases h
  | succ n ih =>
      rw [itemsAfter] at h
      split at h
      · cases h
      · next hnext =>
          obtain ⟨rfl, rfl⟩ := Prod.mk.inj (Except.ok.inj h)
          exact .closed hnext
      · next hnext =>
          split at h
          · cases h
          · next hread => exact .item hnext hread (ih h)

theorem ItemsRun.reads {α : Type} {item : Bytes → Step α} {n : Nat} {first : Bool}
    {read all : List α} {s rest : Bytes} (h : ItemsRun item n first read s all rest) :
    itemsAfter item n first read s = .ok (all, rest) := by
  induction h with
  | closed hnext => rw [itemsAfter, hnext]
  | item hnext hread _ ih => simp only [itemsAfter, hnext, hread, ih]

/-- What a run over the members of an object does that comes to the end of the object: it finds the
end, or it reads a member and goes on behind it. -/
inductive MembersRun {σ : Type} (member : σ → String → Bytes → Step σ) :
    Nat → Bool → σ → Bytes → σ → Bytes → Prop
  | closed {n : Nat} {first : Bool} {found : σ} {s rest : Bytes}
      (h : nextMember first s = .ok (.closed rest)) :
      MembersRun member (n + 1) first found s found rest
  | member {n : Nat} {first : Bool} {found now last : σ} {name : String} {s at' mid rest : Bytes}
      (hnext : nextMember first s = .ok (.name name at'))
      (hread : member found name at' = .ok (now, mid))
      (tail : MembersRun member n false now mid last rest) :
      MembersRun member (n + 1) first found s last rest

theorem run_of_membersAfter {σ : Type} {member : σ → String → Bytes → Step σ} {n : Nat}
    {first : Bool} {found last : σ} {s rest : Bytes}
    (h : membersAfter member n first found s = .ok (last, rest)) :
    MembersRun member n first found s last rest := by
  induction n generalizing first found s with
  | zero => cases h
  | succ n ih =>
      rw [membersAfter] at h
      split at h
      · cases h
      · next hnext =>
          obtain ⟨rfl, rfl⟩ := Prod.mk.inj (Except.ok.inj h)
          exact .closed hnext
      · next hnext =>
          split at h
          · cases h
          · next hread => exact .member hnext hread (ih h)

theorem MembersRun.reads {σ : Type} {member : σ → String → Bytes → Step σ} {n : Nat} {first : Bool}
    {found last : σ} {s rest : Bytes} (h : MembersRun member n first found s last rest) :
    membersAfter member n first found s = .ok (last, rest) := by
  induction h with
  | closed hnext => rw [membersAfter, hnext]
  | member hnext hread _ ih => simp only [membersAfter, hnext, hread, ih]

end TopicWatch.Json
