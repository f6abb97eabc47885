import TopicWatch.Proofs.Json.Consumption
import TopicWatch.Proofs.Json.Number
import TopicWatch.Proofs.Json.Text

/-!
# What stands behind a value

What a reader reads does not depend on what stands behind it, as long as that does not continue
a number. Room for more items and members changes nothing either.
-/

namespace TopicWatch.Json

/-- Where one reader gives a result, another one gives the same when more stands behind it. -/
def Extends {α : Type} (read read' : Bytes → Step α) (behind : Bytes) : Prop :=
  ∀ ⦃s a rest⦄, read s = .ok (a, rest) → read' (s ++ behind) = .ok (a, rest ++ behind)

variable {behind : Bytes}

theorem Extends.map {α β : Type} {read read' : Bytes → Step α} (h : Extends read read' behind)
    (f : α → β) : Extends (fun s => (read s).map fun p => (f p.1, p.2))
      (fun s => (read' s).map fun p => (f p.1, p.2)) behind := by
  intro s b rest hread
  obtain ⟨⟨a, after⟩, hstep, heq⟩ := exists_of_map hread
  obtain ⟨rfl, rfl⟩ := Prod.mk.inj heq
  simp only [h hstep]
  rfl

/-! ## Tokens -/

theorem skipBlanks_append {s rest : Bytes} {c : UInt8} (h : skipBlanks s = c :: rest)
    (behind : Bytes) : skipBlanks (s ++ behind) = c :: (rest ++ behind) := by
  rw [skipBlanks] at h
  rw [skipBlanks, List.dropWhile_append, h]
  rfl

theorem literal_append {word s rest : Bytes} (h : literal word s = .ok rest) (behind : Bytes) :
    literal word (s ++ behind) = .ok (rest ++ behind) := by
  induction word generalizing s with
  | nil =>
      obtain rfl := Except.ok.inj h
      rfl
  | cons w word ih =>
      cases s with
      | nil => cases h
      | cons c s =>
          rw [literal] at h
          rw [List.cons_append, literal]
          split at h
          · next heq => rw [if_pos heq, ih h]
          · cases h

theorem textAfter_append {read : Bytes} {high : Option Nat} {s rest : Bytes} {t : String}
    (h : textAfter read high s = .ok (t, rest)) (behind : Bytes) :
    textAfter read high (s ++ behind) = .ok (t, rest ++ behind) := by
  fun_induction textAfter read high s with
  | case4 read high a b c d s n hn ch hch ih =>
      simp only [List.cons_append, textAfter, hn, hch]
      exact ih h
  | case5 read high a b c d s n hn half hhalf ih =>
      simp only [List.cons_append, textAfter, hn, hhalf]
      exact ih h
  | case9 read high e s hno hne hhigh x hx ih =>
      rw [List.cons_append, List.cons_append, textAfter, if_neg hne, if_neg hhigh, hx]
      · exact ih h
      · intro a b c d s' heq
        exact absurd heq hne
  | case12 read high s hhigh t' ht =>
      obtain rfl := Option.not_isSome_iff_eq_none.1 hhigh
      obtain ⟨rfl, rfl⟩ := Prod.mk.inj (Except.ok.inj h)
      rw [List.cons_append, textAfter_close, ht]
  | case15 read high c s hempty _ hescape hhigh hquote hlow ih =>
      obtain rfl := Option.not_isSome_iff_eq_none.1 hhigh
      have hslash : c ≠ 0x5C := by
        rintro rfl
        cases s with
        | nil => exact hempty rfl rfl
        | cons e s => exact hescape e s rfl rfl
      have hplain : IsPlain c := ⟨Nat.not_lt.1 fun hlt => hlow (UInt8.lt_iff_toNat_lt.2 hlt), hquote, hslash⟩
      rw [List.cons_append, textAfter_plain hplain]
      exact ih h
  | _ => cases h

/-! ## Numbers -/

theorem spanDigits_behind {s : Bytes} (hbehind : EndsNumber behind) :
    spanDigits (s ++ behind) = ((spanDigits s).1, (spanDigits s).2 ++ behind) := by
  have hstop : behind.takeWhile Ascii.isDigit = [] ∧ behind.dropWhile Ascii.isDigit = behind := by
    cases behind with
    | nil => exact ⟨rfl, rfl⟩
    | cons c t =>
        have hc := (hbehind c rfl).1
        simp [hc]
  induction s with
  | nil => simp [spanDigits, hstop]
  | cons c s ih =>
      by_cases hc : Ascii.isDigit c
      · simp only [spanDigits, Prod.mk.injEq] at ih
        simp [spanDigits, hc, ih]
      · simp [spanDigits, hc]

/-- A byte with which a text does not begin comes no nearer when the text goes on without it. -/
theorem append_ne_cons {x : UInt8} {s : Bytes} (h : ∀ more, s = x :: more → False)
    (hx : ∀ c ∈ behind.head?, c ≠ x) (more : Bytes) : s ++ behind ≠ x :: more := by
  intro heq
  cases s with
  | nil => exact hx x (by rw [← List.nil_append behind, heq]; rfl) rfl
  | cons c s =>
      obtain ⟨rfl, -⟩ := List.cons.inj heq
      exact h s rfl

theorem binary_append {negative : Bool} {significand : Nat} {exponent : Int} {s rest : Bytes}
    {n : Number} (h : binary negative significand exponent s = .ok (n, rest)) (behind : Bytes) :
    binary negative significand exponent (s ++ behind) = .ok (n, rest ++ behind) := by
  rw [binary] at h ⊢
  split at h
  · obtain ⟨rfl, rfl⟩ := Prod.mk.inj (Except.ok.inj h)
    rfl
  · cases h

theorem integerOf_append {negative : Bool} {significand : Nat} {s rest : Bytes} {n : Number}
    (h : integerOf negative significand s = .ok (n, rest)) (behind : Bytes) :
    integerOf negative significand (s ++ behind) = .ok (n, rest ++ behind) := by
  rw [integerOf] at h ⊢
  by_cases hnegative : negative = true
  · by_cases hwide : significand = 0 ∨ UInt64.size / 2 < significand
    · rw [if_pos hnegative, if_pos hwide] at h ⊢
      exact binary_append h behind
    · rw [if_pos hnegative, if_neg hwide] at h ⊢
      obtain ⟨rfl, rfl⟩ := Prod.mk.inj (Except.ok.inj h)
      rfl
  · rw [if_neg hnegative] at h ⊢
    obtain ⟨rfl, rfl⟩ := Prod.mk.inj (Except.ok.inj h)
    rfl

/-- Reads the digits of an exponent behind its sign. -/
def exponentOf (negative : Bool) : Bytes → Step Int
  | [] => .error .unfinished
  | c :: rest =>
      if Ascii.isDigit c then
        let digits := spanDigits (c :: rest)
        let n : Int := Ascii.ofDigits 10 digits.1
        .ok (if negative then -n else n, digits.2)
      else .error .malformed

theorem exponentOf_append (hbehind : EndsNumber behind) (negative : Bool) {s rest : Bytes}
    {e : Int} (h : exponentOf negative s = .ok (e, rest)) :
    exponentOf negative (s ++ behind) = .ok (e, rest ++ behind) := by
  cases s with
  | nil => cases h
  | cons c s =>
      have hspan := spanDigits_behind (s := c :: s) hbehind
      rw [List.cons_append] at hspan ⊢
      rw [exponentOf] at h ⊢
      by_cases hdigit : Ascii.isDigit c
      · rw [if_pos hdigit] at h ⊢
        obtain ⟨rfl, rfl⟩ := Prod.mk.inj (Except.ok.inj h)
        simp only [hspan]
      · rw [if_neg hdigit] at h
        cases h

theorem readExponent_unsigned {c : UInt8} (hplus : c ≠ 0x2B) (hminus : c ≠ 0x2D) (s : Bytes) :
    readExponent (c :: s) = exponentOf false (c :: s) := by
  unfold readExponent
  split
  · next heq => exact absurd (List.cons.inj heq).1 hplus
  · next heq => exact absurd (List.cons.inj heq).1 hminus
  · rfl

theorem readExponent_append (hbehind : EndsNumber behind) {s rest : Bytes} {e : Int}
    (h : readExponent s = .ok (e, rest)) : readExponent (s ++ behind) = .ok (e, rest ++ behind) := by
  cases s with
  | nil => cases h
  | cons c s =>
      rw [List.cons_append]
      by_cases hplus : c = 0x2B
      · subst hplus
        exact exponentOf_append hbehind false h
      · by_cases hminus : c = 0x2D
        · subst hminus
          exact exponentOf_append hbehind true h
        · rw [readExponent_unsigned hplus hminus] at h ⊢
          exact exponentOf_append hbehind false h

theorem withExponent_append (hbehind : EndsNumber behind) {negative : Bool} {significand : Nat}
    {exponent : Int} {s rest : Bytes} {n : Number}
    (h : withExponent negative significand exponent s = .ok (n, rest)) :
    withExponent negative significand exponent (s ++ behind) = .ok (n, rest ++ behind) := by
  have hexponent : ∀ {c : UInt8} {more : Bytes}, c = 0x65 ∨ c = 0x45 →
      withExponent negative significand exponent (c :: more) = .ok (n, rest) →
      withExponent negative significand exponent (c :: (more ++ behind)) =
        .ok (n, rest ++ behind) := by
    rintro c more (rfl | rfl) h
    all_goals
      simp only [withExponent] at h ⊢
      cases hread : readExponent more with
      | error f =>
          rw [hread] at h
          cases h
      | ok p =>
          rw [hread] at h
          rw [readExponent_append hbehind hread]
          exact binary_append h behind
  have hwhole := h
  unfold withExponent at h
  split at h
  · exact hexponent (.inl rfl) hwhole
  · exact hexponent (.inr rfl) hwhole
  · next hlower hupper =>
      rw [withExponent]
      · exact binary_append h behind
      · exact fun more => append_ne_cons hlower (fun c hc => (hbehind c hc).2.2.1) more
      · exact fun more => append_ne_cons hupper (fun c hc => (hbehind c hc).2.2.2) more

theorem any_head?_append (hbehind : EndsNumber behind) (s : Bytes) :
    (s ++ behind).head?.any Ascii.isDigit = s.head?.any Ascii.isDigit := by
  cases s with
  | cons c s => rfl
  | nil =>
      cases hhead : behind.head? with
      | none => simp [hhead]
      | some b => simp [hhead, (hbehind b hhead).1]

theorem readNumber_append (hbehind : EndsNumber behind) {negative : Bool} {s rest : Bytes}
    {n : Number} (h : readNumber negative s = .ok (n, rest)) :
    readNumber negative (s ++ behind) = .ok (n, rest ++ behind) := by
  cases s with
  | nil => cases h
  | cons c s =>
      have hspan := spanDigits_behind (s := c :: s) hbehind
      rw [List.cons_append] at hspan ⊢
      rw [readNumber] at h ⊢
      rw [any_head?_append hbehind]
      split at h
      · cases h
      · next hdigit =>
          rw [if_neg hdigit]
          simp only [hspan]
          simp only at h
          generalize spanDigits (c :: s) = digits at h
          obtain ⟨ds, after⟩ := digits
          simp only at h ⊢
          split at h
          · next more =>
              rw [List.cons_append]
              simp only [spanDigits_behind hbehind]
              split at h
              · cases h
              · next hplaces =>
                  rw [if_neg hplaces]
                  exact withExponent_append hbehind h
          · exact withExponent_append hbehind h
          · exact withExponent_append hbehind h
          · next hpoint hlower hupper =>
              split
              · next heq =>
                  exact absurd heq (append_ne_cons hpoint (fun c hc => (hbehind c hc).2.1) _)
              · next heq =>
                  exact absurd heq (append_ne_cons hlower (fun c hc => (hbehind c hc).2.2.1) _)
              · next heq =>
                  exact absurd heq (append_ne_cons hupper (fun c hc => (hbehind c hc).2.2.2) _)
              · split at h
                · next hwhole =>
                    rw [if_pos hwhole]
                    exact integerOf_append h behind
                · next hwhole =>
                    rw [if_neg hwhole]
                    exact binary_append h behind

theorem scalar_append (hbehind : EndsNumber behind) {c : UInt8} {s rest : Bytes} {v : Value}
    (h : scalar c s = .ok (v, rest)) : scalar c (s ++ behind) = .ok (v, rest ++ behind) := by
  have hliteral : ∀ {word : Bytes} {w : Value},
      (literal word s).map (fun rest => (w, rest)) = .ok (v, rest) →
      (literal word (s ++ behind)).map (fun rest => (w, rest)) = .ok (v, rest ++ behind) := by
    intro word w h
    obtain ⟨after, hread, heq⟩ := exists_of_map h
    obtain ⟨rfl, rfl⟩ := Prod.mk.inj heq
    rw [literal_append hread]
    rfl
  have hnumber : ∀ {negative : Bool} {t : Bytes},
      (readNumber negative t).map (fun p => (Value.number p.1, p.2)) = .ok (v, rest) →
      (readNumber negative (t ++ behind)).map (fun p => (Value.number p.1, p.2)) =
        .ok (v, rest ++ behind) := fun h =>
    Extends.map (fun _ _ _ => readNumber_append hbehind) Value.number h
  rw [scalar] at h ⊢
  split_ifs at h ⊢
  · exact hliteral h
  · exact hliteral h
  · exact hliteral h
  · exact Extends.map (fun _ _ _ h => textAfter_append h behind) Value.text h
  · exact hnumber h
  · exact hnumber h

/-! ## Items and members -/

/-- What stands next, when more stands behind it. -/
def NextItem.followedBy (behind : Bytes) : NextItem → NextItem
  | item s => item (s ++ behind)
  | closed rest => closed (rest ++ behind)

/-- What stands next, when more stands behind it. -/
def NextMember.followedBy (behind : Bytes) : NextMember → NextMember
  | name k s => name k (s ++ behind)
  | closed rest => closed (rest ++ behind)

theorem nextItem_append {first : Bool} {s : Bytes} {next : NextItem}
    (h : nextItem first s = .ok next) (behind : Bytes) :
    nextItem first (s ++ behind) = .ok (next.followedBy behind) := by
  unfold nextItem at h
  split at h
  · cases h
  · next c rest hblanks =>
      rw [nextItem, skipBlanks_append hblanks]
      simp only
      split_ifs at h ⊢
      · obtain rfl := Except.ok.inj h
        rfl
      · obtain rfl := Except.ok.inj h
        rfl
      · split at h
        · cases h
        · next d more hmore =>
            rw [skipBlanks_append hmore]
            simp only
            split_ifs at h ⊢
            obtain rfl := Except.ok.inj h
            rfl

theorem readName_append {s : Bytes} {next : NextMember} (h : readName s = .ok next)
    (behind : Bytes) : readName (s ++ behind) = .ok (next.followedBy behind) := by
  cases s with
  | nil => cases h
  | cons c s =>
      rw [List.cons_append]
      rw [readName] at h ⊢
      split_ifs at h ⊢
      split at h
      · next k after hread =>
          obtain rfl := Except.ok.inj h
          rw [show readText (s ++ behind) = _ from textAfter_append hread behind]
          rfl
      · cases h

theorem nextMember_append {first : Bool} {s : Bytes} {next : NextMember}
    (h : nextMember first s = .ok next) (behind : Bytes) :
    nextMember first (s ++ behind) = .ok (next.followedBy behind) := by
  unfold nextMember at h
  split at h
  · cases h
  · next c rest hblanks =>
      rw [nextMember, skipBlanks_append hblanks]
      simp only
      split_ifs at h ⊢
      · obtain rfl := Except.ok.inj h
        rfl
      · exact readName_append h behind
      · cases hmore : skipBlanks rest with
        | nil =>
            rw [hmore] at h
            cases h
        | cons d more =>
            rw [hmore] at h
            rw [skipBlanks_append hmore]
            exact readName_append h behind

theorem afterColon_append {α : Type} {read read' : Bytes → Step α}
    (h : Extends read read' behind) : Extends (afterColon read) (afterColon read') behind := by
  intro s a rest hread
  unfold afterColon at hread
  split at hread
  · next after hcolon =>
      unfold colon at hcolon
      split at hcolon
      · cases hcolon
      · next c more hblanks =>
          have hlonger : colon (s ++ behind) = .ok (after ++ behind) := by
            rw [colon, skipBlanks_append hblanks]
            simp only
            split_ifs at hcolon ⊢
            obtain rfl := Except.ok.inj hcolon
            rfl
          rw [afterColon, hlonger]
          exact h hread
  · cases hread

theorem itemsAfter_append {α : Type} {item item' : Bytes → Step α}
    (hitem : Extends item item' behind) {n m : Nat} (hle : n ≤ m) (first : Bool) (read : List α) :
    Extends (itemsAfter item n first read) (itemsAfter item' m first read) behind := by
  induction n generalizing m first read with
  | zero => exact fun s a rest h => nomatch h
  | succ n ih =>
      intro s items rest h
      obtain ⟨m, rfl⟩ := Nat.exists_eq_add_one_of_ne_zero (Nat.ne_of_gt (Nat.zero_lt_of_lt hle))
      rw [itemsAfter] at h ⊢
      split at h
      · cases h
      · next after hnext =>
          obtain ⟨rfl, rfl⟩ := Prod.mk.inj (Except.ok.inj h)
          rw [nextItem_append hnext behind]
          rfl
      · next at' hnext =>
          rw [nextItem_append hnext behind]
          simp only [NextItem.followedBy]
          split at h
          · cases h
          · next a after hread =>
              rw [hitem hread]
              exact ih (Nat.le_of_succ_le_succ hle) false (a :: read) h

theorem membersAfter_append {σ : Type} {member member' : σ → String → Bytes → Step σ}
    (hmember : ∀ found name, Extends (member found name) (member' found name) behind) {n m : Nat}
    (hle : n ≤ m) (first : Bool) (found : σ) :
    Extends (membersAfter member n first found) (membersAfter member' m first found) behind := by
  induction n generalizing m first found with
  | zero => exact fun s a rest h => nomatch h
  | succ n ih =>
      intro s last rest h
      obtain ⟨m, rfl⟩ := Nat.exists_eq_add_one_of_ne_zero (Nat.ne_of_gt (Nat.zero_lt_of_lt hle))
      rw [membersAfter] at h ⊢
      split at h
      · cases h
      · next after hnext =>
          obtain ⟨rfl, rfl⟩ := Prod.mk.inj (Except.ok.inj h)
          rw [nextMember_append hnext behind]
          rfl
      · next name at' hnext =>
          rw [nextMember_append hnext behind]
          simp only [NextMember.followedBy]
          split at h
          · cases h
          · next now after hread =>
              rw [hmember found name hread]
              exact ih (Nat.le_of_succ_le_succ hle) false now h

/-- What reads within brackets, if anything does, may be another reader with more behind it. -/
theorem readWith_append (hbehind : EndsNumber behind) {n m : Nat} (hle : n ≤ m)
    {inner inner' : Option (Bytes → Step Value)}
    (hinner : ∀ read, inner = some read → ∃ read', inner' = some read' ∧ Extends read read' behind) :
    Extends (readWith n inner) (readWith m inner') behind := by
  intro s v rest h
  rw [readWith] at h ⊢
  cases hblanks : skipBlanks s with
  | nil =>
      rw [hblanks] at h
      cases h
  | cons c more =>
      rw [hblanks] at h
      rw [skipBlanks_append hblanks]
      cases hopen : Bracket.ofOpen? c with
      | none =>
          simp only [hopen] at h ⊢
          exact scalar_append hbehind h
      | some b =>
          simp only [hopen] at h ⊢
          cases inner with
          | none => cases h
          | some read =>
              obtain ⟨read', rfl, hread⟩ := hinner read rfl
              cases b with
              | array => exact (itemsAfter_append hread hle true []).map Value.array h
              | object =>
                  refine (membersAfter_append (fun found name => ?_) hle true []).map
                    (fun ms => Value.object ms.reverse) h
                  exact (afterColon_append hread).map fun v => (name, v) :: found

/-- A value that was read is read again with more room and more behind it. -/
theorem readValue_append (hbehind : EndsNumber behind) {n m : Nat} (hle : n ≤ m) (opens : Nat) :
    Extends (readValue n opens) (readValue m opens) behind := by
  induction opens with
  | zero => exact readWith_append hbehind hle fun _ => nofun
  | succ opens ih =>
      refine readWith_append hbehind hle fun read hread => ⟨_, rfl, ?_⟩
      obtain rfl := Option.some.inj hread
      exact ih

end TopicWatch.Json
