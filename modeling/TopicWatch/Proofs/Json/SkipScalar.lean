import TopicWatch.Proofs.Json.Behind
import TopicWatch.Proofs.Json.Weight

/-!
# Where scalars end

A string or a number that is passed over ends where it ends when it is read.
-/

namespace TopicWatch.Json

theorem skipText_of_textAfter {read : Bytes} {high : Option Nat} {s rest : Bytes} {t : String}
    (h : textAfter read high s = .ok (t, rest)) : skipText s = .ok rest := by
  fun_induction textAfter read high s with
  | case4 read high a b c d s n hn ch hch ih =>
      rw [skipText, hn]
      exact ih h
  | case5 read high a b c d s n hn half hhalf ih =>
      rw [skipText, hn]
      exact ih h
  | case9 read high e s hno hne hhigh x hx ih =>
      rw [skipText, if_neg hne, hx]
      · exact ih h
      · intro a b c d s' heq
        exact absurd heq hne
  | case12 read high s hhigh t' ht =>
      obtain ⟨-, rfl⟩ := Prod.mk.inj (Except.ok.inj h)
      rfl
  | case15 read high c s hempty hunit hescape hhigh hquote hlow ih =>
      rw [skipText, if_neg hquote, if_neg hlow]
      · exact ih h
      · exact hempty
      · exact hunit
      · exact hescape
  | _ => cases h

theorem snd_spanDigits_cons {c : UInt8} (hdigit : Ascii.isDigit c) (s : Bytes) :
    (spanDigits (c :: s)).2 = s.dropWhile Ascii.isDigit :=
  List.dropWhile_cons_of_pos hdigit

theorem exists_of_exponentOf {negative : Bool} {s rest : Bytes} {e : Int}
    (h : exponentOf negative s = .ok (e, rest)) :
    ∃ c more, s = c :: more ∧ Ascii.isDigit c = true ∧ more.dropWhile Ascii.isDigit = rest := by
  cases s with
  | nil => cases h
  | cons c more =>
      rw [exponentOf] at h
      split at h
      · next hdigit =>
          obtain ⟨-, rfl⟩ := Prod.mk.inj (Except.ok.inj h)
          exact ⟨c, more, rfl, hdigit, (snd_spanDigits_cons hdigit more).symm⟩
      · cases h

theorem skipExponent_of_readExponent {s rest : Bytes} {e : Int}
    (h : readExponent s = .ok (e, rest)) : skipExponent s = .ok rest := by
  unfold skipExponent
  unfold readExponent at h
  split at h
  all_goals
    obtain ⟨c, more, heq, hdigit, hrest⟩ := exists_of_exponentOf h
    dsimp only at heq
    subst heq
    exact (if_pos hdigit).trans (congrArg _ hrest)

theorem eq_of_binary {negative : Bool} {significand : Nat} {exponent : Int} {s rest : Bytes}
    {n : Number} (h : binary negative significand exponent s = .ok (n, rest)) : s = rest := by
  rw [binary] at h
  split at h
  · exact (Prod.mk.inj (Except.ok.inj h)).2
  · cases h

theorem eq_of_integerOf {negative : Bool} {significand : Nat} {s rest : Bytes} {n : Number}
    (h : integerOf negative significand s = .ok (n, rest)) : s = rest := by
  unfold integerOf at h
  split at h
  · split at h
    · exact eq_of_binary h
    · exact (Prod.mk.inj (Except.ok.inj h)).2
  · exact (Prod.mk.inj (Except.ok.inj h)).2

/-- What may follow the digits of a number up to its end: an exponent, or nothing. -/
inductive Finishes (s rest : Bytes) : Prop
  | lower {after : Bytes} (hs : s = 0x65 :: after) (h : skipExponent after = .ok rest)
  | upper {after : Bytes} (hs : s = 0x45 :: after) (h : skipExponent after = .ok rest)
  | plain (hs : s = rest) (hlower : ∀ after, s ≠ 0x65 :: after)
      (hupper : ∀ after, s ≠ 0x45 :: after)

theorem finishes_of_withExponent {negative : Bool} {significand : Nat} {exponent : Int}
    {s rest : Bytes} {n : Number}
    (h : withExponent negative significand exponent s = .ok (n, rest)) : Finishes s rest := by
  unfold withExponent at h
  split at h
  · split at h
    · next hread => exact .lower rfl (eq_of_binary h ▸ skipExponent_of_readExponent hread)
    · cases h
  · split at h
    · next hread => exact .upper rfl (eq_of_binary h ▸ skipExponent_of_readExponent hread)
    · cases h
  · next hlower hupper => exact .plain (eq_of_binary h) (fun _ => hlower _) fun _ => hupper _

section Parts

variable {c : UInt8} {more after rest : Bytes}

/-- A number is passed over whose whole part stands before no fraction. -/
theorem skipNumber_whole
    (hplain : ¬(!Ascii.isDigit c || (c == 0x30 && more.head?.any Ascii.isDigit)) = true)
    (hafter : more.dropWhile Ascii.isDigit = after) (hpoint : ∀ fraction, after ≠ 0x2E :: fraction)
    (hend : Finishes after rest) : skipNumber (c :: more) = .ok rest := by
  rw [skipNumber, if_neg hplain, hafter]
  cases hend with
  | lower hs h | upper hs h =>
      rw [hs]
      exact h
  | plain hs hlower hupper =>
      split
      · exact absurd rfl (hpoint _)
      · exact absurd rfl (hlower _)
      · exact absurd rfl (hupper _)
      · exact congrArg _ hs

/-- A number is passed over whose whole part stands before a fraction. -/
theorem skipNumber_fraction {fraction : Bytes}
    (hplain : ¬(!Ascii.isDigit c || (c == 0x30 && more.head?.any Ascii.isDigit)) = true)
    (hpoint : more.dropWhile Ascii.isDigit = 0x2E :: fraction)
    (hplace : fraction.head?.any Ascii.isDigit)
    (hafter : fraction.dropWhile Ascii.isDigit = after) (hend : Finishes after rest) :
    skipNumber (c :: more) = .ok rest := by
  rw [skipNumber, if_neg hplain, hpoint]
  simp only
  rw [if_pos hplace, hafter]
  cases hend with
  | lower hs h | upper hs h =>
      rw [hs]
      exact h
  | plain hs hlower hupper =>
      split
      · exact absurd rfl (hlower _)
      · exact absurd rfl (hupper _)
      · exact congrArg _ hs

end Parts

theorem any_isDigit_of_spanDigits {s : Bytes} (h : ¬(spanDigits s).1.isEmpty = true) :
    s.head?.any Ascii.isDigit := by
  cases s with
  | nil => exact absurd rfl h
  | cons d t =>
      cases hd : Ascii.isDigit d with
      | true => exact hd
      | false => simp [spanDigits, hd] at h

/-- A number ends where it ends when nobody reads it. -/
theorem skipNumber_of_readNumber {negative : Bool} {s rest : Bytes} {n : Number}
    (h : readNumber negative s = .ok (n, rest)) : skipNumber s = .ok rest := by
  unfold readNumber at h
  split at h
  · cases h
  · next c more =>
      split at h
      · cases h
      · next hplain =>
          have hc : Ascii.isDigit c := by
            cases hc : Ascii.isDigit c <;> simp [hc] at hplain ⊢
          simp only [snd_spanDigits_cons hc] at h
          split at h
          · next fraction hpoint =>
              split at h
              · cases h
              · next hplaces =>
                  exact skipNumber_fraction hplain hpoint (any_isDigit_of_spanDigits hplaces) rfl
                    (finishes_of_withExponent h)
          · next after hexponent =>
              rw [hexponent] at h
              exact skipNumber_whole hplain hexponent (fun _ heq => by cases heq)
                (finishes_of_withExponent h)
          · next after hexponent =>
              rw [hexponent] at h
              exact skipNumber_whole hplain hexponent (fun _ heq => by cases heq)
                (finishes_of_withExponent h)
          · next hpoint hlower hupper =>
              have hrest : more.dropWhile Ascii.isDigit = rest := by
                split at h
                · exact eq_of_integerOf h
                · exact eq_of_binary h
              exact skipNumber_whole hplain rfl hpoint (.plain hrest hlower hupper)

/-- A scalar ends where it ends when nobody reads it. -/
theorem skipScalar_of_scalar {c : UInt8} {s rest : Bytes} {v : Value}
    (h : scalar c s = .ok (v, rest)) : skipScalar c s = .ok rest := by
  have hliteral : ∀ {word : Bytes} {w : Value},
      (literal word s).map (w, ·) = .ok (v, rest) → literal word s = .ok rest := by
    intro word w h
    obtain ⟨after, hread, heq⟩ := exists_of_map h
    rw [hread, (Prod.mk.inj heq).2]
  have hnumber : ∀ {negative : Bool} {t : Bytes},
      (readNumber negative t).map (fun p => (Value.number p.1, p.2)) = .ok (v, rest) →
      skipNumber t = .ok rest := by
    intro negative t h
    obtain ⟨p, hread, heq⟩ := exists_of_map h
    rw [skipNumber_of_readNumber hread, (Prod.mk.inj heq).2]
  rw [scalar] at h
  rw [skipScalar]
  split_ifs at h ⊢
  · exact hliteral h
  · exact hliteral h
  · exact hliteral h
  · obtain ⟨p, hread, heq⟩ := exists_of_map h
    rw [skipText_of_textAfter hread, (Prod.mk.inj heq).2]
  · exact hnumber h
  · exact hnumber h

end TopicWatch.Json
