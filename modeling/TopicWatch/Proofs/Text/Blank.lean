import TopicWatch.Text.Blank

/-!
# What is left of a text without the white space around it

Trimming takes away white space at both ends and nothing else, and leaves what begins and ends
with other characters.
-/

namespace TopicWatch.Blank

/-- Characters that are all white space. -/
def Blanks (cs : List Char) : Prop := ∀ c ∈ cs, isBlank c = true

instance (cs : List Char) : Decidable (Blanks cs) :=
  decidable_of_iff (cs.all isBlank = true) List.all_eq_true

/-- Characters without white space at either end. -/
def Bare (cs : List Char) : Prop :=
  (∀ c ∈ cs.head?, isBlank c = false) ∧ ∀ c ∈ cs.getLast?, isBlank c = false

theorem Blanks.reverse {cs : List Char} (h : Blanks cs) : Blanks cs.reverse :=
  fun c hc => h c (List.mem_reverse.1 hc)

theorem bare_of_forall {cs : List Char} (h : ∀ c ∈ cs, isBlank c = false) : Bare cs :=
  ⟨fun c hc => h c (List.mem_of_mem_head? hc), fun c hc => h c (List.mem_of_mem_getLast? hc)⟩

theorem blanks_takeWhile (cs : List Char) : Blanks (cs.takeWhile isBlank) :=
  List.all_eq_true.1 List.all_takeWhile

theorem dropWhile_blanks_append {front rest : List Char} (hfront : Blanks front)
    (hrest : ∀ c ∈ rest.head?, isBlank c = false) : (front ++ rest).dropWhile isBlank = rest := by
  rw [List.dropWhile_append_of_pos hfront]
  cases rest with
  | nil => rfl
  | cons c rest => rw [List.dropWhile_cons_of_neg (by rw [hrest c rfl]; exact Bool.false_ne_true)]

/-- White space around characters is taken away. -/
theorem trim_append {front core back : List Char} (hfront : Blanks front) (hcore : Bare core)
    (hne : core ≠ []) (hback : Blanks back) : trim (front ++ core ++ back) = core := by
  have hhead : ∀ c ∈ (core ++ back).head?, isBlank c = false := by
    cases core with
    | nil => exact absurd rfl hne
    | cons c core => exact hcore.1
  have hlast : ∀ c ∈ core.reverse.head?, isBlank c = false := by
    intro c hc
    rw [List.head?_reverse] at hc
    exact hcore.2 c hc
  calc trim (front ++ core ++ back)
      = (((front ++ (core ++ back)).dropWhile isBlank).reverse.dropWhile isBlank).reverse := by
        rw [trim, List.append_assoc]
    _ = ((core ++ back).reverse.dropWhile isBlank).reverse := by
        rw [dropWhile_blanks_append hfront hhead]
    _ = ((back.reverse ++ core.reverse).dropWhile isBlank).reverse := by rw [List.reverse_append]
    _ = core.reverse.reverse := by rw [dropWhile_blanks_append hback.reverse hlast]
    _ = core := List.reverse_reverse core

/-- A text is what trimming leaves of it, with white space on both sides. -/
theorem exists_eq_trim (cs : List Char) :
    ∃ front back, cs = front ++ trim cs ++ back ∧ Blanks front ∧ Blanks back := by
  let rest := cs.dropWhile isBlank
  refine ⟨cs.takeWhile isBlank, (rest.reverse.takeWhile isBlank).reverse, ?_,
    blanks_takeWhile cs, (blanks_takeWhile rest.reverse).reverse⟩
  have hrest : trim cs ++ (rest.reverse.takeWhile isBlank).reverse = rest := by
    rw [trim, ← List.reverse_append, List.takeWhile_append_dropWhile, List.reverse_reverse]
  rw [List.append_assoc, hrest, List.takeWhile_append_dropWhile]

end TopicWatch.Blank
