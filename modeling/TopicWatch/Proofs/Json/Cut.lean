import TopicWatch.Json.Form

/-!
# Texts that are cut short

A reader that is given only the beginning of a text it would accept finds nothing wrong with
it: it asks for more, or it takes everything and leaves the question to whoever reads on. The
second happens only to numbers, whose beginnings are numbers again.
-/

namespace TopicWatch.Json

/-- A proper beginning of a text. -/
structure Cut (t text : Bytes) : Prop where
  isPrefix : t <+: text
  ne : t ≠ text

namespace Cut

variable {t x y : Bytes} {b : UInt8}

theorem not_nil : ¬Cut t [] := fun h => h.ne (List.prefix_nil.1 h.isPrefix)

theorem length_lt (h : Cut t x) : t.length < x.length :=
  Nat.lt_of_le_of_ne h.isPrefix.length_le fun heq => h.ne (h.isPrefix.eq_of_length heq)

/-- The cut is before the first byte or somewhere after it. -/
theorem cons (h : Cut t (b :: x)) : t = [] ∨ ∃ t', t = b :: t' ∧ Cut t' x := by
  rcases List.prefix_cons_iff.1 h.isPrefix with rfl | ⟨t', rfl, hbegins⟩
  · exact Or.inl rfl
  · exact Or.inr ⟨t', rfl, hbegins, fun heq => h.ne (congrArg _ heq)⟩

theorem of_singleton (h : Cut t [b]) : t = [] := by
  rcases h.cons with rfl | ⟨t', -, ht'⟩
  · rfl
  · exact absurd ht' not_nil

/-- The cut is within the first part or somewhere after it. -/
theorem append (h : Cut t (x ++ y)) : Cut t x ∨ ∃ t', t = x ++ t' ∧ Cut t' y := by
  induction x generalizing t with
  | nil => exact Or.inr ⟨t, rfl, h⟩
  | cons b x ih =>
      rcases h.cons with rfl | ⟨t', rfl, ht'⟩
      · exact Or.inl ⟨List.nil_prefix, (List.cons_ne_nil b x).symm⟩
      · rcases ih ht' with hx | ⟨u, rfl, hu⟩
        · exact Or.inl ⟨(List.prefix_cons_inj b).2 hx.isPrefix,
            fun heq => hx.ne (List.cons.inj heq).2⟩
        · exact Or.inr ⟨u, rfl, hu⟩

end Cut

/-- A reader found nothing wrong up to the end of a text. -/
def RunsOut {α : Type} (step : Step α) : Prop :=
  step = .error .unfinished ∨ ∃ a, step = .ok (a, [])

namespace RunsOut

variable {α β : Type} {step : Step α}

theorem map (h : RunsOut step) (f : α → β) : RunsOut (step.map fun p => (f p.1, p.2)) := by
  rcases h with rfl | ⟨a, rfl⟩
  · exact Or.inl rfl
  · exact Or.inr ⟨f a, rfl⟩

theorem accept (h : RunsOut step) {f : α → Option β}
    (hf : ∀ a, step = .ok (a, []) → (f a).isSome) : RunsOut (Form.accept f step) := by
  rcases h with rfl | ⟨a, rfl⟩
  · exact Or.inl rfl
  · obtain ⟨b, hb⟩ := Option.isSome_iff_exists.1 (hf a rfl)
    exact Or.inr ⟨b, by rw [Form.accept, hb]⟩

end RunsOut

theorem literal_cut {t word : Bytes} (h : Cut t word) : literal word t = .error .unfinished := by
  induction word generalizing t with
  | nil => exact absurd h Cut.not_nil
  | cons w word ih =>
      rcases h.cons with rfl | ⟨t', rfl, ht'⟩
      · rfl
      · rw [literal, if_pos rfl, ih ht']

end TopicWatch.Json
