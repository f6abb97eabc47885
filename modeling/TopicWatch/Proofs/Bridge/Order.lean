import Mathlib.Data.List.Sort
import TopicWatch.Proofs.Bridge.Traffic

/-!
# The order in which calls are handled

A call that has failed may be handled at any later time, even after calls that were made after
it. A call that was answered is handled before any later one is, because the client makes no
other call meanwhile. If all calls are answered, they are handled in the order in which they
are made, and none is left out.
-/

namespace TopicWatch.Bridge

/-- The number of calls that a phase is about. -/
def Phase.underWay : Phase → Nat
  | idle _ => 0
  | calling _ | exchanging _ _ => 1

namespace Traffic

variable {σ : Type} {p : Endpoints σ} {state : σ} {t : Traffic σ}

/-- A call that has ended with an answer. -/
def Answered (t : Traffic σ) (call : Nat) : Prop := ∃ a, t.outcomes[call]? = some (.ok a)

/-- Of two calls that were handled, the later one comes first only if the earlier one was not
answered. -/
def InOrder (t : Traffic σ) : Prop := t.keys.Pairwise fun j i => i < j → ¬t.Answered i

/-! ## What a move does to the calls -/

/-- A move leaves the calls where they are, or it begins one, handles one or ends one. -/
inductive Advance (t : Traffic σ) (m : Move) (t' : Traffic σ) : Prop
  | none (hhandled : t'.handled = t.handled) (houtcomes : t'.outcomes = t.outcomes)
      (hphase : t'.phase.underWay = t.phase.underWay)
  | begun (hm : m = .begin) (hhandled : t'.handled = t.handled)
      (houtcomes : t'.outcomes = t.outcomes)
  | handled (x : Nat × Ack) (hhandled : t'.handled = t.handled ++ [x])
      (houtcomes : t'.outcomes = t.outcomes) (hphase : t'.phase = t.phase)
  | ended (result : Except Error Ack) (kept : Option Nat) (hhandled : t'.handled = t.handled)
      (houtcomes : t'.outcomes = t.outcomes ++ [result]) (hidle : t'.phase = .idle kept)
      (hbusy : t.phase.underWay = 1)

theorem Advance.refl (t : Traffic σ) (m : Move) : t.Advance m t := .none rfl rfl rfl

theorem advance_step (p : Endpoints σ) (t : Traffic σ) (m : Move) : t.Advance m (t.step p m) := by
  cases m with
  | begin =>
      simp only [step]
      split
      · split
        · exact .begun rfl rfl rfl
        · exact .refl t _
      · exact .refl t _
  | connect | write size =>
      simp only [step]
      split
      · next hphase => exact .none rfl rfl (by rw [hphase]; rfl)
      · exact .refl t _
  | frame =>
      simp only [step]
      split
      · next hphase _ =>
          split
          · exact .none rfl rfl (by rw [hphase]; rfl)
          · exact .ended _ _ rfl rfl rfl (by rw [hphase]; rfl)
      · exact .refl t _
  | read =>
      simp only [step]
      split
      · next hphase =>
          split
          · simp only [readWire]
            split
            · exact .refl t _
            · exact .ended _ _ rfl rfl rfl (by rw [hphase]; rfl)
          · exact .refl t _
      · exact .refl t _
  | serve i =>
      simp only [step]
      split
      · unfold serveWire
        split
        · exact .handled _ rfl rfl rfl
        · exact .none rfl rfl rfl
        · exact .refl t _
      · exact .refl t _
  | close i arriving => exact .none rfl rfl rfl
  | fail e =>
      simp only [step]
      split
      · exact .refl t _
      all_goals next hphase => exact .ended _ _ rfl rfl rfl (by rw [hphase]; rfl)

/-- A move handles at most one call. -/
theorem handled_step (p : Endpoints σ) (t : Traffic σ) (m : Move) :
    (t.step p m).handled = t.handled ∨ ∃ x, (t.step p m).handled = t.handled ++ [x] := by
  cases advance_step p t m with
  | none hhandled | begun _ hhandled | ended _ _ hhandled => exact .inl hhandled
  | handled x hhandled => exact .inr ⟨x, hhandled⟩

/-- A move ends at most one call, and then the client is between two calls. -/
theorem outcomes_step (p : Endpoints σ) (t : Traffic σ) (m : Move) :
    (t.step p m).outcomes = t.outcomes ∨
      ∃ result kept, (t.step p m).outcomes = t.outcomes ++ [result] ∧
        (t.step p m).phase = .idle kept := by
  cases advance_step p t m with
  | none _ houtcomes | begun _ _ houtcomes | handled _ _ houtcomes => exact .inl houtcomes
  | ended result kept _ houtcomes hidle => exact .inr ⟨result, kept, houtcomes, hidle⟩

/-- The number of calls that have begun. -/
def begun (t : Traffic σ) : Nat := t.number + t.phase.underWay

/-- Only a call that begins makes more of them. -/
theorem begun_step {m : Move} (hm : m ≠ .begin) : (t.step p m).begun = t.begun := by
  rw [begun, begun, number, number]
  cases advance_step p t m with
  | none _ houtcomes hphase => rw [houtcomes, hphase]
  | begun heq => exact absurd heq hm
  | handled _ _ houtcomes hphase => rw [houtcomes, hphase]
  | ended result kept _ houtcomes hidle hbusy =>
      rw [houtcomes, hidle, hbusy, List.length_append]
      rfl

namespace Sound

theorem le_number (h : t.Sound p state) {k : Nat} (hk : k ∈ t.keys) : k ≤ t.number :=
  (h.sent hk).elim Nat.le_of_lt fun hnow => Nat.le_of_eq hnow.1

theorem lt_begun (h : t.Sound p state) {k : Nat} (hk : k ∈ t.keys) : k < t.begun := by
  obtain hlt | ⟨rfl, i, hphase⟩ := h.sent hk
  · exact Nat.lt_of_lt_of_le hlt (Nat.le_add_right _ _)
  · rw [Traffic.begun, hphase]
    exact Nat.lt_succ_self _

theorem mem_keys (h : t.Sound p state) {k : Nat} (hk : t.Answered k) : k ∈ t.keys := by
  obtain ⟨a, ha⟩ := hk
  exact List.mem_map.2 ⟨(k, a), h.answered ha, rfl⟩

/-- When a call is answered, no later one has been handled. -/
theorem answered_step (h : t.Sound p state) (m : Move) {k : Nat}
    (hk : (t.step p m).Answered k) : t.Answered k ∨ ∀ j ∈ (t.step p m).keys, j ≤ k := by
  obtain ⟨a, ha⟩ := hk
  obtain hsame | ⟨result, kept, houtcomes, hidle⟩ := outcomes_step p t m
  · exact .inl ⟨a, hsame ▸ ha⟩
  · obtain hlt | hge := Nat.lt_or_ge k t.outcomes.length
    · rw [houtcomes, List.getElem?_append_left hlt] at ha
      exact .inl ⟨a, ha⟩
    · right
      intro j hj
      have hnumber : (t.step p m).number = t.outcomes.length + 1 := by
        rw [number, houtcomes, List.length_append, List.length_singleton]
      have hlt : j < (t.step p m).number := (h.step m).sent_lt (by simp [hidle]) hj
      omega

theorem inOrder_step (h : t.Sound p state) (horder : t.InOrder) (m : Move) :
    (t.step p m).InOrder := by
  have hafter : (t.step p m).Sound p state := h.step m
  have hold : ∀ {j i : Nat}, j ∈ (t.step p m).keys → i < j → (t.step p m).Answered i →
      t.Answered i := by
    intro j i hj hlt hi
    obtain hi | hall := h.answered_step m hi
    · exact hi
    · exact absurd (hall j hj) (Nat.not_le.2 hlt)
  rw [InOrder]
  obtain hsame | ⟨x, hmore⟩ := handled_step p t m
  · have hkeys : (t.step p m).keys = t.keys := by rw [keys, hsame, ← keys]
    rw [hkeys] at hold ⊢
    exact List.Pairwise.imp_of_mem (fun hj _ himp hlt hi => himp hlt (hold hj hlt hi)) horder
  · have hkeys : (t.step p m).keys = t.keys ++ [x.1] := by
      rw [keys, hmore, List.map_append, ← keys, List.map_singleton]
    have hnew : x.1 ∉ t.keys := by
      have honce := hafter.delivers.once
      rw [hkeys] at honce
      intro hmem
      exact (List.nodup_append.1 honce).2.2 _ hmem _ (List.mem_singleton_self _) rfl
    rw [hkeys] at hold ⊢
    refine List.pairwise_append.2 ⟨?_, List.pairwise_singleton _ _, ?_⟩
    · refine List.Pairwise.imp_of_mem (fun hj _ himp hlt hi => himp hlt ?_) horder
      exact hold (List.mem_append_left _ hj) hlt hi
    · -- what was answered was handled before
      intro j hj i hi hlt hanswered
      obtain rfl := List.mem_singleton.1 hi
      exact hnew (h.mem_keys (hold (List.mem_append_left _ hj) hlt hanswered))

end Sound

theorem inOrder_run (p : Endpoints σ) (state : σ) (moves : List Move) :
    (run p state moves).InOrder := by
  have hmoves : ∀ t : Traffic σ, t.Sound p state → t.InOrder →
      (moves.foldl (step p) t).InOrder := by
    induction moves with
    | nil => exact fun t _ horder => horder
    | cons m moves ih => exact fun t h horder => ih _ (h.step m) (h.inOrder_step horder m)
  exact hmoves _ (sound_start p state) List.Pairwise.nil

theorem sublist_pair_of_mem {α : Type} {l : List α} {a b : α} (ha : a ∈ l) (hb : b ∈ l)
    (hne : a ≠ b) : [a, b].Sublist l ∨ [b, a].Sublist l := by
  obtain ⟨before, after, rfl⟩ := List.append_of_mem ha
  obtain hb | hb := List.mem_append.1 hb
  · exact .inr ((List.singleton_sublist.2 hb).append (List.singleton_sublist.2 List.mem_cons_self))
  · have hafter : b ∈ after := (List.mem_cons.1 hb).resolve_left hne.symm
    exact .inl (((List.singleton_sublist.2 hafter).cons_cons a).trans (List.sublist_append_right _ _))

/-- Calls that were answered are handled in the order in which they were made. -/
theorem InOrder.pair_sublist (h : t.Sound p state) (horder : t.InOrder) {i j : Nat}
    (hlt : i < j) (hi : t.Answered i) (hj : t.Answered j) : [i, j].Sublist t.keys := by
  obtain hright | hwrong :=
    sublist_pair_of_mem (h.mem_keys hi) (h.mem_keys hj) (Nat.ne_of_lt hlt)
  · exact hright
  · have hpair := horder.sublist hwrong
    simp only [List.pairwise_pair] at hpair
    exact absurd hi (hpair hlt)

/-- If no call has failed, the calls were handled in their order, up to the last one that has
ended or to the one that is made now. -/
theorem InOrder.keys_eq_range (h : t.Sound p state) (horder : t.InOrder)
    (hok : ∀ e, .error e ∉ t.outcomes) :
    ∃ n, t.keys = List.range n ∧ t.number ≤ n ∧ ∀ kept, t.phase = .idle kept → n = t.number := by
  have hanswered : ∀ k < t.number, t.Answered k := by
    intro k hk
    cases hresult : t.outcomes[k] with
    | ok a => exact ⟨a, List.getElem?_eq_some_iff.2 ⟨hk, hresult⟩⟩
    | error e => exact absurd (hresult ▸ List.getElem_mem hk) (hok e)
  have hascending : t.keys.Pairwise (· < ·) := by
    refine List.Pairwise.imp_of_mem ?_ (horder.and h.delivers.once)
    rintro j i hj hi ⟨himp, hne⟩
    obtain hlt | hge := Nat.lt_or_ge i j
    · exact absurd (hanswered i (Nat.lt_of_lt_of_le hlt (h.le_number hj))) (himp hlt)
    · exact Nat.lt_of_le_of_ne hge hne
  have hrange : ∀ {n : Nat}, (∀ k, k ∈ t.keys ↔ k < n) → t.keys = List.range n := by
    intro n hmem
    refine List.Pairwise.eq_of_mem_iff hascending List.pairwise_lt_range fun k => ?_
    rw [hmem, List.mem_range]
  by_cases hnow : t.number ∈ t.keys
  · refine ⟨t.number + 1, hrange fun k => ?_, Nat.le_succ _, fun kept hidle => ?_⟩
    · rw [Nat.lt_succ_iff]
      refine ⟨h.le_number, fun hle => ?_⟩
      obtain hlt | rfl := Nat.lt_or_eq_of_le hle
      · exact h.mem_keys (hanswered k hlt)
      · exact hnow
    · exact absurd (h.sent_lt (by simp [hidle]) hnow) (Nat.lt_irrefl _)
  · refine ⟨t.number, hrange fun k => ⟨fun hk => ?_, fun hlt => h.mem_keys (hanswered k hlt)⟩,
      Nat.le_refl _, fun _ _ => rfl⟩
    exact Nat.lt_of_le_of_ne (h.le_number hk) fun heq => hnow (heq ▸ hk)

end Traffic

end TopicWatch.Bridge
