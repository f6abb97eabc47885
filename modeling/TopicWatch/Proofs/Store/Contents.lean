import TopicWatch.Proofs.Store.Records

/-!
# What stands in a store

A store that was filled from the beginning has under every place the record that was filed
there last, and nothing else. What was filed before it was cleared has left no trace.
-/

namespace TopicWatch.Store

open Record Keyed

/-- What stands under a place belongs there. -/
theorem place_of_get? {s : Store} {kind : Record.Kind} {id : String} {o : Observation}
    (h : s.get? id kind = some o) : place o = (kind, id) :=
  Prod.ext_iff.2 (s.placed kind id o h)

theorem mem_snapshot {s : Store} {kind : Record.Kind} {o : Observation} :
    o ∈ s.snapshot kind ↔ ∃ id, s.get? id kind = some o :=
  Map.mem_values

theorem kind_of_mem_snapshot {s : Store} {kind : Record.Kind} {o : Observation}
    (h : o ∈ s.snapshot kind) : o.kind = kind := by
  obtain ⟨id, hfound⟩ := mem_snapshot.1 h
  exact congrArg Prod.fst (place_of_get? hfound)

theorem mem_snapshot_iff {s : Store} {kind : Record.Kind} {o : Observation} :
    o ∈ s.snapshot kind ↔ s.get? o.id kind = some o := by
  rw [mem_snapshot]
  constructor
  · rintro ⟨id, hfound⟩
    have hid : o.id = id := congrArg Prod.snd (place_of_get? hfound)
    rwa [hid]
  · intro hfound
    exact ⟨o.id, hfound⟩

/-- No id comes twice in a snapshot. -/
theorem nodup_ids (s : Store) (kind : Record.Kind) :
    ((s.snapshot kind).map Observation.id).Nodup :=
  Map.nodup_map_values fun _ _ hfound => congrArg Prod.snd (place_of_get? hfound)

theorem get?_empty (id : String) (kind : Record.Kind) : empty.get? id kind = none := by
  rw [get?, bucket_empty, Map.get?_empty]

theorem snapshot_empty (kind : Record.Kind) : empty.snapshot kind = [] := by
  rw [snapshot, bucket_empty]
  rfl

/-- Of several records that are filed under one place the last one stands there. -/
theorem get?_foldl_record (s : Store) (os : List Observation) (id : String)
    (kind : Record.Kind) :
    (os.foldl record s).get? id kind =
      (os.filter fun o => place o = (kind, id)).getLast?.or (s.get? id kind) := by
  induction os generalizing s with
  | nil => rfl
  | cons o os ih =>
      rw [List.foldl_cons, ih, get?_record, List.filter_cons]
      by_cases hplace : place o = (kind, id)
      · have heq : kind = o.kind ∧ id = o.id :=
          ⟨(congrArg Prod.fst hplace).symm, (congrArg Prod.snd hplace).symm⟩
        rw [if_pos heq, if_pos (decide_eq_true hplace), List.getLast?_cons]
        cases (os.filter fun x => place x = (kind, id)).getLast? <;> rfl
      · have hne : ¬(kind = o.kind ∧ id = o.id) := fun h =>
          hplace (Prod.ext h.1.symm h.2.symm)
        rw [if_neg hne, if_neg (by simpa using hplace)]

/-- Everything in a store that was filled from the beginning was filed there. -/
theorem mem_of_mem_snapshot {os : List Observation} {kind : Record.Kind} {o : Observation}
    (h : o ∈ (os.foldl record empty).snapshot kind) : o ∈ os ∧ o.kind = kind := by
  refine ⟨?_, kind_of_mem_snapshot h⟩
  obtain ⟨id, hfound⟩ := mem_snapshot.1 h
  rw [get?_foldl_record, get?_empty, Option.or_none] at hfound
  exact List.mem_of_mem_filter (List.mem_of_getLast? hfound)

/-- Records of which no two different ones belong to one place. -/
def Unambiguous (os : List Observation) : Prop :=
  ∀ o ∈ os, ∀ o' ∈ os, place o = place o' → o = o'

theorem Unambiguous.subset {os os' : List Observation} (h : Unambiguous os) (hsub : os' ⊆ os) :
    Unambiguous os' :=
  fun o ho o' ho' => h o (hsub ho) o' (hsub ho')

/-- What a bucket holds when the records that were filed there are unambiguous, however often
each was filed. -/
theorem mem_snapshot_of_unambiguous {os : List Observation} {kind : Record.Kind}
    (h : Unambiguous (os.filter fun o => o.kind = kind)) {o : Observation} :
    o ∈ (os.foldl record empty).snapshot kind ↔ o ∈ os ∧ o.kind = kind := by
  refine ⟨mem_of_mem_snapshot, ?_⟩
  rintro ⟨ho, rfl⟩
  rw [mem_snapshot_iff, get?_foldl_record]
  have hmem : o ∈ os.filter fun x => place x = (o.kind, o.id) :=
    List.mem_filter.2 ⟨ho, decide_eq_true rfl⟩
  cases hfound : (os.filter fun x => place x = (o.kind, o.id)).getLast? with
  | none =>
      rw [List.getLast?_eq_none_iff.1 hfound] at hmem
      exact absurd hmem List.not_mem_nil
  | some last =>
      -- whatever was filed last under this place is the same record
      obtain ⟨hlast, hplace⟩ := List.mem_filter.1 (List.mem_of_getLast? hfound)
      have hplace : place last = place o := of_decide_eq_true hplace
      have hkind : last.kind = o.kind := congrArg Prod.fst hplace
      have heq : last = o := h last (List.mem_filter.2 ⟨hlast, decide_eq_true hkind⟩) o
        (List.mem_filter.2 ⟨ho, decide_eq_true rfl⟩) hplace
      rw [heq]
      rfl

/-- What was filed since the store was last cleared, in order. -/
def sinceClear : List Change → List Observation
  | [] => []
  | .clear :: later => sinceClear later
  | .record o :: later =>
      if .clear ∈ later then sinceClear later else o :: sinceClear later

/-- A run leaves what was filed since the last clearing, whatever came before it. -/
theorem run_eq_foldl_sinceClear (s : Store) (changes : List Change) :
    s.run changes =
      (sinceClear changes).foldl record (if .clear ∈ changes then empty else s) := by
  induction changes generalizing s with
  | nil => simp [run, sinceClear]
  | cons c changes ih =>
      have hrun : s.run (c :: changes) = (s.apply c).run changes := rfl
      rw [hrun, ih]
      cases c with
      | clear => simp [sinceClear, apply, clear_eq_empty]
      | record o =>
          by_cases hclear : .clear ∈ changes
          · simp [sinceClear, hclear]
          · simp [sinceClear, hclear, apply]

end TopicWatch.Store
