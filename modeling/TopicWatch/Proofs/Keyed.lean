import TopicWatch.Keyed

/-!
# Laws of ordered maps

A map is determined by its entries, inserting entries in ascending order appends them, and
inserting a new key adds one value and touches no other. The entries are what can be looked
up, so values that tell their own keys are all different. In the map of a list of pairs the last
pair of a key counts.
-/

namespace TopicWatch.Keyed

variable {α : Type}

theorem insert_of_forall_lt {key : String} {entries : List (String × α)}
    (h : ∀ e ∈ entries, e.1 < key) (value : α) :
    insert key value entries = entries ++ [(key, value)] := by
  induction entries with
  | nil => rfl
  | cons head rest ih =>
      obtain ⟨k, v⟩ := head
      obtain ⟨hlt, hrest⟩ := List.forall_mem_cons.1 h
      have hne : key ≠ k := fun heq => String.lt_irrefl k (heq ▸ hlt)
      have hnot : ¬key < k := fun hgt => String.lt_irrefl k (String.lt_trans hlt hgt)
      rw [insert, if_neg hne, if_neg hnot, ih hrest]
      rfl

theorem foldl_insert_of_ascending (entries pairs : List (String × α))
    (h : Ascending (entries ++ pairs)) :
    pairs.foldl (fun found p => insert p.1 p.2 found) entries = entries ++ pairs := by
  induction pairs generalizing entries with
  | nil => exact (List.append_nil entries).symm
  | cons p pairs ih =>
      have hlt : ∀ e ∈ entries, e.1 < p.1 := fun e he =>
        (List.pairwise_append.1 h).2.2 e he p List.mem_cons_self
      rw [List.append_cons] at h ⊢
      rw [List.foldl_cons, insert_of_forall_lt hlt, ih _ h]

theorem ofPairs_of_ascending {pairs : List (String × α)} (h : Ascending pairs) :
    ofPairs pairs = pairs :=
  foldl_insert_of_ascending [] pairs h

/-- After a list of pairs a key has the value of its last pair, or else the one it had before. -/
theorem find?_foldl_insert (pairs entries : List (String × α)) (key : String) :
    find? key (pairs.foldl (fun found p => insert p.1 p.2 found) entries) =
      ((pairs.filter fun p => p.1 = key).getLast?.map Prod.snd).or (find? key entries) := by
  induction pairs generalizing entries with
  | nil => rfl
  | cons p pairs ih =>
      rw [List.foldl_cons, ih, find?_insert, List.filter_cons]
      by_cases hkey : p.1 = key
      · rw [if_pos hkey.symm, if_pos (decide_eq_true hkey), List.getLast?_cons]
        cases (pairs.filter fun p => p.1 = key).getLast? <;> rfl
      · rw [if_neg (Ne.symm hkey), if_neg (by simpa using hkey)]

theorem insert_perm {key : String} {entries : List (String × α)}
    (h : find? key entries = none) (value : α) :
    (insert key value entries).Perm ((key, value) :: entries) := by
  induction entries with
  | nil => exact List.Perm.refl _
  | cons head rest ih =>
      obtain ⟨k, v⟩ := head
      have hne : key ≠ k := by
        intro heq
        simp [find?, heq] at h
      rw [find?, if_neg hne] at h
      rw [insert, if_neg hne]
      split
      · exact List.Perm.refl _
      · exact ((ih h).cons _).trans (List.Perm.swap _ _ _)

/-- What stands among ascending entries is what look-up finds. -/
theorem mem_of_find? {entries : List (String × α)} {key : String} {value : α}
    (h : find? key entries = some value) : (key, value) ∈ entries := by
  induction entries with
  | nil => exact nomatch h
  | cons e entries ih =>
      rw [find?] at h
      split at h
      · next heq =>
          obtain rfl := Option.some.inj h
          exact heq ▸ List.mem_cons_self
      · exact List.mem_cons_of_mem e (ih h)

theorem mem_iff_find? {entries : List (String × α)} (h : Ascending entries) (key : String)
    (value : α) : (key, value) ∈ entries ↔ find? key entries = some value := by
  induction entries with
  | nil => simp [find?]
  | cons head rest ih =>
      obtain ⟨k, v⟩ := head
      obtain ⟨hhead, hrest⟩ := List.pairwise_cons.1 h
      rw [List.mem_cons, find?]
      by_cases heq : key = k
      · -- a key that is at the front does not come again
        subst heq
        have hout : (key, value) ∉ rest := fun hmem => String.lt_irrefl key (hhead _ hmem)
        simp [hout, eq_comm]
      · simp [heq, ih hrest]

theorem find?_map {β : Type} (f : α → β) (key : String) (entries : List (String × α)) :
    find? key (entries.map (Prod.map id f)) = (find? key entries).map f := by
  induction entries with
  | nil => rfl
  | cons e entries ih =>
      rw [List.map_cons, find?, find?]
      by_cases h : key = e.1 <;> simp [h, ih]

theorem find?_filter {key : String} {keep : String × α → Bool} (h : ∀ v, keep (key, v) = true)
    (entries : List (String × α)) : find? key (entries.filter keep) = find? key entries := by
  induction entries with
  | nil => rfl
  | cons e entries ih =>
      obtain ⟨k, v⟩ := e
      by_cases hkey : key = k
      · subst hkey
        rw [List.filter_cons_of_pos (h v), find?, find?, if_pos rfl, if_pos rfl]
      · rw [List.filter_cons, find?, if_neg hkey]
        split
        · rw [find?, if_neg hkey, ih]
        · exact ih

namespace Map

theorem mem_values {m : Map α} {v : α} : v ∈ m.values ↔ ∃ key, m.get? key = some v := by
  simp only [values, get?, List.mem_map, Prod.exists, mem_iff_find? m.ascending,
    exists_eq_right]

/-- Values that stand under their own names have different names. -/
theorem nodup_map_values {m : Map α} {name : α → String}
    (h : ∀ key v, m.get? key = some v → name v = key) : (m.values.map name).Nodup := by
  have hnames : m.values.map name = m.entries.map Prod.fst := by
    rw [values, List.map_map]
    apply List.map_congr_left
    rintro ⟨key, v⟩ hmem
    exact h key v ((mem_iff_find? m.ascending key v).1 hmem)
  rw [hnames]
  exact List.pairwise_map.2 (m.ascending.imp String.ne_of_lt)

/-- A new key adds its value to the values of a map. -/
theorem values_insert_perm {m : Map α} {key : String} (h : m.get? key = none) (value : α) :
    (m.insert key value).values.Perm (value :: m.values) :=
  (insert_perm h value).map Prod.snd

theorem ext_entries {m m' : Map α} (h : m.entries = m'.entries) : m = m' := by
  cases m
  cases m'
  cases h
  rfl

/-- A key has the value of the last pair with it. -/
theorem get?_ofPairs (pairs : List (String × α)) (key : String) :
    (ofPairs pairs).get? key = (pairs.filter fun p => p.1 = key).getLast?.map Prod.snd :=
  (find?_foldl_insert pairs [] key).trans Option.or_none

theorem ofPairs_entries (m : Map α) : ofPairs m.entries = m :=
  ext_entries (ofPairs_of_ascending m.ascending)

end Map

end TopicWatch.Keyed
