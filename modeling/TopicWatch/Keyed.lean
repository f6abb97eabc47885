/-!
# Ordered maps with text keys

A map is its list of entries, with keys in ascending order and none twice. Text is ordered
character by character, which is also the order of its UTF-8 bytes.
-/

namespace TopicWatch.Keyed

variable {α β : Type}

/-- Entries whose keys ascend. -/
def Ascending (entries : List (String × α)) : Prop :=
  entries.Pairwise fun a b => a.1 < b.1

/-- Gives a key a value; a key that is there already gets the new one. -/
def insert (key : String) (value : α) : List (String × α) → List (String × α)
  | [] => [(key, value)]
  | (k, v) :: rest =>
      if key = k then (key, value) :: rest
      else if key < k then (key, value) :: (k, v) :: rest
      else (k, v) :: insert key value rest

/-- The value of a key. -/
def find? (key : String) : List (String × α) → Option α
  | [] => none
  | (k, v) :: rest => if key = k then some v else find? key rest

/-- The map of a list of pairs; of several values for one key the last one counts. -/
def ofPairs (pairs : List (String × α)) : List (String × α) :=
  pairs.foldl (fun entries p => insert p.1 p.2 entries) []

theorem lt_of_ne_of_not_lt {a b : String} (hne : a ≠ b) (hnot : ¬a < b) : b < a :=
  String.not_le.mp fun hle => hne (String.le_antisymm hle (String.not_lt.mp hnot))

theorem mem_insert {key : String} {value : α} {entries : List (String × α)}
    {e : String × α} (he : e ∈ insert key value entries) : e.1 = key ∨ e ∈ entries := by
  induction entries with
  | nil =>
      simp only [insert, List.mem_singleton] at he
      exact Or.inl (he ▸ rfl)
  | cons head rest ih =>
      obtain ⟨k, v⟩ := head
      simp only [insert] at he
      split at he
      · rcases List.mem_cons.1 he with rfl | h
        · exact Or.inl rfl
        · exact Or.inr (List.mem_cons_of_mem _ h)
      · split at he
        · rcases List.mem_cons.1 he with rfl | h
          · exact Or.inl rfl
          · exact Or.inr h
        · rcases List.mem_cons.1 he with rfl | h
          · exact Or.inr List.mem_cons_self
          · exact (ih h).imp id (List.mem_cons_of_mem _)

/-- Inserting keeps the order of the keys. -/
theorem ascending_insert {key : String} {value : α} {entries : List (String × α)}
    (h : Ascending entries) : Ascending (insert key value entries) := by
  induction entries with
  | nil => exact List.pairwise_singleton _ _
  | cons head rest ih =>
      obtain ⟨k, v⟩ := head
      have hrest : Ascending rest := (List.pairwise_cons.1 h).2
      have hhead : ∀ e ∈ rest, k < e.1 := (List.pairwise_cons.1 h).1
      simp only [insert]
      split
      · next heq => exact List.pairwise_cons.2 ⟨heq ▸ hhead, hrest⟩
      · next hne =>
          split
          · next hlt =>
              refine List.pairwise_cons.2 ⟨fun e he => ?_, h⟩
              rcases List.mem_cons.1 he with rfl | he
              · exact hlt
              · exact String.lt_trans hlt (hhead e he)
          · next hnot =>
              refine List.pairwise_cons.2 ⟨fun e he => ?_, ih hrest⟩
              rcases mem_insert he with heq | he
              · exact heq ▸ lt_of_ne_of_not_lt hne hnot
              · exact hhead e he

/-- A key that was just given a value has it; every other key keeps its own. -/
theorem find?_insert (key k : String) (value : α) (entries : List (String × α)) :
    find? k (insert key value entries) = if k = key then some value else find? k entries := by
  induction entries with
  | nil => simp [insert, find?]
  | cons head rest ih =>
      obtain ⟨k', v⟩ := head
      simp only [insert]
      by_cases h1 : key = k'
      · subst h1
        by_cases h2 : k = key <;> simp [find?, h2]
      · by_cases h3 : key < k'
        · by_cases h2 : k = key <;> simp [find?, h1, h3, h2]
        · simp only [h1, h3, if_false, find?, ih]
          by_cases h2 : k = key
          · subst h2
            simp [h1]
          · simp [h2]

theorem ascending_ofPairs (pairs : List (String × α)) : Ascending (ofPairs pairs) := by
  have aux : ∀ (entries : List (String × α)), Ascending entries →
      Ascending (pairs.foldl (fun entries p => insert p.1 p.2 entries) entries) := by
    induction pairs with
    | nil => exact fun _ h => h
    | cons p pairs ih => exact fun entries h => ih _ (ascending_insert h)
  exact aux [] List.Pairwise.nil

/-- An ordered map. -/
structure Map (α : Type) where
  entries : List (String × α)
  ascending : Ascending entries
  deriving DecidableEq

namespace Map

/-- The map without entries. -/
def empty : Map α := ⟨[], List.Pairwise.nil⟩

instance : Inhabited (Map α) := ⟨empty⟩

/-- The value of a key. -/
def get? (m : Map α) (key : String) : Option α := find? key m.entries

/-- Gives a key a value; a key that is there already gets the new one. -/
def insert (m : Map α) (key : String) (value : α) : Map α :=
  ⟨Keyed.insert key value m.entries, ascending_insert m.ascending⟩

/-- The map of a list of pairs; of several values for one key the last one counts. -/
def ofPairs (pairs : List (String × α)) : Map α :=
  ⟨Keyed.ofPairs pairs, ascending_ofPairs pairs⟩

/-- The values in the order of their keys. -/
def values (m : Map α) : List α := m.entries.map Prod.snd

/-- The number of entries. -/
def size (m : Map α) : Nat := m.entries.length

/-- Whether there is no entry. -/
def isEmpty (m : Map α) : Bool := m.entries.isEmpty

@[simp] theorem get?_empty (key : String) : (empty : Map α).get? key = none := rfl

theorem get?_insert (m : Map α) (key k : String) (value : α) :
    (m.insert key value).get? k = if k = key then some value else m.get? k :=
  find?_insert key k value m.entries

theorem length_values (m : Map α) : m.values.length = m.size := by
  simp [values, size]

end Map

end TopicWatch.Keyed
