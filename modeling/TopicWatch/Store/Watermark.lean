import TopicWatch.Record.Message

/-!
# Watermarks of commits

For every partition of every topic the greatest offset that was ever committed. A
watermark only moves forward.
-/

namespace TopicWatch.Store

open Record

/-- The greatest committed offset of each partition. -/
abbrev Watermarks := List ((String × Partition) × Offset)

namespace Watermarks

/-- The watermark of a partition. -/
def get? (place : String × Partition) : Watermarks → Option Offset
  | [] => none
  | (p, highest) :: rest => if place = p then some highest else get? place rest

/-- Moves the watermark of a partition forward to an offset that lies beyond it. -/
def advance (place : String × Partition) (offset : Offset) : Watermarks → Watermarks
  | [] => [(place, offset)]
  | (p, highest) :: rest =>
      if place = p then (p, if highest < offset then offset else highest) :: rest
      else (p, highest) :: advance place offset rest

/-- Whether the watermark of a partition lies beyond an offset. -/
def covers (marks : Watermarks) (topic : String) (partition : Partition) (offset : Offset) :
    Bool :=
  (marks.get? (topic, partition)).any fun highest => decide (offset < highest)

/-- A partition that was advanced has the greater of the two offsets, every other one keeps
its own. -/
theorem get?_advance (place other : String × Partition) (offset : Offset)
    (marks : Watermarks) :
    (marks.advance place offset).get? other =
      if other = place then
        some (match marks.get? place with
          | some highest => if highest < offset then offset else highest
          | none => offset)
      else marks.get? other := by
  induction marks with
  | nil => by_cases h : other = place <;> simp [advance, get?, h]
  | cons head rest ih =>
      obtain ⟨p, highest⟩ := head
      by_cases h1 : place = p
      · subst h1
        by_cases h2 : other = place <;> simp [advance, get?, h2]
      · by_cases h2 : other = p
        · subst h2
          have h3 : ¬other = place := fun h => h1 h.symm
          simp [advance, get?, h1, h3]
        · simp only [advance, h1, if_false, get?, h2, ih]

end Watermarks

end TopicWatch.Store
