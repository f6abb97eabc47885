import TopicWatch.Store.Basic

/-!
# Records by their kinds

A record of a kind can be filed without wrapping it, and the records of a kind can be listed
without their wrapping.
-/

namespace TopicWatch

open Record

/-- What is recorded under a kind. -/
def Record.Kind.Message : Record.Kind → Type
  | published => Published
  | consumed | retried => Consumed
  | committed => Committed
  | acknowledged => Acknowledged
  | failed => Failed

namespace Record.Observation

/-- The observation of a record under a kind. -/
def ofMessage : (kind : Record.Kind) → kind.Message → Observation
  | .published => published
  | .consumed => consumed
  | .committed => committed
  | .acknowledged => acknowledged
  | .retried => retried
  | .failed => failed

/-- The record of an observation, if that is of the given kind. -/
def message? : (kind : Record.Kind) → Observation → Option kind.Message
  | .published, published m => some m
  | .consumed, consumed m => some m
  | .committed, committed m => some m
  | .acknowledged, acknowledged m => some m
  | .retried, retried m => some m
  | .failed, failed m => some m
  | _, _ => none

@[simp] theorem kind_ofMessage (kind : Record.Kind) (m : kind.Message) :
    (ofMessage kind m).kind = kind := by
  cases kind <;> rfl

/-- An observation is that of its record under its kind. -/
theorem exists_message {o : Observation} {kind : Record.Kind} (h : o.kind = kind) :
    ∃ m, o.message? kind = some m ∧ ofMessage kind m = o := by
  subst h
  cases o <;> exact ⟨_, rfl, rfl⟩

end Record.Observation

namespace Store

/-- Files a record under a kind. -/
def recordAs (s : Store) (kind : Record.Kind) (m : kind.Message) : Store :=
  s.record (.ofMessage kind m)

/-- The records of a kind. An observation of another kind would be left out. -/
def messages (s : Store) (kind : Record.Kind) : List kind.Message :=
  (s.snapshot kind).filterMap (Observation.message? kind)

/-- What can be done to a store. -/
inductive Operation where
  | record (o : Observation)
  | recordAs (kind : Record.Kind) (m : kind.Message)
  | clear

/-- The change that an operation makes. -/
def Operation.change : Operation → Change
  | record o => .record o
  | recordAs kind m => .record (.ofMessage kind m)
  | clear => .clear

/-- The store after an operation. -/
def perform (s : Store) : Operation → Store
  | .record o => s.record o
  | .recordAs kind m => s.recordAs kind m
  | .clear => s.clear

/-- The store after operations in a row. -/
def performAll (s : Store) (operations : List Operation) : Store := operations.foldl perform s

theorem perform_eq_apply (s : Store) (op : Operation) : s.perform op = s.apply op.change := by
  cases op <;> rfl

theorem performAll_eq_run (s : Store) (operations : List Operation) :
    s.performAll operations = s.run (operations.map Operation.change) := by
  rw [run, List.foldl_map, performAll]
  congr 1
  funext s op
  exact s.perform_eq_apply op

end Store

end TopicWatch
