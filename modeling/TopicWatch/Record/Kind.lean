import TopicWatch.Json.Form
import TopicWatch.Text.Ascii

/-!
# Kinds of records

The six buckets of the store, in a fixed order.
-/

namespace TopicWatch.Record

open Json

/-- The bucket a record belongs to. -/
inductive Kind where
  | published
  | consumed
  | committed
  | acknowledged
  | retried
  | failed
  deriving DecidableEq, Repr

namespace Kind

/-- All kinds in their order. -/
def all : List Kind := [published, consumed, committed, acknowledged, retried, failed]

/-- The place of a kind among all kinds. -/
def index : Kind → Nat
  | published => 0
  | consumed => 1
  | committed => 2
  | acknowledged => 3
  | retried => 4
  | failed => 5

/-- The name of a kind. -/
def name : Kind → String
  | published => "published"
  | consumed => "consumed"
  | committed => "committed"
  | acknowledged => "acknowledged"
  | retried => "retried"
  | failed => "failed"

/-- The kind with a given name, without regard to ASCII case. -/
def ofName? (s : String) : Option Kind :=
  all.find? fun kind => Ascii.equalFold kind.name s

/-- What is said about a name that no kind has. -/
def unknownMessage (s : String) : String := s!"unknown record kind '{s}'"

/-- The kinds by name. -/
def table : List (String × Kind) := all.map fun kind => (kind.name, kind)

/-- A kind in JSON, where case matters. -/
def form : Form Kind := .named table name

@[simp] theorem all_index (kind : Kind) : all[kind.index]? = some kind := by
  cases kind <;> rfl

theorem mem_all (kind : Kind) : kind ∈ all := List.mem_of_getElem? kind.all_index

theorem index_lt (kind : Kind) : kind.index < 6 := by
  cases kind <;> decide

theorem index_injective {a b : Kind} (h : a.index = b.index) : a = b := by
  have hsome : some a = some b := by rw [← all_index a, h, all_index]
  exact Option.some.inj hsome

/-- The place of a kind, as one of six. -/
def slot (kind : Kind) : Fin 6 := ⟨kind.index, kind.index_lt⟩

theorem exists_slot : ∀ i : Fin 6, ∃ kind : Kind, kind.slot = i := by
  intro i
  refine ⟨all[i], ?_⟩
  revert i
  decide

theorem name_injective {a b : Kind} (h : a.name = b.name) : a = b := by
  cases a <;> cases b <;> first | rfl | exact absurd h (by decide)

end Kind

end TopicWatch.Record
