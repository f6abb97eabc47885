import TopicWatch.Store.Basic
import TopicWatch.Wait.Pace

/-!
# Stores that change with time

A timeline lists changes with the instants at which they happen. A pass sees a change when
it happened at or before the instant of the pass.
-/

namespace TopicWatch.Wait

/-- Changes with the instants at which they happen. -/
abbrev Timeline := List (Nat × List Store.Change)

namespace Timeline

/-- The changes up to an instant, in the order of the timeline. -/
def upTo (t : Timeline) (now : Nat) : List Store.Change :=
  (t.filter fun e => decide (e.1 ≤ now)).flatMap Prod.snd

/-- The store at an instant. -/
def storeAt (t : Timeline) (before : Store) (now : Nat) : Store := before.run (t.upTo now)

end Timeline

end TopicWatch.Wait
