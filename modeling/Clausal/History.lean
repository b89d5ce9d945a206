import Clausal.Trail

/-!
What happens to a trail, as a list of events: it gains an entry or it is cut back.
-/
namespace Clausal

inductive Event where
  | assigned (entry : Entry)
  | backtracked (checkpoint : Nat)
deriving DecidableEq

/-- The latest event comes first. -/
abbrev History := List Event

namespace History

/-- The events by which the first trail has grown into the second. -/
def growth (t u : Trail) : History := (u.entries.take (u.size - t.size)).map .assigned

end History

end Clausal
