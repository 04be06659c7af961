import SatClient.Bridge

/-!
# Reading a trace

A trace holds all that happened. Different readers look for different things in it.

* `Event.ofClosures`, `Event.ofSolver`: what closures saw, and what a native solver saw
* `lines`: the log
* `requests`: the names that were asked of a resolver
* `droppedTags`: the closures that were dropped
-/

namespace SatClient

/-- Whether something happened to a function that was called back. -/
def Event.ofClosures : Event → Bool
  | asked .. | heard .. | foreignAsked | foreignHeard _ => true
  | _ => false

/-- Whether a native solver took part. Of an init the return counts, which leaves a handle; of any
other call the call. -/
def Event.ofSolver : Event → Bool
  | called _ _ call => call != .init
  | returned _ call _ => call == .init
  | answered _ | offered | unregistered _ => true
  | _ => false

def Event.line? : Event → Option String
  | notice n => some n.line
  | _ => none

/-- The log of a trace. -/
def lines (trace : List Event) : List String := trace.filterMap Event.line?

def Event.request? : Event → Option String
  | requested symbol => some symbol
  | _ => none

/-- The names asked of a resolver, in order. -/
def requests (trace : List Event) : List String := trace.filterMap Event.request?

def Event.droppedTag? : Event → Option String
  | dropped _ _ tag => some tag
  | _ => none

/-- The tags of the closures that were dropped, in order of the tags. -/
def droppedTags (trace : List Event) : List String :=
  (trace.filterMap Event.droppedTag?).mergeSort fun a b => decide (a ≤ b)

end SatClient
