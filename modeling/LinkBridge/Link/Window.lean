/-!
# LinkBridge.Link.Window

The limit on how long one direction may hold the bus. The timer is reloaded on every tick on which
its direction does not hold the bus and counts down while it does; it expires on the `limit`-th tick
in a row. A limit of zero switches it off.
-/

namespace LinkBridge.Link

/-- The timer of one direction. -/
structure Window where
  /-- Ticks a window may last; zero means no limit. -/
  limit : Nat
  /-- Ticks until the timer expires. -/
  remaining : Nat
  deriving DecidableEq, Inhabited

namespace Window

/-- A freshly loaded timer. -/
def ofLimit (limit : Nat) : Window :=
  { limit, remaining := limit - 1 }

/-- Whether the window was held for as long as it may be. -/
def expired (w : Window) : Bool :=
  w.limit != 0 && w.remaining == 0

/-- Loads the timer again. -/
def reload (w : Window) : Window :=
  .ofLimit w.limit

/-- Counts one tick, on which the direction did (`held`) or did not hold the bus. -/
def tick (w : Window) (held : Bool) : Window :=
  if held then { w with remaining := w.remaining - 1 } else w.reload

end Window

end LinkBridge.Link
