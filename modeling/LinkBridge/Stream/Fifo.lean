import LinkBridge.Stream.Handshake

/-!
# LinkBridge.Stream.Fifo

A bounded queue inside one clock domain whose pushes and takes are visible at once.
-/

namespace LinkBridge

/-- A bounded first-in first-out queue. -/
structure Fifo (α : Type) where
  capacity : Nat
  /-- Stored items, oldest first. -/
  queue : List α := []
  deriving DecidableEq, Inhabited

namespace Fifo

variable {α : Type}

/-- An empty queue; it always has room for at least one item. -/
def empty (capacity : Nat) : Fifo α :=
  { capacity := max capacity 1 }

/-- The oldest item. -/
def peek (q : Fifo α) : Option α :=
  q.queue.head?

/-- Removes the oldest item. -/
def take (q : Fifo α) : Fifo α :=
  { q with queue := q.queue.tail }

/-- Number of stored items. -/
def level (q : Fifo α) : Nat :=
  q.queue.length

/-- Whether there is room for an item. -/
def ready (q : Fifo α) : Bool :=
  decide (q.level < q.capacity)

/-- Appends an item, if there is room. -/
def push (q : Fifo α) (item : α) : Fifo α :=
  if q.ready then { q with queue := q.queue ++ [item] } else q

/-- Discards every item. -/
def flush (q : Fifo α) : Fifo α :=
  { q with queue := [] }

/-- Whether nothing is stored. -/
def isEmpty (q : Fifo α) : Bool :=
  q.queue.isEmpty

instance : Source (Fifo α) α := ⟨peek, take⟩

instance : Sink (Fifo α) α := ⟨ready, push⟩

theorem queue_push (q : Fifo α) (item : α) :
    (q.push item).queue = q.queue ++ (if q.ready then [item] else []) := by
  unfold push
  split <;> simp_all

theorem queue_take (q : Fifo α) : q.queue = q.peek.toList ++ q.take.queue := by
  cases h : q.queue <;> simp [peek, take, h]

end Fifo

end LinkBridge
