import LinkBridge.Stream.Handshake

/-!
# LinkBridge.Stream.Channel

The registered channel between two components of one clock domain. An item pushed during a tick is
*staged* and becomes visible at the next `commit`; a slot freed by taking an item becomes usable at
the same moment. So within a tick neither end sees what the other does, and the order in which the
two ends act does not matter (`take_push`).
-/

namespace LinkBridge

/-- A bounded queue whose transfers take effect at the tick boundary. -/
structure Channel (α : Type) where
  capacity : Nat
  /-- Committed items, oldest first. -/
  queue : List α := []
  /-- The item accepted on this tick. -/
  staged : Option α := none
  /-- Whether an item was taken on this tick. -/
  popped : Bool := false
  deriving DecidableEq, Inhabited

namespace Channel

variable {α : Type}

/-- An empty channel; it always has room for at least one item. -/
def empty (capacity : Nat) : Channel α :=
  { capacity := max capacity 1 }

/-! ## The two ends -/

/-- The item presented to the consumer: the oldest one, unless one was taken on this tick. -/
def peek (c : Channel α) : Option α :=
  if c.popped then none else c.queue.head?

/-- Takes the presented item. -/
def take (c : Channel α) : Channel α :=
  match c.peek with
  | some _ => { c with queue := c.queue.tail, popped := true }
  | none => c

/-- A slot freed on this tick still counts as used. -/
def ready (c : Channel α) : Bool :=
  c.staged.isNone && decide (c.queue.length + c.popped.toNat < c.capacity)

/-- Stages an item, if there is room. -/
def push (c : Channel α) (item : α) : Channel α :=
  if c.ready then { c with staged := some item } else c

instance : Source (Channel α) α := ⟨peek, take⟩

instance : Sink (Channel α) α := ⟨ready, push⟩

/-! ## Tick boundary -/

/-- Ends the tick: the staged item joins the queue and freed slots become usable. -/
def commit (c : Channel α) : Channel α :=
  { c with queue := c.queue ++ c.staged.toList, staged := none, popped := false }

/-- Discards every item. -/
def flush (c : Channel α) : Channel α :=
  { capacity := c.capacity }

/-- Stored items, the staged one included. -/
def level (c : Channel α) : Nat :=
  c.queue.length + c.staged.toList.length

/-- Whether nothing is stored. -/
def isEmpty (c : Channel α) : Bool :=
  c.queue.isEmpty && c.staged.isNone

/-- Everything stored, oldest first. -/
def contents (c : Channel α) : List α :=
  c.queue ++ c.staged.toList

/-! ## Laws -/

theorem contents_commit (c : Channel α) : c.commit.contents = c.contents := by
  simp [contents, commit]

theorem contents_push (c : Channel α) (item : α) :
    (c.push item).contents = c.contents ++ (if c.ready then [item] else []) := by
  unfold push
  split
  · next h =>
    have : c.staged = none := by simp_all [ready]
    simp [contents, this]
  · simp

theorem contents_take (c : Channel α) : c.contents = c.peek.toList ++ c.take.contents := by
  unfold take
  cases hp : c.peek with
  | none => simp
  | some x =>
    have hq : x :: c.queue.tail = c.queue := by
      simp only [peek] at hp
      split at hp
      · simp at hp
      · obtain ⟨rest, hq⟩ := List.head?_eq_some_iff.1 hp
        rw [hq, List.tail_cons]
    simp only [contents, Option.toList_some, ← List.append_assoc, List.singleton_append, hq]

theorem peek_push (c : Channel α) (item : α) : (c.push item).peek = c.peek := by
  unfold push
  split <;> rfl

theorem ready_take (c : Channel α) : c.take.ready = c.ready := by
  unfold take
  cases hp : c.peek with
  | none => rfl
  | some x =>
    have hpop : c.popped = false := by
      cases h : c.popped <;> simp_all [peek]
    have hlen : c.queue.length = c.queue.tail.length + 1 := by
      cases hq : c.queue <;> simp_all [peek]
    simp only [ready, hpop, hlen, Bool.toNat_true, Bool.toNat_false, Nat.add_zero]

/-- Within a tick it does not matter which end acts first. -/
theorem take_push (c : Channel α) (item : α) : (c.push item).take = c.take.push item := by
  have hr := ready_take c
  simp only [push, hr]
  by_cases h : c.ready = true
  · simp only [h, if_true]
    unfold take
    have : ({ c with staged := some item } : Channel α).peek = c.peek := rfl
    rw [this]
    cases c.peek <;> rfl
  · simp [h]

end Channel

end LinkBridge
