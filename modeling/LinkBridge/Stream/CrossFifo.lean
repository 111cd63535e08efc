import LinkBridge.Stream.Handshake

/-!
# LinkBridge.Stream.CrossFifo

The queue between the two clock domains. Its writer and its reader belong to different domains, and
each ends its ticks with a commit of its own. The reader holds the *presented* word outside the
queue, so the queue proper has one slot less than the whole. Each side moves at most one item per
commit of its own, and a reset of either domain leaves the stored items alone.

Either half can be closed. A closed writer accepts nothing more, while the reader still gets what
was stored. A closed reader takes nothing more: the presented item is gone, and the items behind it
keep their slots.
-/

namespace LinkBridge

/-- A bounded queue between two clock domains. -/
structure CrossFifo (α : Type) where
  capacity : Nat
  /-- Items stored and not yet presented, oldest first. -/
  queue : List α := []
  /-- The item presented to the reader. -/
  head : Option α := none
  /-- Whether the writer pushed since its last commit. -/
  pushed : Bool := false
  /-- Whether the reader took an item since its last commit. -/
  popped : Bool := false
  writerOpen : Bool := true
  readerOpen : Bool := true
  deriving DecidableEq, Inhabited

namespace CrossFifo

variable {α : Type}

/-- An empty queue; a capacity below two is raised to two. -/
def empty (capacity : Nat) : CrossFifo α :=
  { capacity := max capacity 2 }

/-! ## Writer -/

/-- Whether the writer has not pushed on this tick and sees a free slot. -/
def ready (q : CrossFifo α) : Bool :=
  !q.pushed && decide (q.queue.length < q.capacity - 1)

/-- Whether a push goes through: a slot alone is not enough once a half is closed. -/
def accepts (q : CrossFifo α) : Bool :=
  q.ready && q.writerOpen && q.readerOpen

/-- Stores an item, if the push goes through. -/
def push (q : CrossFifo α) (item : α) : CrossFifo α :=
  if q.accepts then { q with queue := q.queue ++ [item], pushed := true } else q

/-- Ends the writer's tick. -/
def commitWriter (q : CrossFifo α) : CrossFifo α :=
  { q with pushed := false }

/-- Closes the writer. -/
def closeWriter (q : CrossFifo α) : CrossFifo α :=
  { q with writerOpen := false }

/-- Items the writer sees: those not yet presented. -/
def writerLevel (q : CrossFifo α) : Nat :=
  q.queue.length

/-! ## Reader -/

/-- The item the reader may take on this tick. -/
def peek (q : CrossFifo α) : Option α :=
  if q.popped then none else q.head

/-- Takes the presented item. -/
def take (q : CrossFifo α) : CrossFifo α :=
  match q.peek with
  | some _ => { q with head := none, popped := true }
  | none => q

/-- Ends the reader's tick and presents the next item if none is presented. -/
def commitReader (q : CrossFifo α) : CrossFifo α :=
  if q.head.isNone && q.readerOpen then
    { q with head := q.queue.head?, queue := q.queue.tail, popped := false }
  else { q with popped := false }

/-- Closes the reader and discards the presented item. -/
def closeReader (q : CrossFifo α) : CrossFifo α :=
  { q with head := none, readerOpen := false }

/-- Items the reader sees: the presented one and those behind it. -/
def readerLevel (q : CrossFifo α) : Nat :=
  q.queue.length + q.head.toList.length

/-- Whether nothing is stored, as the writer sees it. -/
def writerEmpty (q : CrossFifo α) : Bool :=
  q.queue.isEmpty

/-- Whether nothing is stored, as the reader sees it. -/
def readerEmpty (q : CrossFifo α) : Bool :=
  q.head.isNone && q.queue.isEmpty

instance : Source (CrossFifo α) α := ⟨peek, take⟩

instance : Sink (CrossFifo α) α := ⟨ready, push⟩

/-! ## Laws -/

/-- Everything stored, oldest first. -/
def contents (q : CrossFifo α) : List α :=
  q.head.toList ++ q.queue

theorem contents_push (q : CrossFifo α) (item : α) :
    (q.push item).contents = q.contents ++ (if q.accepts then [item] else []) := by
  unfold push
  split <;> simp_all [contents]

theorem contents_take (q : CrossFifo α) : q.contents = q.peek.toList ++ q.take.contents := by
  unfold take
  cases hp : q.peek with
  | none => simp
  | some x =>
    have : q.head = some x := by
      simp only [peek] at hp
      split at hp <;> simp_all
    simp [contents, this]

theorem contents_commitReader (q : CrossFifo α) : q.commitReader.contents = q.contents := by
  unfold commitReader contents
  split
  · cases hq : q.queue <;> simp_all
  · rfl

theorem contents_commitWriter (q : CrossFifo α) : q.commitWriter.contents = q.contents := rfl

end CrossFifo

end LinkBridge
