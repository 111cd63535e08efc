import LinkBridge.Stream.Channel
import LinkBridge.Stream.CrossFifo
import LinkBridge.Stream.Fifo

/-!
# LinkBridge.Proofs.Stream.Contents

What a stage between two queues leaves unchanged. A queue is known by the list of items it stores,
and a stage by its *future*: what it will still send, given everything it will still take. Whatever
moves on one tick, the items behind the stage followed by its future are the same before and after
(`Transfer.Conserves.contents`), so stages can be studied one by one and put together by
substituting one future into the next.
-/

namespace LinkBridge

/-! ## queues -/

/-- A queue whose stored items can be listed, oldest first. -/
class Stores (Q : Type) (α : outParam Type) [Source Q α] [Sink Q α] where
  contents : Q → List α
  /-- Whether a queue that is ready stores what it is offered. -/
  Open : Q → Prop
  contents_take (q : Q) : contents q = (Source.peek q).toList ++ contents (Source.take q)
  contents_push (q : Q) (item : α) :
    Open q → Sink.ready q = true → contents (Sink.push q item) = contents q ++ [item]

instance {α : Type} : Stores (Channel α) α where
  contents := Channel.contents
  Open _ := True
  contents_take := Channel.contents_take
  contents_push c item _ hready := by
    have hpush := Channel.contents_push c item
    rwa [if_pos (show c.ready = true from hready)] at hpush

instance {α : Type} : Stores (Fifo α) α where
  contents := Fifo.queue
  Open _ := True
  contents_take := Fifo.queue_take
  contents_push q item _ hready := by
    have hpush := Fifo.queue_push q item
    rwa [if_pos (show q.ready = true from hready)] at hpush

namespace CrossFifo

variable {α : Type}

/-- A queue neither half of which is closed. -/
def IsOpen (q : CrossFifo α) : Prop :=
  q.writerOpen = true ∧ q.readerOpen = true

theorem isOpen_empty (capacity : Nat) : (empty capacity : CrossFifo α).IsOpen :=
  ⟨rfl, rfl⟩

@[simp] theorem isOpen_push (q : CrossFifo α) (item : α) : (q.push item).IsOpen ↔ q.IsOpen := by
  unfold push
  split <;> rfl

@[simp] theorem isOpen_take (q : CrossFifo α) : q.take.IsOpen ↔ q.IsOpen := by
  unfold take
  split <;> rfl

@[simp] theorem isOpen_commitReader (q : CrossFifo α) : q.commitReader.IsOpen ↔ q.IsOpen := by
  unfold commitReader
  split <;> rfl

@[simp] theorem isOpen_drain {β σ : Type} (t : Transfer σ β) (q : CrossFifo α) :
    (t.drain q).IsOpen ↔ q.IsOpen := by
  unfold Transfer.drain
  split
  · exact q.isOpen_take
  · rfl

@[simp] theorem isOpen_fill {σ : Type} (t : Transfer σ α) (q : CrossFifo α) :
    (t.fill q).IsOpen ↔ q.IsOpen := by
  unfold Transfer.fill
  split
  · exact q.isOpen_push _
  · rfl

@[simp] theorem capacity_push (q : CrossFifo α) (item : α) : (q.push item).capacity = q.capacity := by
  unfold push
  split <;> rfl

@[simp] theorem capacity_take (q : CrossFifo α) : q.take.capacity = q.capacity := by
  unfold take
  split <;> rfl

@[simp] theorem capacity_commitWriter (q : CrossFifo α) : q.commitWriter.capacity = q.capacity := rfl

@[simp] theorem capacity_commitReader (q : CrossFifo α) : q.commitReader.capacity = q.capacity := by
  unfold commitReader
  split <;> rfl

@[simp] theorem capacity_fill {σ : Type} (t : Transfer σ α) (q : CrossFifo α) :
    (t.fill q).capacity = q.capacity := by
  unfold Transfer.fill
  split
  · exact q.capacity_push _
  · rfl

@[simp] theorem capacity_drain {β σ : Type} (t : Transfer σ β) (q : CrossFifo α) :
    (t.drain q).capacity = q.capacity := by
  unfold Transfer.drain
  split
  · exact q.capacity_take
  · rfl

/-- Nothing is stored where the reader sees nothing. -/
theorem contents_of_readerEmpty {q : CrossFifo α} (h : q.readerEmpty = true) :
    q.contents = [] := by
  obtain ⟨hhead, hqueue⟩ : q.head = none ∧ q.queue = [] := by simpa [readerEmpty] using h
  rw [contents, hhead, hqueue]
  rfl

/-- Whether the queue proper leaves a slot for the presented item. -/
def InBounds (q : CrossFifo α) : Prop :=
  q.queue.length < q.capacity

theorem inBounds_empty (capacity : Nat) : (empty capacity : CrossFifo α).InBounds := by
  simp only [InBounds, empty, List.length_nil]
  omega

/-- With a slot left, no more than the capacity is stored. -/
theorem InBounds.length_contents {q : CrossFifo α} (h : q.InBounds) :
    q.contents.length ≤ q.capacity := by
  unfold InBounds at h
  cases hhead : q.head <;> simp [contents, hhead] <;> omega

theorem InBounds.push {q : CrossFifo α} (h : q.InBounds) (item : α) : (q.push item).InBounds := by
  unfold CrossFifo.push
  split
  · next haccepts =>
    simp only [accepts, ready, Bool.and_eq_true, decide_eq_true_eq] at haccepts
    simp only [InBounds, List.length_append, List.length_singleton]
    omega
  · exact h

theorem InBounds.take {q : CrossFifo α} (h : q.InBounds) : q.take.InBounds := by
  unfold CrossFifo.take
  split <;> exact h

theorem InBounds.commitReader {q : CrossFifo α} (h : q.InBounds) : q.commitReader.InBounds := by
  unfold CrossFifo.commitReader
  split
  · simp only [InBounds, List.length_tail] at h ⊢
    omega
  · exact h

theorem InBounds.fill {σ : Type} {q : CrossFifo α} (h : q.InBounds) (t : Transfer σ α) :
    (t.fill q).InBounds := by
  unfold Transfer.fill
  split
  · exact h.push _
  · exact h

theorem InBounds.drain {β σ : Type} {q : CrossFifo α} (h : q.InBounds) (t : Transfer σ β) :
    (t.drain q).InBounds := by
  unfold Transfer.drain
  split
  · exact h.take
  · exact h

end CrossFifo

instance {α : Type} : Stores (CrossFifo α) α where
  contents := CrossFifo.contents
  Open := CrossFifo.IsOpen
  contents_take := CrossFifo.contents_take
  contents_push q item hopen hready := by
    have haccepts : q.accepts = true := by
      have hr : q.ready = true := hready
      simp only [CrossFifo.accepts, hr, hopen.1, hopen.2, Bool.and_true]
    have hpush := CrossFifo.contents_push q item
    rwa [if_pos haccepts] at hpush

namespace Channel

variable {α : Type}

@[simp] theorem capacity_push (c : Channel α) (item : α) : (c.push item).capacity = c.capacity := by
  unfold push
  split <;> rfl

@[simp] theorem capacity_take (c : Channel α) : c.take.capacity = c.capacity := by
  unfold take
  split <;> rfl

@[simp] theorem capacity_commit (c : Channel α) : c.commit.capacity = c.capacity := rfl

@[simp] theorem capacity_flush (c : Channel α) : c.flush.capacity = c.capacity := rfl

@[simp] theorem capacity_fill {σ : Type} (t : Transfer σ α) (c : Channel α) :
    (t.fill c).capacity = c.capacity := by
  unfold Transfer.fill
  split
  · exact c.capacity_push _
  · rfl

@[simp] theorem capacity_drain {β σ : Type} (t : Transfer σ β) (c : Channel α) :
    (t.drain c).capacity = c.capacity := by
  unfold Transfer.drain
  split
  · exact c.capacity_take
  · rfl

/-- An empty channel stores nothing. -/
theorem contents_of_isEmpty {c : Channel α} (h : c.isEmpty = true) : c.contents = [] := by
  obtain ⟨hqueue, hstaged⟩ : c.queue = [] ∧ c.staged = none := by simpa [isEmpty] using h
  rw [contents, hqueue, hstaged]
  rfl

end Channel

/-! ## transfers -/

namespace Transfer

variable {S T α β σ : Type}

/-- What a transfer leaves of the presented item. -/
def left (t : Transfer σ β) (input : Option α) : List α :=
  if t.taken then [] else input.toList

theorem left_of_taken {t : Transfer σ β} (h : t.taken = true) (input : Option α) :
    t.left input = [] :=
  if_pos h

theorem left_of_not_taken {t : Transfer σ β} (h : t.taken = false) (input : Option α) :
    t.left input = input.toList :=
  if_neg (by rw [h]; exact Bool.false_ne_true)

/-- A transfer that changes nothing about what is to come: what the component sends on this tick,
followed by its future, is the future it had. -/
structure Conserves (future : σ → List α → List β) (s : σ) (input : Option α) (ready : Bool)
    (t : Transfer σ β) : Prop where
  ready : t.sent.isSome = true → ready = true
  future (xs : List α) :
    t.sent.toList ++ future t.next (t.left input ++ xs) = future s (input.toList ++ xs)

section

variable [Source S α] [Sink S α] [Stores S α] [Source T β] [Sink T β] [Stores T β]

/-- Draining a queue removes the presented item if it was taken. -/
theorem contents_drain (t : Transfer σ β) (source : S) :
    Stores.contents (t.drain source) =
      t.left (Source.peek source) ++ Stores.contents (Source.take source) := by
  unfold drain left
  split
  · rfl
  · exact Stores.contents_take source

/-- Everything a queue stored was taken or is still there. -/
theorem contents_eq_drain (t : Transfer σ β) (source : S) :
    Stores.contents source =
      (if t.taken then (Source.peek source).toList else []) ++
        Stores.contents (t.drain source) := by
  unfold drain
  split
  · exact Stores.contents_take source
  · rfl

/-- Filling a queue appends the item sent. -/
theorem contents_fill (t : Transfer σ β) (sink : T) (hopen : Stores.Open sink)
    (hready : t.sent.isSome = true → Sink.ready sink = true) :
    Stores.contents (t.fill sink) = Stores.contents sink ++ t.sent.toList := by
  unfold fill
  cases hsent : t.sent with
  | none => simp
  | some item => exact Stores.contents_push sink item hopen (hready (by rw [hsent]; rfl))

/-- **A stage between two queues changes nothing about what is to come.** -/
theorem Conserves.contents {future : σ → List α → List β} {s : σ} {t : Transfer σ β} (source : S)
    (sink : T) (h : t.Conserves future s (Source.peek source) (Sink.ready sink))
    (hopen : Stores.Open sink) (xs : List α) :
    Stores.contents (t.fill sink) ++ future t.next (Stores.contents (t.drain source) ++ xs) =
      Stores.contents sink ++ future s (Stores.contents source ++ xs) := by
  rw [t.contents_fill sink hopen h.ready, contents_drain, Stores.contents_take source,
    List.append_assoc, List.append_assoc, h.future, List.append_assoc]

end

end Transfer

end LinkBridge
