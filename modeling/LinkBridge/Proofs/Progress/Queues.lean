import LinkBridge.Proofs.Stream.Blocks
import LinkBridge.Proofs.Stream.Contents

/-!
# LinkBridge.Proofs.Progress.Queues

What the queues contribute to progress. Every stored item weighs something, so a transfer makes a
queue heavier by what it sends and lighter by what it removes; between two ticks an empty queue is
ready and a queue that presents nothing is empty.
-/

namespace LinkBridge

/-! ## transfers -/

namespace Transfer

variable {S α β σ : Type}

/-- What a transfer removes of the presented item. -/
def removed (t : Transfer σ β) (input : Option α) : List α :=
  if t.taken then input.toList else []

theorem length_removed_of_taken {t : Transfer σ β} (h : t.taken = true) (x : α) :
    (t.removed (some x)).length = 1 := by
  simp [removed, h]

/-- A transfer that leaves everything as it was. -/
structure Rests (s : σ) (t : Transfer σ β) : Prop where
  next : t.next = s
  taken : t.taken = false
  sent : t.sent = none

theorem Rests.drain [Source S α] {s : σ} {t : Transfer σ β} (h : t.Rests s) (source : S) :
    t.drain source = source := by
  simp [Transfer.drain, h.taken]

theorem Rests.fill [Sink S β] {s : σ} {t : Transfer σ β} (h : t.Rests s) (sink : S) :
    t.fill sink = sink := by
  simp [Transfer.fill, h.sent]

end Transfer

/-! ## channels -/

namespace Channel

variable {α β σ : Type} (c : Channel α)

/-- A transfer makes its source lighter by what it removes. -/
theorem length_drain (t : Transfer σ β) :
    (t.drain c).contents.length + (t.removed c.peek).length = c.contents.length := by
  have h : c.contents = t.removed c.peek ++ (t.drain c).contents := Transfer.contents_eq_drain t c
  rw [h, List.length_append, Nat.add_comm]

/-- A transfer makes its sink heavier by what it sends, at most. -/
theorem length_fill_le (t : Transfer σ α) :
    (t.fill c).contents.length ≤ c.contents.length + t.sent.toList.length := by
  unfold Transfer.fill
  cases t.sent with
  | none => exact Nat.le_refl _
  | some item =>
      have h : (c.push item).contents = _ := c.contents_push item
      show (c.push item).contents.length ≤ _
      rw [h, List.length_append]
      split <;> simp

/-- A component that follows the blocks it takes follows those of its source. -/
theorem unfinished_drain {ends : α → Bool} {begun begun' : Bool} (t : Transfer σ β)
    (h : ∀ xs, unfinished ends begun' (t.left c.peek ++ xs) =
      unfinished ends begun (c.peek.toList ++ xs)) :
    unfinished ends begun' (t.drain c).contents = unfinished ends begun c.contents := by
  have hdrain : (t.drain c).contents = t.left c.peek ++ c.take.contents :=
    Transfer.contents_drain t c
  rw [hdrain, h, ← c.contents_take]

/-- Whether nothing has happened to a channel on this tick. -/
def Committed : Prop :=
  c.staged = none ∧ c.popped = false

theorem committed_commit : c.commit.Committed := ⟨rfl, rfl⟩

variable {c}

theorem Committed.commit_eq (h : c.Committed) : c.commit = c := by
  obtain ⟨hstaged, hpopped⟩ := h
  rw [commit, hstaged, Option.toList_none, List.append_nil, ← hpopped, ← hstaged]

/-- What presents nothing stores nothing. -/
theorem Committed.contents_eq_nil (h : c.Committed) (hpeek : c.peek = none) : c.contents = [] := by
  obtain ⟨hstaged, hpopped⟩ := h
  simpa [peek, hpopped, contents, hstaged] using hpeek

/-- What stores nothing has room. -/
theorem Committed.ready (h : c.Committed) (hcapacity : 0 < c.capacity) (hnil : c.contents = []) :
    c.ready = true := by
  obtain ⟨hstaged, hpopped⟩ := h
  obtain ⟨hqueue, -⟩ := List.append_eq_nil_iff.mp hnil
  simpa [Channel.ready, hstaged, hpopped, hqueue] using hcapacity

theorem isEmpty_of_contents (h : c.contents = []) : c.isEmpty = true := by
  obtain ⟨hqueue, hstaged⟩ := List.append_eq_nil_iff.mp h
  simpa [isEmpty, hqueue] using hstaged

end Channel

/-! ## queues between the domains -/

namespace CrossFifo

variable {α β σ : Type} (q : CrossFifo α)

/-! What happened on a tick of one end is no business of the other end. -/

theorem pushed_take : q.take.pushed = q.pushed := by
  unfold take
  split <;> rfl

theorem pushed_drain (t : Transfer σ β) : (t.drain q).pushed = q.pushed := by
  show (if t.taken then q.take else q).pushed = q.pushed
  split
  · exact q.pushed_take
  · rfl

theorem popped_push (item : α) : (q.push item).popped = q.popped := by
  unfold push
  split <;> rfl

theorem head_push (item : α) : (q.push item).head = q.head := by
  unfold push
  split <;> rfl

theorem peek_push (item : α) : (q.push item).peek = q.peek := by
  unfold peek
  rw [popped_push, head_push]

theorem popped_fill (t : Transfer σ α) : (t.fill q).popped = q.popped := by
  unfold Transfer.fill
  cases t.sent with
  | none => rfl
  | some item => exact q.popped_push item

theorem pushed_commitReader : q.commitReader.pushed = q.pushed := by
  unfold commitReader
  split <;> rfl

theorem popped_commitReader : q.commitReader.popped = false := by
  unfold commitReader
  split <;> rfl

/-- An item that is not presented yet weighs more than one that is. -/
def load : Nat :=
  2 * q.queue.length + q.head.toList.length

@[simp] theorem load_commitWriter : q.commitWriter.load = q.load := rfl

/-- A transfer makes its source lighter by what it removes. -/
theorem load_drain (t : Transfer σ β) :
    (t.drain q).load + (t.removed q.peek).length = q.load := by
  show (if t.taken then q.take else q).load + _ = _
  unfold Transfer.removed
  split
  · unfold take
    cases hpeek : q.peek with
    | none => simp
    | some x =>
        have hhead : q.head = some x := by
          unfold peek at hpeek
          split at hpeek <;> simp_all
        simp [load, hhead]
  · simp

/-- A transfer makes its sink heavier by what it sends, at most. -/
theorem load_fill_le (t : Transfer σ α) :
    (t.fill q).load ≤ q.load + 2 * t.sent.toList.length := by
  unfold Transfer.fill
  cases t.sent with
  | none => simp
  | some item =>
      show (q.push item).load ≤ _
      unfold push
      split
      · simp only [load, List.length_append, List.length_singleton, Option.toList_some]
        omega
      · omega

/-- The end of the reader's tick presents the next item, unless one is presented or there is none. -/
theorem load_commitReader (q : CrossFifo α) :
    q.commitReader.load < q.load ∨
      q.commitReader = { q with popped := false } ∧
        (q.readerOpen = true → q.head = none → q.queue = []) := by
  unfold commitReader
  cases hhead : q.head with
  | some x => exact .inr ⟨rfl, nofun⟩
  | none =>
      cases hopen : q.readerOpen with
      | false => exact .inr ⟨rfl, nofun⟩
      | true =>
          cases hqueue : q.queue with
          | nil => exact .inr ⟨by simp, fun _ _ => rfl⟩
          | cons x rest =>
              refine .inl ?_
              simp [load, hqueue, hhead]
              omega

/-- Ending the reader's tick never adds weight. -/
theorem load_commitReader_le : q.commitReader.load ≤ q.load := by
  obtain h | ⟨h, -⟩ := q.load_commitReader
  · exact Nat.le_of_lt h
  · rw [h]
    exact Nat.le_refl _

end CrossFifo

end LinkBridge
