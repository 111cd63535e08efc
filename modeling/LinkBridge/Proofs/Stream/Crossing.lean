import LinkBridge.Proofs.Progress.Queues

/-!
# LinkBridge.Proofs.Stream.Crossing

The queue between the two clock domains under every interleaving of its two sides. A `Crossing`
records what the writer handed to the queue and what the reader got from it, while either side does
what it likes whenever it likes. Each side has a flag of its own that allows one transfer per
commit, and sees of the other side only how many slots are free and which item is presented: the
reader can only make room, and nothing but the end of its tick presents an item.

Main statement: nothing is lost, duplicated or reordered on the way, and at most `capacity` items
are on it (`items_cross`).
-/

namespace LinkBridge

namespace CrossFifo

variable {α : Type}

/-- What the writer may do. -/
inductive Writing (α : Type) where
  | push (item : α)
  | commit
  | close

/-- What the reader may do. -/
inductive Reading where
  | take
  | peek
  | commit
  deriving DecidableEq

/-- An operation of either side. -/
abbrev Operation (α : Type) := Writing α ⊕ Reading

end CrossFifo

open CrossFifo (Writing Reading Operation)

/-- A queue and what has passed its two ends. -/
structure Crossing (α : Type) where
  queue : CrossFifo α
  /-- Items accepted from the writer. -/
  accepted : List α := []
  /-- Items taken by the reader. -/
  taken : List α := []

namespace Crossing

variable {α : Type}

/-- An empty queue that nothing has passed. -/
def start (capacity : Nat) : Crossing α :=
  { queue := .empty capacity }

/-- One operation. -/
def move (c : Crossing α) : Operation α → Crossing α
  | .inl (.push item) =>
    { c with queue := c.queue.push item
             accepted := c.accepted ++ if c.queue.accepts then [item] else [] }
  | .inl .commit => { c with queue := c.queue.commitWriter }
  | .inl .close => { c with queue := c.queue.closeWriter }
  | .inr .take => { c with queue := c.queue.take, taken := c.taken ++ c.queue.peek.toList }
  | .inr .peek => c
  | .inr .commit => { c with queue := c.queue.commitReader }

/-- Operations one after the other. -/
def play (c : Crossing α) (ops : List (Operation α)) : Crossing α :=
  ops.foldl move c

theorem play_append (c : Crossing α) (ops more : List (Operation α)) :
    c.play (ops ++ more) = (c.play ops).play more :=
  List.foldl_append

/-! ## where the items are -/

/-- What every operation keeps. -/
structure Sound (capacity : Nat) (c : Crossing α) : Prop where
  items : c.accepted = c.taken ++ c.queue.contents
  inBounds : c.queue.InBounds
  readerOpen : c.queue.readerOpen = true
  /-- An item taken leaves the place of the presented item empty until the end of the tick. -/
  popped : c.queue.popped = true → c.queue.head = none
  capacity_eq : c.queue.capacity = max capacity 2

variable {capacity : Nat} {c : Crossing α}

theorem sound_start (capacity : Nat) : (start capacity : Crossing α).Sound capacity where
  items := rfl
  inBounds := CrossFifo.inBounds_empty _
  readerOpen := rfl
  popped := nofun
  capacity_eq := rfl

theorem Sound.peek_eq (h : c.Sound capacity) : c.queue.peek = c.queue.head := by
  unfold CrossFifo.peek
  split
  · next hpopped => exact (h.popped hpopped).symm
  · rfl

theorem Sound.contents_eq (h : c.Sound capacity) :
    c.queue.contents = c.queue.peek.toList ++ c.queue.queue := by
  rw [h.peek_eq, CrossFifo.contents]

/-- **No operation loses, duplicates or reorders an item.** -/
theorem Sound.move (h : c.Sound capacity) (op : Operation α) : (c.move op).Sound capacity := by
  match op with
  | .inl (.push item) =>
      exact
        { items := by
            show c.accepted ++ _ = c.taken ++ (c.queue.push item).contents
            rw [h.items, CrossFifo.contents_push, List.append_assoc]
          inBounds := h.inBounds.push item
          readerOpen := by
            show (c.queue.push item).readerOpen = true
            unfold CrossFifo.push
            split <;> exact h.readerOpen
          popped := by
            show (c.queue.push item).popped = true → (c.queue.push item).head = none
            rw [CrossFifo.popped_push, CrossFifo.head_push]
            exact h.popped
          capacity_eq := (CrossFifo.capacity_push _ _).trans h.capacity_eq }
  | .inl .commit => exact { h with }
  | .inl .close => exact { h with }
  | .inr .take =>
      exact
        { items := by
            show c.accepted = c.taken ++ c.queue.peek.toList ++ c.queue.take.contents
            rw [h.items, c.queue.contents_take, List.append_assoc]
          inBounds := h.inBounds.take
          readerOpen := by
            show c.queue.take.readerOpen = true
            unfold CrossFifo.take
            split <;> exact h.readerOpen
          popped := by
            show c.queue.take.popped = true → c.queue.take.head = none
            unfold CrossFifo.take
            split
            · exact fun _ => rfl
            · exact h.popped
          capacity_eq := (CrossFifo.capacity_take _).trans h.capacity_eq }
  | .inr .peek => exact h
  | .inr .commit =>
      exact
        { items := by
            show c.accepted = c.taken ++ c.queue.commitReader.contents
            rw [CrossFifo.contents_commitReader, h.items]
          inBounds := h.inBounds.commitReader
          readerOpen := by
            show c.queue.commitReader.readerOpen = true
            unfold CrossFifo.commitReader
            split <;> exact h.readerOpen
          popped := by
            show c.queue.commitReader.popped = true → _
            unfold CrossFifo.commitReader
            split <;> nofun
          capacity_eq := (CrossFifo.capacity_commitReader _).trans h.capacity_eq }

theorem Sound.play (h : c.Sound capacity) (ops : List (Operation α)) :
    (c.play ops).Sound capacity := by
  induction ops generalizing c with
  | nil => exact h
  | cons op ops ih => exact ih (h.move op)

/-! ## one item per tick -/

/-- What is left to the writer before its next commit: one push, unless it was made. -/
def allowance (c : Crossing α) : Nat :=
  (!c.queue.pushed).toNat

/-- What is left to the reader before its next commit. -/
def demand (c : Crossing α) : Nat :=
  (!c.queue.popped).toNat

/-- A push that is accepted is the only one before the next commit of the writer. -/
theorem accepted_move (c : Crossing α) {op : Operation α} (hop : op ≠ .inl .commit) :
    (c.move op).accepted.length + (c.move op).allowance ≤ c.accepted.length + c.allowance := by
  match op with
  | .inl (.push item) =>
      show (c.accepted ++ _).length + (!(c.queue.push item).pushed).toNat ≤ _
      cases haccepts : c.queue.accepts with
      | false => simp [CrossFifo.push, haccepts, allowance]
      | true =>
          have hpushed : c.queue.pushed = false := by
            simp only [CrossFifo.accepts, CrossFifo.ready, Bool.and_eq_true,
              Bool.not_eq_true'] at haccepts
            exact haccepts.1.1.1
          simp [CrossFifo.push, haccepts, allowance, hpushed]
  | .inl .close => exact Nat.le_refl _
  | .inr .take =>
      show c.accepted.length + (!c.queue.take.pushed).toNat ≤ _
      rw [CrossFifo.pushed_take]
      exact Nat.le_refl _
  | .inr .peek => exact Nat.le_refl _
  | .inr .commit =>
      show c.accepted.length + (!c.queue.commitReader.pushed).toNat ≤ _
      rw [CrossFifo.pushed_commitReader]
      exact Nat.le_refl _

/-- An item taken is the only one before the next commit of the reader. -/
theorem taken_move (c : Crossing α) {op : Operation α} (hop : op ≠ .inr .commit) :
    (c.move op).taken.length + (c.move op).demand ≤ c.taken.length + c.demand := by
  match op with
  | .inl (.push item) =>
      show c.taken.length + (!(c.queue.push item).popped).toNat ≤ _
      rw [CrossFifo.popped_push]
      exact Nat.le_refl _
  | .inl .commit => exact Nat.le_refl _
  | .inl .close => exact Nat.le_refl _
  | .inr .take =>
      show (c.taken ++ c.queue.peek.toList).length + (!c.queue.take.popped).toNat ≤ _
      cases hpopped : c.queue.popped with
      | true => simp [CrossFifo.take, CrossFifo.peek, hpopped, demand]
      | false =>
          cases hhead : c.queue.head <;>
            simp [CrossFifo.take, CrossFifo.peek, hpopped, hhead, demand]
  | .inr .peek => exact Nat.le_refl _

/-- Between two commits of the writer at most one push is accepted. -/
theorem length_accepted_le (c : Crossing α) {ops : List (Operation α)}
    (hops : .inl .commit ∉ ops) : (c.play ops).accepted.length ≤ c.accepted.length + 1 := by
  have hplay : (c.play ops).accepted.length + (c.play ops).allowance ≤
      c.accepted.length + c.allowance :=
    List.foldlRecOn ops move (Nat.le_refl _) fun d hd op hop =>
      Nat.le_trans (d.accepted_move fun h => hops (h ▸ hop)) hd
  have hle : c.allowance ≤ 1 := Bool.toNat_le _
  omega

/-- Between two commits of the reader at most one item is taken. -/
theorem length_taken_le (c : Crossing α) {ops : List (Operation α)}
    (hops : .inr .commit ∉ ops) : (c.play ops).taken.length ≤ c.taken.length + 1 := by
  have hplay : (c.play ops).taken.length + (c.play ops).demand ≤ c.taken.length + c.demand :=
    List.foldlRecOn ops move (Nat.le_refl _) fun d hd op hop =>
      Nat.le_trans (d.taken_move fun h => hops (h ▸ hop)) hd
  have hle : c.demand ≤ 1 := Bool.toNat_le _
  omega

/-! ## what one side sees of the other -/

/-- The reader only makes room. -/
theorem accepts_read {c : Crossing α} (h : c.queue.accepts = true) (op : Reading) :
    (c.move (.inr op)).queue.accepts = true := by
  cases op with
  | take =>
      show c.queue.take.accepts = true
      unfold CrossFifo.take
      split <;> exact h
  | peek => exact h
  | commit =>
      show c.queue.commitReader.accepts = true
      unfold CrossFifo.commitReader
      split
      · simp only [CrossFifo.accepts, CrossFifo.ready, Bool.and_eq_true, decide_eq_true_eq,
          List.length_tail] at h ⊢
        exact ⟨⟨⟨h.1.1.1, by omega⟩, h.1.2⟩, h.2⟩
      · exact h

theorem accepts_reads {c : Crossing α} (h : c.queue.accepts = true) (ops : List Reading) :
    (c.play (ops.map .inr)).queue.accepts = true := by
  induction ops generalizing c with
  | nil => exact h
  | cons op ops ih => exact ih (accepts_read h op)

/-- The writer neither presents an item nor removes the presented one. -/
theorem head_write (c : Crossing α) (op : Writing α) :
    (c.move (.inl op)).queue.head = c.queue.head := by
  cases op with
  | push item => exact c.queue.head_push item
  | commit => rfl
  | close => rfl

theorem peek_write (c : Crossing α) (op : Writing α) :
    (c.move (.inl op)).queue.peek = c.queue.peek := by
  cases op with
  | push item => exact c.queue.peek_push item
  | commit => rfl
  | close => rfl

/-- What is presented after an operation was presented before, unless the reader's tick ended. -/
theorem peek_move {c : Crossing α} {op : Operation α} {item : α} (hop : op ≠ .inr .commit)
    (h : (c.move op).queue.peek = some item) : c.queue.peek = some item := by
  match op with
  | .inl op => rwa [peek_write] at h
  | .inr .peek => exact h
  | .inr .take =>
      have htake : c.queue.take.peek = some item := h
      unfold CrossFifo.take at htake
      split at htake
      · contradiction
      · exact htake

/-! ## a queue that fills up -/

/-- What the writer does on its own: the presented item stays, and so does a writer that is not
closed. -/
theorem play_writes (c : Crossing α) {ops : List (Writing α)} (hops : .close ∉ ops) :
    (c.play (ops.map .inl)).queue.head = c.queue.head ∧
      (c.play (ops.map .inl)).queue.writerOpen = c.queue.writerOpen := by
  induction ops generalizing c with
  | nil => exact ⟨rfl, rfl⟩
  | cons op ops ih =>
      obtain ⟨hop, hops⟩ := not_or.mp (mt List.mem_cons.mpr hops)
      obtain ⟨hhead, hopen⟩ := ih (c.move (.inl op)) hops
      refine ⟨hhead.trans (c.head_write op), hopen.trans ?_⟩
      cases op with
      | push item =>
          show (c.queue.push item).writerOpen = c.queue.writerOpen
          unfold CrossFifo.push
          split <;> rfl
      | commit => rfl
      | close => contradiction

/-- Behind a presented item, a push on a new tick is refused exactly when the queue is full. -/
theorem Sound.accepts_iff (h : c.Sound capacity) (hopen : c.queue.writerOpen = true)
    (hhead : c.queue.head.isSome = true) :
    c.queue.commitWriter.accepts = true ↔ c.queue.contents.length ≠ max capacity 2 := by
  have hstored : c.queue.contents.length = c.queue.queue.length + 1 := by
    obtain ⟨item, hitem⟩ := Option.isSome_iff_exists.mp hhead
    simp [CrossFifo.contents, hitem]
  have hbounds : c.queue.queue.length < c.queue.capacity := h.inBounds
  rw [hstored, ← h.capacity_eq]
  simp only [CrossFifo.accepts, CrossFifo.ready, CrossFifo.commitWriter, hopen, h.readerOpen,
    Bool.not_false, Bool.true_and, Bool.and_true, decide_eq_true_eq]
  omega

/-! ## a queue that runs empty -/

/-- A tick of a reader that takes what is presented to it. -/
def turn : List (Operation α) := [.inr .commit, .inr .take]

/-- The end of the reader's tick presents the oldest item. -/
theorem Sound.peek_commit (h : c.Sound capacity) :
    c.queue.commitReader.peek = c.queue.contents.head? := by
  have hcommit : (c.move (.inr .commit)).Sound capacity := h.move _
  have hpeek : c.queue.commitReader.peek = c.queue.commitReader.head := hcommit.peek_eq
  rw [hpeek, CrossFifo.commitReader, h.readerOpen, CrossFifo.contents]
  cases hhead : c.queue.head <;> simp

theorem Sound.play_turn (h : c.Sound capacity) :
    (c.play turn).taken = c.taken ++ c.queue.contents.take 1 ∧
      (c.play turn).queue.contents = c.queue.contents.drop 1 := by
  have hcontents := c.queue.commitReader.contents_take
  rw [CrossFifo.contents_commitReader, h.peek_commit] at hcontents
  show c.taken ++ c.queue.commitReader.peek.toList = _ ∧ c.queue.commitReader.take.contents = _
  rw [h.peek_commit]
  cases hstored : c.queue.contents with
  | nil => simpa [hstored] using hcontents
  | cons item rest => simpa [hstored] using hcontents.symm

/-- A reader that takes what is presented to it gets the items one after the other. -/
theorem Sound.play_turns (h : c.Sound capacity) (count : Nat) :
    (c.play (List.replicate count turn).flatten).taken =
      c.taken ++ c.queue.contents.take count := by
  induction count generalizing c with
  | zero => exact (List.append_nil _).symm
  | succ count ih =>
      obtain ⟨htaken, hcontents⟩ := h.play_turn
      rw [List.replicate_succ, List.flatten_cons, play_append, ih (h.play turn), htaken, hcontents,
        List.append_assoc, ← List.take_add]
      rw [Nat.add_comm]

/-! ## the whole queue -/

theorem accepted_push (c : Crossing α) (item : α) :
    (c.move (.inl (.push item))).accepted =
      c.accepted ++ if c.queue.accepts then [item] else [] := rfl

/-- A push is refused when it leaves no trace. -/
theorem refused_iff (c : Crossing α) (item : α) :
    (c.move (.inl (.push item))).accepted = c.accepted ↔ ¬c.queue.accepts = true := by
  rw [accepted_push]
  cases c.queue.accepts <;> simp

/-- The reader hands nothing to the queue. -/
theorem accepted_reads (c : Crossing α) (reads : List Reading) :
    (c.play (reads.map .inr)).accepted = c.accepted := by
  induction reads generalizing c with
  | nil => rfl
  | cons op reads ih =>
      refine (ih (c.move (.inr op))).trans ?_
      cases op <;> rfl

/-- **Items cross the queue in order, whatever its two sides do and when.** The items accepted are
those taken, then the presented one, then those behind it, at most `capacity` of them on the way.
Behind a presented item that the reader leaves alone, a writer that goes on is refused on a new tick
exactly when the queue is full; room that the writer sees stays, whatever the reader does. Each side
moves at most one item per commit of its own, only the end of the reader's tick presents an item,
and once the writer is closed the reader still gets everything. -/
theorem items_cross (capacity : Nat) (ops : List (Operation α)) :
    let c := (start capacity : Crossing α).play ops
    let q := c.queue
    c.accepted = c.taken ++ q.contents ∧ q.contents = q.peek.toList ++ q.queue ∧
      q.contents.length ≤ max capacity 2 ∧
      (q.writerOpen = true → q.peek.isSome = true → ∀ writes : List (Writing α), .close ∉ writes →
        let d := (c.play (writes.map .inl)).move (.inl .commit)
        d.queue.peek = q.peek ∧ ∀ item, (d.move (.inl (.push item))).accepted = d.accepted ↔
          d.queue.contents.length = max capacity 2) ∧
      (∀ more, .inl .commit ∉ more → (c.play more).accepted.length ≤ c.accepted.length + 1) ∧
      (∀ more, .inr .commit ∉ more → (c.play more).taken.length ≤ c.taken.length + 1) ∧
      (q.writerOpen = true → q.ready = true → ∀ (reads : List Reading) (item : α),
        ((c.play (reads.map .inr)).move (.inl (.push item))).accepted = c.accepted ++ [item]) ∧
      (∀ op item, op ≠ .inr .commit → (c.move op).queue.peek = some item →
        q.peek = some item) ∧
      ∀ (reads : List Reading) (count : Nat),
        let d := (c.move (.inl .close)).play (reads.map .inr)
        d.queue.contents.length ≤ count →
          (d.play (List.replicate count turn).flatten).taken = c.accepted := by
  intro c q
  have h : c.Sound capacity := (sound_start capacity).play ops
  refine ⟨h.items, h.contents_eq, ?_, fun hopen hpresented writes hwrites => ?_,
    fun more => c.length_accepted_le, fun more => c.length_taken_le, ?_, fun op item => peek_move,
    fun reads count hcount => ?_⟩
  · rw [← h.capacity_eq]
    exact h.inBounds.length_contents
  · intro d
    have hwritten : (c.play (writes.map .inl)).Sound capacity := h.play _
    have hd : d.Sound capacity := hwritten.move _
    obtain ⟨hhead, hwriter⟩ := c.play_writes hwrites
    have hpresented : (c.play (writes.map .inl)).queue.head.isSome = true := by
      rw [hhead, ← h.peek_eq]
      exact hpresented
    have haccepts := hwritten.accepts_iff (hwriter.trans hopen) hpresented
    constructor
    · rw [hd.peek_eq, h.peek_eq]
      exact hhead
    · intro item
      rw [refused_iff]
      exact haccepts.not_left
  · intro hopen hready reads item
    have haccepts : c.queue.accepts = true := by
      simp only [CrossFifo.accepts, Bool.and_eq_true]
      exact ⟨⟨hready, hopen⟩, h.readerOpen⟩
    rw [accepted_push, accepts_reads haccepts reads, accepted_reads]
    rfl
  · have hd : ((c.move (.inl .close)).play (reads.map .inr)).Sound capacity := (h.move _).play _
    rw [hd.play_turns, List.take_of_length_le hcount, ← hd.items, accepted_reads]
    rfl

/-- The shallowest queue is full with an item presented and one behind it: the next push is refused
on every tick, and both items are there for the reader once the writer is closed. -/
theorem items_cross_shallow :
    let c := (start 0 : Crossing Nat).play
      [.inl (.push 7), .inl .commit, .inr .commit, .inl (.push 9), .inl .commit]
    c.queue.peek = some 7 ∧ c.queue.contents.length = 2 ∧
      (((c.move (.inl (.push 5))).move (.inl .commit)).move (.inl (.push 5))).accepted = [7, 9] ∧
      ((c.move (.inl .close)).play (List.replicate 2 turn).flatten).taken = [7, 9] := by
  intro c
  obtain ⟨-, -, -, hrefused, -, -, -, -, hclosed⟩ := items_cross 0
    [.inl (.push 7), .inl .commit, .inr .commit, .inl (.push 9), .inl .commit]
  obtain ⟨-, hfull⟩ := hrefused rfl rfl [.push 5] (by simp)
  exact ⟨rfl, rfl, (hfull 5).mpr rfl, hclosed [] 2 (by decide)⟩

end Crossing

end LinkBridge
