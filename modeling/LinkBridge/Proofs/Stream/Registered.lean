import LinkBridge.Proofs.Stream.Contents

/-!
# LinkBridge.Proofs.Stream.Registered

The registered channel under every script of operations. A `Log` records what has passed the two
ends of a channel; what a push takes up and what a slot freed on the same tick still takes up never
exceed the capacity together, so the end of the tick always finds room for the staged item. Within a
tick the two ends do not notice each other (`Tick.step_comm`): whatever is called at one end changes
neither what the other end is answered nor what it leaves behind.
-/

namespace LinkBridge.Channel

variable {α : Type}

/-! ## scripts -/

/-- What may happen to a channel. -/
inductive Operation (α : Type) where
  | push (item : α)
  | take
  | commit
  | flush

/-- A channel and what has passed its ends. -/
structure Log (α : Type) where
  channel : Channel α
  /-- Items accepted since the last flush. -/
  accepted : List α := []
  /-- Items taken since the last flush. -/
  taken : List α := []
  /-- Pushes that succeeded so far. -/
  pushes : Nat := 0
  /-- Takes that succeeded so far. -/
  takes : Nat := 0

namespace Log

/-- An empty channel that nothing has passed. -/
def start (capacity : Nat) : Log α :=
  { channel := .empty capacity }

/-- One operation. -/
def move (l : Log α) : Operation α → Log α
  | .push item =>
    { l with channel := l.channel.push item
             accepted := l.accepted ++ if l.channel.ready then [item] else []
             pushes := l.pushes + l.channel.ready.toNat }
  | .take =>
    { l with channel := l.channel.take
             taken := l.taken ++ l.channel.peek.toList
             takes := l.takes + l.channel.peek.isSome.toNat }
  | .commit => { l with channel := l.channel.commit }
  | .flush => { l with channel := l.channel.flush, accepted := [], taken := [] }

/-- Operations one after the other. -/
def play (l : Log α) (ops : List (Operation α)) : Log α :=
  ops.foldl move l

/-! ## where the items are -/

/-- What every operation keeps. -/
structure Sound (capacity : Nat) (l : Log α) : Prop where
  items : l.accepted = l.taken ++ l.channel.contents
  /-- A slot freed on this tick is not free yet. -/
  slots : l.channel.contents.length + l.channel.popped.toNat ≤ l.channel.capacity
  capacity_eq : l.channel.capacity = max capacity 1

variable {capacity : Nat} {l : Log α}

theorem sound_start (capacity : Nat) : (start capacity : Log α).Sound capacity where
  items := rfl
  slots := Nat.zero_le _
  capacity_eq := rfl

/-- What is taken leaves its slot in use until the end of the tick. -/
theorem slots_take (c : Channel α) :
    c.take.contents.length + c.take.popped.toNat = c.contents.length + c.popped.toNat := by
  have hcontents := congrArg List.length c.contents_take
  rw [List.length_append] at hcontents
  unfold take at hcontents ⊢
  cases hpeek : c.peek with
  | none => rfl
  | some item =>
      have hpopped : c.popped = false := by
        cases hcase : c.popped <;> simp_all [peek]
      simp only [hpeek, Option.toList_some, List.length_singleton] at hcontents ⊢
      rw [hcontents, hpopped]
      simp only [Bool.toNat_true, Bool.toNat_false]
      omega

theorem slots_push {c : Channel α} (h : c.contents.length + c.popped.toNat ≤ c.capacity)
    (item : α) : (c.push item).contents.length + (c.push item).popped.toNat ≤ c.capacity := by
  have hpopped : (c.push item).popped = c.popped := by
    unfold push
    split <;> rfl
  rw [contents_push, hpopped]
  cases hready : c.ready with
  | false => simpa using h
  | true =>
      obtain ⟨hstaged, hroom⟩ : c.staged = none ∧ c.queue.length + c.popped.toNat < c.capacity := by
        simpa [ready] using hready
      simp [contents, hstaged]
      omega

/-- **No operation loses, duplicates or reorders an item, and none needs a slot that is not
there.** -/
theorem Sound.move (h : l.Sound capacity) (op : Operation α) : (l.move op).Sound capacity := by
  cases op with
  | push item =>
      exact
        { items := by
            show l.accepted ++ _ = l.taken ++ (l.channel.push item).contents
            rw [h.items, contents_push, List.append_assoc]
          slots := by
            show _ ≤ (l.channel.push item).capacity
            rw [capacity_push]
            exact slots_push h.slots item
          capacity_eq := (capacity_push _ _).trans h.capacity_eq }
  | take =>
      exact
        { items := by
            show l.accepted = l.taken ++ l.channel.peek.toList ++ l.channel.take.contents
            rw [h.items, l.channel.contents_take, List.append_assoc]
          slots := by
            show l.channel.take.contents.length + l.channel.take.popped.toNat ≤
              l.channel.take.capacity
            rw [slots_take, capacity_take]
            exact h.slots
          capacity_eq := (capacity_take _).trans h.capacity_eq }
  | commit =>
      exact
        { items := by
            show l.accepted = l.taken ++ l.channel.commit.contents
            rw [contents_commit, h.items]
          slots := by
            show l.channel.commit.contents.length + 0 ≤ l.channel.capacity
            rw [contents_commit]
            exact Nat.le_trans (Nat.le_add_right _ _) h.slots
          capacity_eq := h.capacity_eq }
  | flush => exact { items := rfl, slots := Nat.zero_le _, capacity_eq := h.capacity_eq }

theorem Sound.play (h : l.Sound capacity) (ops : List (Operation α)) :
    (l.play ops).Sound capacity := by
  induction ops generalizing l with
  | nil => exact h
  | cons op ops ih => exact ih (h.move op)

/-! ## one item per tick -/

/-- A push that succeeds is the only one before the next commit or flush. -/
theorem pushes_move (l : Log α) {op : Operation α} (hcommit : op ≠ .commit) (hflush : op ≠ .flush) :
    (l.move op).pushes + (l.move op).channel.staged.isNone.toNat ≤
      l.pushes + l.channel.staged.isNone.toNat := by
  cases op with
  | push item =>
      show l.pushes + l.channel.ready.toNat + (l.channel.push item).staged.isNone.toNat ≤ _
      unfold push
      cases hready : l.channel.ready with
      | false => exact Nat.le_refl _
      | true =>
          have hstaged : l.channel.staged.isNone = true := by
            simp only [ready, Bool.and_eq_true] at hready
            exact hready.1
          rw [hstaged]
          exact Nat.le_refl _
  | take =>
      show l.pushes + l.channel.take.staged.isNone.toNat ≤ _
      unfold take
      split <;> exact Nat.le_refl _
  | commit => contradiction
  | flush => contradiction

/-- A take that succeeds is the only one before the next commit: what a flush leaves has nothing to
take. -/
theorem takes_move (l : Log α) {op : Operation α} (hcommit : op ≠ .commit) :
    (l.move op).takes + (l.move op).channel.peek.isSome.toNat ≤
      l.takes + l.channel.peek.isSome.toNat := by
  cases op with
  | push item =>
      have hpeek : (l.channel.push item).peek = l.channel.peek := l.channel.peek_push item
      exact Nat.le_of_eq (congrArg (fun shown => l.takes + shown.isSome.toNat) hpeek)
  | take =>
      show l.takes + l.channel.peek.isSome.toNat + l.channel.take.peek.isSome.toNat ≤ _
      unfold take
      cases hpeek : l.channel.peek with
      | none => simp [hpeek]
      | some item => exact Nat.le_refl _
  | commit => contradiction
  | flush => exact Nat.le_add_right _ _

theorem pushes_play_le (l : Log α) {ops : List (Operation α)} (hcommit : .commit ∉ ops)
    (hflush : .flush ∉ ops) : (l.play ops).pushes ≤ l.pushes + 1 := by
  have hplay : (l.play ops).pushes + (l.play ops).channel.staged.isNone.toNat ≤
      l.pushes + l.channel.staged.isNone.toNat :=
    List.foldlRecOn ops move (Nat.le_refl _) fun k hk op hop => Nat.le_trans
      (k.pushes_move (fun h => hcommit (h ▸ hop)) fun h => hflush (h ▸ hop)) hk
  have hle := Bool.toNat_le l.channel.staged.isNone
  omega

theorem takes_play_le (l : Log α) {ops : List (Operation α)} (hcommit : .commit ∉ ops) :
    (l.play ops).takes ≤ l.takes + 1 := by
  have hplay : (l.play ops).takes + (l.play ops).channel.peek.isSome.toNat ≤
      l.takes + l.channel.peek.isSome.toNat :=
    List.foldlRecOn ops move (Nat.le_refl _) fun k hk op hop => Nat.le_trans
      (k.takes_move fun h => hcommit (h ▸ hop)) hk
  have hle := Bool.toNat_le l.channel.peek.isSome
  omega

end Log

/-! ## within a tick -/

/-- What the producer may call within a tick. -/
inductive Producing (α : Type) where
  | push (item : α)
  | ready

/-- What the consumer may call within a tick. -/
inductive Consuming where
  | take
  | peek
  | valid

/-- What the consumer is answered: an item or none, or whether there is one. -/
inductive Answer (α : Type) where
  | item (item : Option α)
  | valid (presented : Bool)

/-- A channel within a tick, with the answers its two ends got since the tick began. -/
structure Tick (α : Type) where
  channel : Channel α
  /-- What the producer was answered. -/
  produced : List Bool := []
  /-- What the consumer was answered. -/
  consumed : List (Answer α) := []

namespace Tick

/-- One call of either end. -/
def step (t : Tick α) : Producing α ⊕ Consuming → Tick α
  | .inl (.push item) =>
    { t with channel := t.channel.push item, produced := t.produced ++ [t.channel.ready] }
  | .inl .ready => { t with produced := t.produced ++ [t.channel.ready] }
  | .inr .take =>
    { t with channel := t.channel.take, consumed := t.consumed ++ [.item t.channel.peek] }
  | .inr .peek => { t with consumed := t.consumed ++ [.item t.channel.peek] }
  | .inr .valid => { t with consumed := t.consumed ++ [.valid t.channel.peek.isSome] }

/-- Calls one after the other. -/
def run (t : Tick α) (calls : List (Producing α ⊕ Consuming)) : Tick α :=
  calls.foldl step t

theorem run_append (t : Tick α) (calls more : List (Producing α ⊕ Consuming)) :
    t.run (calls ++ more) = (t.run calls).run more :=
  List.foldl_append

/-- **Calls of different ends can be exchanged.** -/
theorem step_comm (t : Tick α) (p : Producing α) (q : Consuming) :
    (t.step (.inl p)).step (.inr q) = (t.step (.inr q)).step (.inl p) := by
  cases p <;> cases q <;> simp only [step, take_push, ready_take, peek_push]

/-- A call of the consumer can be made behind those of the producer. -/
theorem run_produced (t : Tick α) (ps : List (Producing α)) (q : Consuming) :
    (t.step (.inr q)).run (ps.map .inl) = (t.run (ps.map .inl)).step (.inr q) := by
  induction ps generalizing t with
  | nil => rfl
  | cons p ps ih =>
      show ((t.step (.inr q)).step (.inl p)).run _ = ((t.step (.inl p)).run _).step _
      rw [← step_comm, ih]

/-- **The order between the two ends does not matter.** The producer may make all its calls first. -/
theorem run_eq (t : Tick α) (calls : List (Producing α ⊕ Consuming)) :
    t.run calls =
      t.run ((calls.filterMap Sum.getLeft?).map .inl ++
        (calls.filterMap Sum.getRight?).map .inr) := by
  induction calls generalizing t with
  | nil => rfl
  | cons call calls ih =>
      cases call with
      | inl p => exact ih (t.step (.inl p))
      | inr q =>
          show (t.step (.inr q)).run calls = t.run (_ ++ .inr q :: _)
          rw [ih, run_append, run_produced, run_append]
          rfl

end Tick

/-! ## the whole channel -/

/-- **A registered channel moves items in order, and within a tick its ends do not notice each
other.** The items accepted since the last flush are those taken since, then the committed ones,
then the staged one; together with a slot freed on this tick they never exceed the capacity. At most
one take succeeds between two commits, and at most one push as long as nothing is flushed in
between. Two scripts of calls within a tick that agree on what each end calls agree on what it is
answered, and leave the same channel behind. -/
theorem items_registered (capacity : Nat) (ops : List (Operation α)) :
    let l := (Log.start capacity : Log α).play ops
    let c := l.channel
    l.accepted = l.taken ++ c.queue ++ c.staged.toList ∧
      c.queue.length + c.staged.toList.length + c.popped.toNat ≤ max capacity 1 ∧
      (∀ more, .commit ∉ more → .flush ∉ more → (l.play more).pushes ≤ l.pushes + 1) ∧
      (∀ more, .commit ∉ more → (l.play more).takes ≤ l.takes + 1) ∧
      ∀ calls calls' : List (Producing α ⊕ Consuming),
        calls.filterMap Sum.getLeft? = calls'.filterMap Sum.getLeft? →
        calls.filterMap Sum.getRight? = calls'.filterMap Sum.getRight? →
        let t := Tick.run { channel := c } calls
        let t' := Tick.run { channel := c } calls'
        t.produced = t'.produced ∧ t.consumed = t'.consumed ∧
          t.channel.commit = t'.channel.commit := by
  intro l c
  have h : l.Sound capacity := (Log.sound_start capacity).play ops
  refine ⟨?_, ?_, fun more => l.pushes_play_le, fun more => l.takes_play_le, ?_⟩
  · rw [h.items, contents, List.append_assoc]
  · have hslots := h.slots
    rwa [contents, List.length_append, h.capacity_eq] at hslots
  · intro calls calls' hproduced hconsumed t t'
    have hrun : t = t' := by
      show Tick.run _ calls = Tick.run _ calls'
      rw [Tick.run_eq, hproduced, hconsumed, ← Tick.run_eq]
    rw [hrun]
    exact ⟨rfl, rfl, rfl⟩

/-- A full channel of one slot whose item is taken: the producer is refused in front of it and behind
it. -/
theorem items_registered_single :
    let l := (Log.start 0 : Log Nat).play [.push 7, .commit]
    let calls : List (Producing Nat ⊕ Consuming) :=
      [.inr .peek, .inl (.push 9), .inr .take, .inl .ready, .inr .valid]
    let calls' : List (Producing Nat ⊕ Consuming) :=
      [.inl (.push 9), .inl .ready, .inr .peek, .inr .take, .inr .valid]
    let t := Tick.run { channel := l.channel } calls
    t.produced = [false, false] ∧ t.consumed = [.item (some 7), .item (some 7), .valid false] ∧
      t.channel.commit = (Tick.run { channel := l.channel } calls').channel.commit := by
  intro l calls calls' t
  obtain ⟨-, -, -, -, hcalls⟩ := items_registered (α := Nat) 0 [.push 7, .commit]
  exact ⟨rfl, rfl, (hcalls calls calls' rfl rfl).2.2⟩

/-- Behind a flush a channel accepts a second push on the same tick. -/
theorem pushes_across_flush :
    let l := (Log.start 1 : Log Nat)
    let ops : List (Operation Nat) := [.push 7, .flush, .push 9]
    .commit ∉ ops ∧ ¬(l.play ops).pushes ≤ l.pushes + 1 := by
  intro l ops
  exact ⟨by simp [ops], by decide⟩

end LinkBridge.Channel
