import LinkBridge.Stream.Handshake

/-!
# LinkBridge.Proofs.Safety.Access

Partial accesses. A difference below zero, a remainder by zero, a position behind the end of a list
and a range that a list does not have are all nothing, `none`, instead of the value that total
functions make up for them. What is computed with them is something only if every access was in
order, so that "never fails" can be said of a whole run.

A component whose accesses are partial is put between its queues by `Transfer.between?`; if it does
what a component without failures does, so does the whole transfer (`Transfer.exists_between?`).
-/

namespace LinkBridge

namespace Access

variable {α β ε : Type}

/-! ## numbers and lists -/

/-- The difference, unless it is below zero. -/
def minus? (a b : Nat) : Option Nat :=
  if b ≤ a then some (a - b) else none

/-- The remainder, unless it is one by zero. -/
def mod? (a b : Nat) : Option Nat :=
  if b = 0 then none else some (a % b)

/-- Replaces the item at a position that the list has. -/
def put? (xs : List α) (i : Nat) (x : α) : Option (List α) :=
  if i < xs.length then some (xs.set i x) else none

/-- The items from `start` up to but not including `stop`, if that is a range of the list. -/
def slice? (xs : List α) (start stop : Nat) : Option (List α) :=
  if start ≤ stop ∧ stop ≤ xs.length then some ((xs.drop start).take (stop - start)) else none

theorem minus?_of_le {a b : Nat} (h : b ≤ a) : minus? a b = some (a - b) :=
  if_pos h

theorem mod?_of_ne {a b : Nat} (h : b ≠ 0) : mod? a b = some (a % b) :=
  if_neg h

theorem put?_of_lt {xs : List α} {i : Nat} (h : i < xs.length) (x : α) :
    put? xs i x = some (xs.set i x) :=
  if_pos h

/-- What is in front of a position of the list can be sliced off. -/
theorem slice?_zero {xs : List α} {stop : Nat} (h : stop ≤ xs.length) :
    slice? xs 0 stop = some (xs.take stop) :=
  if_pos ⟨Nat.zero_le stop, h⟩

/-- What is behind a position of the list can be sliced off. -/
theorem slice?_length {xs : List α} {start : Nat} (h : start ≤ xs.length) :
    slice? xs start xs.length = some (xs.drop start) := by
  have htake : (xs.drop start).take (xs.length - start) = xs.drop start := by
    rw [← List.length_drop, List.take_length]
  rw [slice?, if_pos ⟨h, Nat.le_refl _⟩, htake]

/-! ## verdicts -/

/-- A verdict that was reached without a failing access. -/
def sure (verdict : Except ε α) : ExceptT ε Option α :=
  .mk (some verdict)

/-- An access that is in order does not change the verdict. -/
theorem lift_some_bind (x : α) (f : α → ExceptT ε Option β) :
    (liftM (some x : Option α) : ExceptT ε Option α) >>= f = f x := rfl

/-- One verdict after the other, with every access in order. -/
theorem sure_bind (verdict : Except ε α) {f : α → ExceptT ε Option β} {g : α → Except ε β}
    (h : ∀ x, f x = sure (g x)) : sure verdict >>= f = sure (verdict >>= g) := by
  cases verdict with
  | error e => rfl
  | ok x => exact h x

end Access

/-! ## transfers -/

namespace Transfer

variable {S T α β σ τ : Type} [Source S α] [Sink T β]

/-- One tick of a component with partial accesses between a source and a sink. -/
def between? (component : Option α → Bool → Option (Transfer σ β)) (source : S) (sink : T) :
    Option (Transfer σ β × S × T) := do
  let t ← component (Source.peek source) (Sink.ready sink)
  return (t, t.drain source, t.fill sink)

theorem between?_eq {component? : Option α → Bool → Option (Transfer σ β)}
    {component : Option α → Bool → Transfer σ β}
    (h : ∀ input ready, component? input ready = some (component input ready))
    (source : S) (sink : T) :
    between? component? source sink = some (between component source sink) := by
  simp only [between?, h]
  rfl

/-- The transfer of a component that can be viewed as another one, which cannot fail. -/
theorem exists_between? {component? : Option α → Bool → Option (Transfer τ β)}
    {component : Option α → Bool → Transfer σ β} {view : τ → σ} {valid : τ → Prop}
    (h : ∀ input ready, ∃ t, component? input ready = some t ∧
      t.map view = component input ready ∧ valid t.next) (source : S) (sink : T) :
    ∃ t, between? component? source sink = some (t, (between component source sink).2) ∧
      view t.next = (between component source sink).1.next ∧
      t.counted = (between component source sink).1.counted ∧ valid t.next := by
  obtain ⟨t, hsome, hview, hvalid⟩ := h (Source.peek source) (Sink.ready sink)
  refine ⟨t, ?_, congrArg (·.next) hview, congrArg (·.counted) hview, hvalid⟩
  simp only [between?, between, hsome, ← hview]
  rfl

end Transfer

end LinkBridge
