/-!
# LinkBridge.Proofs.Stream.Transducer

What a stage of the bridge computes once its stalls are forgotten: a *transducer* reads a stream
item by item and answers each item with a few items of its own. Stages wait, hold items back and
run ahead of what they took, but what they send is, sooner or later, the answer of a transducer to
what they take. The proofs about a stage therefore compare two runs: the ticks of the stage, in
whatever order the queues around it allow, and one pass of its transducer over the stream.

* `answers_append` — reading a stream in two parts is reading it at once;
* `answers_flatMap` — a stream of blocks is answered block by block when every block leaves the
  machine where it found it.
-/

namespace LinkBridge

/-- A machine that answers every item it reads with a list of items. -/
structure Transducer (σ α β : Type) where
  /-- The next state and the answer to one item. -/
  step : σ → α → σ × List β

namespace Transducer

variable {σ α β : Type}

/-- The state behind a stream. -/
def after (m : Transducer σ α β) (s : σ) : List α → σ
  | [] => s
  | x :: xs => m.after (m.step s x).1 xs

/-- The answers to a stream, one after the other. -/
def answers (m : Transducer σ α β) (s : σ) : List α → List β
  | [] => []
  | x :: xs => (m.step s x).2 ++ m.answers (m.step s x).1 xs

variable (m : Transducer σ α β)

/-! ## streams in parts -/

@[simp] theorem after_nil (s : σ) : m.after s [] = s := rfl

@[simp] theorem answers_nil (s : σ) : m.answers s [] = [] := rfl

theorem after_append (s : σ) (xs ys : List α) :
    m.after s (xs ++ ys) = m.after (m.after s xs) ys := by
  induction xs generalizing s with
  | nil => rfl
  | cons x xs ih => simp only [List.cons_append, after, ih]

theorem answers_append (s : σ) (xs ys : List α) :
    m.answers s (xs ++ ys) = m.answers s xs ++ m.answers (m.after s xs) ys := by
  induction xs generalizing s with
  | nil => rfl
  | cons x xs ih => simp only [List.cons_append, answers, after, ih, List.append_assoc]

/-- One more item: the state. -/
theorem after_concat (s : σ) (xs : List α) (x : α) :
    m.after s (xs ++ [x]) = (m.step (m.after s xs) x).1 := by
  rw [after_append]
  rfl

/-- One more item: the answers. -/
theorem answers_concat (s : σ) (xs : List α) (x : α) :
    m.answers s (xs ++ [x]) = m.answers s xs ++ (m.step (m.after s xs) x).2 := by
  rw [answers_append]
  simp only [answers, List.append_nil]

/-! ## streams of blocks -/

/-- A block that leaves the machine where it found it can be repeated. -/
theorem after_flatMap {γ : Type} (s : σ) (block : γ → List α) (cs : List γ)
    (h : ∀ c ∈ cs, m.after s (block c) = s) : m.after s (cs.flatMap block) = s := by
  induction cs with
  | nil => rfl
  | cons c cs ih =>
      rw [List.flatMap_cons, after_append, h c List.mem_cons_self]
      exact ih fun d hd => h d (List.mem_cons_of_mem c hd)

/-- Blocks that leave the machine where they found it are answered one by one. -/
theorem answers_flatMap {γ : Type} (s : σ) (block : γ → List α) (cs : List γ)
    (h : ∀ c ∈ cs, m.after s (block c) = s) :
    m.answers s (cs.flatMap block) = cs.flatMap fun c => m.answers s (block c) := by
  induction cs with
  | nil => rfl
  | cons c cs ih =>
      rw [List.flatMap_cons, answers_append, h c List.mem_cons_self, List.flatMap_cons]
      rw [ih fun d hd => h d (List.mem_cons_of_mem c hd)]

/-- Blocks with known answers. -/
theorem answers_blocks {γ : Type} {s : σ} {block : γ → List α} {answer : γ → List β} {cs : List γ}
    (h : ∀ c ∈ cs, m.after s (block c) = s ∧ m.answers s (block c) = answer c) :
    m.answers s (cs.flatMap block) = cs.flatMap answer := by
  rw [m.answers_flatMap s block cs fun c hc => (h c hc).1, List.flatMap_def, List.flatMap_def,
    List.map_congr_left fun c hc => (h c hc).2]

end Transducer

end LinkBridge
