import LinkBridge.Proofs.Progress.Queues
import LinkBridge.Proofs.Stream.Transducer

/-!
# LinkBridge.Proofs.Stream.Intake

A component that is fed with a stream, the next item being there when it likes. What was taken and
what is left are the stream at every moment (`taken_append_rest_run`), so what a run has done so far
can be stated for the items taken, whatever the schedule: it has only to be kept by a tick
(`run_keeps`). With items coming, everything is taken and worked off in the end (`exists_drained`).

Components that wait for a whole block before they do anything are transducers of blocks
(`Transducer.blockwise`).
-/

namespace LinkBridge

/-! ## block by block -/

namespace Transducer

variable {σ α β : Type} {ends : α → Bool}

/-- Collects items up to one that ends a block, and hands on the block. -/
def blockwise (ends : α → Bool) (m : Transducer σ (List α) β) : Transducer (σ × List α) α β where
  step s x :=
    let block := s.2 ++ [x]
    if ends x then (((m.step s.1 block).1, []), (m.step s.1 block).2) else ((s.1, block), [])

variable (m : Transducer σ (List α) β)

theorem step_blockwise_of_not_ends {x : α} (h : ends x = false) (s : σ) (begun : List α) :
    (blockwise ends m).step (s, begun) x = ((s, begun ++ [x]), []) := by
  simp [blockwise, h]

theorem step_blockwise_of_ends {x : α} (h : ends x = true) (s : σ) (begun : List α) :
    (blockwise ends m).step (s, begun) x =
      (((m.step s (begun ++ [x])).1, []), (m.step s (begun ++ [x])).2) := by
  simp [blockwise, h]

/-- Items that end no block are collected. -/
theorem blockwise_part {part : List α} (h : part.countP ends = 0) (s : σ) (begun : List α) :
    (blockwise ends m).after (s, begun) part = (s, begun ++ part) ∧
      (blockwise ends m).answers (s, begun) part = [] := by
  induction part generalizing begun with
  | nil => simp
  | cons x part ih =>
      obtain ⟨hx, hpart⟩ : ends x = false ∧ part.countP ends = 0 := by
        simpa [List.countP_eq_zero] using h
      obtain ⟨hafter, hanswers⟩ := ih hpart (begun ++ [x])
      simp [after, answers, step_blockwise_of_not_ends m hx, hafter, hanswers]

/-- **Whole blocks are handed on one by one**, and the beginning of another is kept. -/
theorem blockwise_blocks {bs : List (List α)} (h : ∀ block ∈ bs, IsBlock ends block)
    {part : List α} (hpart : part.countP ends = 0) (s : σ) :
    (blockwise ends m).after (s, []) (bs.flatten ++ part) = (m.after s bs, part) ∧
      (blockwise ends m).answers (s, []) (bs.flatten ++ part) = m.answers s bs := by
  induction bs generalizing s with
  | nil => simpa using blockwise_part m hpart s []
  | cons block bs ih =>
      obtain ⟨⟨init, final, rfl, hinit, hfinal⟩, hbs⟩ := List.forall_mem_cons.mp h
      obtain ⟨hafter, hanswers⟩ := blockwise_part m hinit s []
      obtain ⟨hafter', hanswers'⟩ := ih hbs (m.step s (init ++ [final])).1
      rw [List.flatten_cons, List.append_assoc, after_append, answers_append, after_concat,
        answers_concat, hafter, hanswers, List.nil_append, List.nil_append,
        step_blockwise_of_ends m hfinal, hafter', hanswers']
      exact ⟨rfl, rfl⟩

end Transducer

/-! ## components with their stream -/

/-- A component with the stream it is fed with. -/
structure Intake (σ α β : Type) where
  now : σ
  /-- The items it has not taken. -/
  rest : List α
  /-- The items it has taken. -/
  taken : List α := []
  /-- The items it has sent. -/
  sent : List β := []
  counted : Counters := {}

namespace Intake

/-- What a component meets on a tick. -/
structure Moment (ι : Type) where
  /-- Whether the next item is there. -/
  available : Bool
  around : ι

variable {σ α β ι : Type} (component : ι → σ → Option α → Transfer σ β)

/-- The item a component is shown. -/
def shown (x : Intake σ α β) (available : Bool) : Option α :=
  if available then x.rest.head? else none

/-- What a transfer makes of it, given the item the component was shown. -/
def step (x : Intake σ α β) (input : Option α) (t : Transfer σ β) : Intake σ α β where
  now := t.next
  rest := x.rest.drop (t.removed input).length
  taken := x.taken ++ t.removed input
  sent := x.sent ++ t.sent.toList
  counted := x.counted + t.counted

/-- One tick. -/
def tick (x : Intake σ α β) (m : Moment ι) : Intake σ α β :=
  x.step (x.shown m.available) (component m.around x.now (x.shown m.available))

/-- Ticks in order. -/
def run (x : Intake σ α β) (moments : List (Moment ι)) : Intake σ α β :=
  moments.foldl (tick component) x

variable {component}

/-- What every tick keeps is kept by a run. -/
theorem run_keeps {P : Intake σ α β → Prop} (hstep : ∀ x m, P x → P (tick component x m))
    {x : Intake σ α β} (h : P x) (moments : List (Moment ι)) : P (run component x moments) := by
  induction moments generalizing x with
  | nil => exact h
  | cons m moments ih => exact ih (hstep x m h)

/-- What a component is shown is the next item, if it is shown one. -/
theorem shown_prefix (x : Intake σ α β) (available : Bool) :
    (x.shown available).toList <+: x.rest := by
  unfold shown
  split
  · cases x.rest <;> simp
  · exact List.nil_prefix

/-- What a component removes comes first in its stream. -/
theorem removed_prefix (x : Intake σ α β) (available : Bool) (t : Transfer σ β) :
    t.removed (x.shown available) <+: x.rest := by
  unfold Transfer.removed
  split
  · exact x.shown_prefix available
  · exact List.nil_prefix

/-- A tick takes the next items of the stream. -/
theorem taken_append_rest_tick (x : Intake σ α β) (m : Moment ι) :
    (tick component x m).taken ++ (tick component x m).rest = x.taken ++ x.rest := by
  obtain ⟨rest, hrest⟩ :=
    x.removed_prefix m.available (component m.around x.now (x.shown m.available))
  simp only [tick, step, List.append_assoc]
  rw [← hrest, List.drop_left]

/-- **What was taken and what is left are the stream.** -/
theorem taken_append_rest_run (x : Intake σ α β) (moments : List (Moment ι)) :
    (run component x moments).taken ++ (run component x moments).rest = x.taken ++ x.rest :=
  run_keeps (P := fun y => y.taken ++ y.rest = x.taken ++ x.rest)
    (fun y m h => (taken_append_rest_tick y m).trans h) rfl moments

/-! ## draining -/

/-- **A component that waits only when it has nothing to do gets everything done**, as long as the
next item is there. -/
theorem exists_drained (load : σ → Nat) {m : Moment ι} (hm : m.available = true)
    (hload : ∀ s input, (component m.around s input).removed input ≠ [] ∨
      load (component m.around s input).next < load s ∨ input = none ∧ load s = 0)
    (x : Intake σ α β) :
    ∃ n, let y := run component x (List.replicate n m)
      y.taken = x.taken ++ x.rest ∧ y.rest = [] ∧ load y.now = 0 := by
  -- An item that is taken may make the load larger, so it is the rest that counts first.
  have hstream : (tick component x m).taken ++ (tick component x m).rest = x.taken ++ x.rest :=
    taken_append_rest_tick x m
  have hrest : (tick component x m).rest.length +
      ((component m.around x.now (x.shown m.available)).removed (x.shown m.available)).length =
        x.rest.length := by
    have hle := (x.removed_prefix m.available
      (component m.around x.now (x.shown m.available))).length_le
    show (x.rest.drop _).length + _ = _
    rw [List.length_drop]
    omega
  obtain htaken | hless | ⟨hnone, hzero⟩ := hload x.now (x.shown m.available)
  · have hpos := List.length_pos_iff.mpr htaken
    have hshorter : (tick component x m).rest.length < x.rest.length := by omega
    obtain ⟨n, hall, hdrained⟩ := exists_drained load hm hload (tick component x m)
    exact ⟨n + 1, hall.trans hstream, hdrained⟩
  · have hle : (tick component x m).rest.length ≤ x.rest.length := by omega
    obtain ⟨n, hall, hdrained⟩ := exists_drained load hm hload (tick component x m)
    exact ⟨n + 1, hall.trans hstream, hdrained⟩
  · have hnothing : x.rest = [] := by simpa [shown, hm] using hnone
    refine ⟨0, ?_, hnothing, hzero⟩
    rw [hnothing, List.append_nil]
    rfl
termination_by (x.rest.length, load x.now)
decreasing_by
  · exact Prod.Lex.left _ _ hshorter
  · exact Prod.Lex.right' _ hle hless

end Intake

end LinkBridge
