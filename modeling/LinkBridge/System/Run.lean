/-!
# LinkBridge.System.Run

Runs of a stepping system that end when there is nothing left to do or a limit is reached.
-/

namespace LinkBridge

/-- Steps until `done` holds, at most `limit` times; returns the number of steps, added to `ticks`,
and what was reached. -/
def runUntil {σ : Type} (step : σ → σ) (done : σ → Bool) (limit ticks : Nat) (s : σ) : Nat × σ :=
  match limit with
  | 0 => (ticks, s)
  | limit + 1 => if done s then (ticks, s) else runUntil step done limit (ticks + 1) (step s)

section

variable {σ : Type} (step : σ → σ) (done : σ → Bool)

/-- A run that ends with nothing left to do ends no other way where the limit is larger. -/
theorem runUntil_of_done {limit limit' : Nat} (hle : limit ≤ limit') (ticks : Nat) (s : σ)
    (h : done (runUntil step done limit ticks s).2 = true) :
    runUntil step done limit' ticks s = runUntil step done limit ticks s := by
  induction limit generalizing limit' ticks s with
  | zero =>
    have hdone : done s = true := h
    cases limit' with
    | zero => rfl
    | succ limit' => exact if_pos hdone
  | succ limit ih =>
    obtain ⟨limit', rfl⟩ : ∃ n, limit' = n + 1 := ⟨limit' - 1, by omega⟩
    unfold runUntil at h ⊢
    split
    · rfl
    · next hd =>
      rw [if_neg hd] at h
      exact ih (by omega) (ticks + 1) (step s) h

/-- What every step keeps, a run keeps. -/
theorem runUntil_keeps {P : σ → Prop} (hstep : ∀ s, P s → P (step s)) (limit ticks : Nat) {s : σ}
    (h : P s) : P (runUntil step done limit ticks s).2 := by
  induction limit generalizing ticks s with
  | zero => exact h
  | succ limit ih =>
    unfold runUntil
    split
    · exact h
    · exact ih (ticks + 1) (hstep s h)

end

end LinkBridge
