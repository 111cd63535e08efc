/-!
# LinkBridge.Proofs.Checks

Computations that may fail, step by step: when the whole of them succeeds, and where it fails.
-/

namespace LinkBridge

variable {ε ε' α β : Type} {x : Except ε α} {b : β}

/-- A computation succeeds when its first step and the rest do. -/
theorem bind_eq_ok_iff {f : α → Except ε β} :
    (x >>= f) = .ok b ↔ ∃ a, x = .ok a ∧ f a = .ok b := by
  cases x with
  | error e => exact ⟨nofun, nofun⟩
  | ok a => exact ⟨fun h => ⟨a, rfl, h⟩, fun ⟨_, ha, h⟩ => Except.ok.inj ha ▸ h⟩

/-- A computation fails in its first step or behind it. -/
theorem bind_eq_error_iff {f : α → Except ε β} {e : ε} :
    (x >>= f) = .error e ↔ x = .error e ∨ ∃ a, x = .ok a ∧ f a = .error e := by
  cases x with
  | error e' => exact ⟨fun h => .inl (congrArg _ (Except.error.inj h)),
      fun h => h.elim (fun h => congrArg _ (Except.error.inj h)) nofun⟩
  | ok a => exact ⟨fun h => .inr ⟨a, rfl, h⟩,
      fun h => h.elim nofun fun ⟨_, ha, h⟩ => Except.ok.inj ha ▸ h⟩

/-- What follows a check is reached when nothing is found. -/
theorem check_eq_ok_iff {p : Prop} [Decidable p] {e : ε} {f : α → Except ε β}
    {y : Except ε β} : (if p then throw e >>= f else y) = .ok b ↔ ¬p ∧ y = .ok b := by
  split
  · next h => exact ⟨nofun, fun ⟨hp, _⟩ => absurd h hp⟩
  · next h => exact ⟨fun hy => ⟨h, hy⟩, And.right⟩

theorem last_check_eq_ok_iff {p : Prop} [Decidable p] {e : ε} :
    (if p then throw e else pure () : Except ε Unit) = .ok () ↔ ¬p := by
  split
  · next h => exact ⟨nofun, absurd h⟩
  · next h => exact ⟨fun _ => h, fun _ => rfl⟩

/-- Naming a fault otherwise makes no success. -/
theorem mapError_eq_ok_iff {g : ε → ε'} {a : α} :
    x.mapError g = .ok a ↔ x = .ok a := by
  cases x with
  | error e => exact ⟨nofun, nofun⟩
  | ok a' =>
      show (Except.ok a' : Except ε' α) = .ok a ↔ (Except.ok a' : Except ε α) = .ok a
      rw [Except.ok.injEq, Except.ok.injEq]

end LinkBridge
