import LinkBridge.System.Construct

/-!
# LinkBridge.Proofs.Allocation

Asking for memory. Storages may be asked for in parts, and the answer is the first of them that
cannot be had (`provide_append`, `provide_eq_error_iff`). A storage that is too large cannot be had
from any allocator (`exists_lacking`).
-/

namespace LinkBridge

namespace Allocator

variable (a : Allocator)

theorem lacking?_eq_none_iff {storages : List Storage} :
    a.lacking? storages = none ↔ ∀ s ∈ storages, a.grants s = true := by
  simp [lacking?]

theorem provide_eq_ok_iff {storages : List Storage} :
    a.provide storages = .ok () ↔ ∀ s ∈ storages, a.grants s = true := by
  rw [← lacking?_eq_none_iff, provide.eq_def]
  cases a.lacking? storages <;> simp

theorem provide_eq_error_iff {storages : List Storage} {failure : Failure} :
    a.provide storages = .error failure ↔
      ∃ s, a.lacking? storages = some s ∧ failure = .exhausted s := by
  rw [provide.eq_def]
  cases a.lacking? storages <;> simp [eq_comm]

/-- Storages may be asked for in parts. -/
theorem provide_append (storages more : List Storage) :
    a.provide (storages ++ more) = a.provide storages >>= fun _ => a.provide more := by
  have hsplit : a.lacking? (storages ++ more) = (a.lacking? storages).or (a.lacking? more) :=
    List.find?_append
  rw [provide.eq_def, provide.eq_def a storages, hsplit]
  cases a.lacking? storages <;> rfl

/-- What is larger than any storage cannot be had. -/
theorem exists_lacking {storages : List Storage} {s : Storage} (hs : s ∈ storages)
    (hlarge : Storage.maxBytes < s.bytes) : ∃ lacking, a.lacking? storages = some lacking := by
  cases hlacking : a.lacking? storages with
  | some lacking => exact ⟨lacking, rfl⟩
  | none =>
      have hgranted := a.lacking?_eq_none_iff.mp hlacking s hs
      exact absurd (a.bounded s hgranted) (Nat.not_le.mpr hlarge)

end Allocator

/-- A serializer whose buffer is too large does not come about. -/
theorem Tlp.Serializer.exists_construct_exhausted (a : Allocator) (tag : UInt8) {depth : Nat}
    (hlarge : Storage.maxBytes < depth * Beat.storedBytes) :
    ∃ s, construct a tag depth = .error (.exhausted s) := by
  have hs : Storage.maxBytes < (empty tag depth).storage.bytes :=
    Nat.lt_of_lt_of_le hlarge (Nat.mul_le_mul_right _ (Nat.le_max_left depth 1))
  obtain ⟨lacking, hlacking⟩ := a.exists_lacking (List.mem_singleton_self _) hs
  refine ⟨lacking, ?_⟩
  rw [construct, (a.provide_eq_error_iff).mpr ⟨lacking, hlacking, rfl⟩]
  rfl

end LinkBridge
