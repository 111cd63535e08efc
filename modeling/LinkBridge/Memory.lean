import LinkBridge.Word
import Std.Data.HashMap

/-!
# LinkBridge.Memory

Word memories that start out as zero everywhere and store only what was written, so that a large
memory costs no more than its contents. Memories are known by what `read` returns (`read_write`).
-/

namespace LinkBridge

/-- A memory of words, addressed by word index. -/
structure Memory where
  /-- The words written so far. -/
  written : Std.HashMap Nat Word := {}
  deriving Inhabited

namespace Memory

/-- The memory that is zero everywhere. -/
def empty : Memory :=
  {}

/-- The word at an index. -/
def read (m : Memory) (index : Nat) : Word :=
  m.written.getD index 0

/-- Stores a word at an index. -/
def write (m : Memory) (index : Nat) (w : Word) : Memory :=
  ⟨m.written.insert index w⟩

/-- Stores a run of words from an index upwards. -/
def writeRun (m : Memory) (index : Nat) : List Word → Memory
  | [] => m
  | w :: rest => (m.write index w).writeRun (index + 1) rest

@[simp] theorem read_empty (index : Nat) : empty.read index = 0 := by
  simp [read, empty]

theorem read_write (m : Memory) (i j : Nat) (w : Word) :
    (m.write i w).read j = if i = j then w else m.read j := by
  simp only [read, write, Std.HashMap.getD_insert, beq_iff_eq]

theorem read_writeRun (m : Memory) (i j : Nat) (ws : List Word) :
    (m.writeRun i ws).read j =
      if i ≤ j ∧ j < i + ws.length then ws.getD (j - i) 0 else m.read j := by
  induction ws generalizing m i with
  | nil => simp only [writeRun, List.length_nil]; rw [if_neg (by omega)]
  | cons w rest ih =>
    rw [writeRun, ih, read_write]
    simp only [List.length_cons]
    rcases Nat.lt_trichotomy i j with h | h | h
    · have : j - i = (j - (i + 1)) + 1 := by omega
      rw [this, List.getD_cons_succ, if_neg (by omega : ¬ i = j)]
      exact ite_congr (by simp only [eq_iff_iff]; omega) (fun _ => rfl) (fun _ => rfl)
    · subst h
      rw [if_neg (by omega), if_pos rfl, if_pos (by omega), Nat.sub_self, List.getD_cons_zero]
    · rw [if_neg (by omega), if_neg (by omega), if_neg (by omega)]

end Memory

end LinkBridge
