import LinkBridge.Memory

/-!
# LinkBridge.Wishbone.Sram

On-chip scratch memory behind a range of byte addresses. The two low bits of an offset do not
count; accesses behind the end read zero and write nothing.
-/

namespace LinkBridge.Wishbone

/-- A scratch memory. -/
structure Sram where
  /-- Byte address of the first word. -/
  base : Nat
  /-- Number of words. -/
  words : Nat
  memory : Memory := .empty
  deriving Inhabited

namespace Sram

/-- A zeroed memory of `size` bytes; an incomplete last word is not part of it. -/
def ofSize (base size : Nat) : Sram :=
  { base, words := size / 4 }

/-- Size in bytes. -/
def size (s : Sram) : Nat :=
  s.words * 4

/-- The word at a byte offset. -/
def read (s : Sram) (offset : Nat) : Word :=
  if offset / 4 < s.words then s.memory.read (offset / 4) else 0

/-- Stores the word at a byte offset. -/
def write (s : Sram) (offset : Nat) (w : Word) : Sram :=
  if offset / 4 < s.words then { s with memory := s.memory.write (offset / 4) w } else s

/-- Stores consecutive words; what lies behind the end is cut off. -/
def writeBlock (s : Sram) (offset : Nat) (ws : List Word) : Sram :=
  { s with memory := s.memory.writeRun (offset / 4) (ws.take (s.words - offset / 4)) }

/-- Storing consecutive words is storing them one after the other. -/
theorem writeBlock_cons (s : Sram) (offset : Nat) (w : Word) (ws : List Word) :
    s.writeBlock offset (w :: ws) = (s.write offset w).writeBlock (offset + 4) ws := by
  have h4 : (offset + 4) / 4 = offset / 4 + 1 := by omega
  unfold write writeBlock
  split
  · next h =>
    obtain ⟨k, hk⟩ : ∃ k, s.words - offset / 4 = k + 1 := ⟨s.words - offset / 4 - 1, by omega⟩
    have hk' : s.words - (offset / 4 + 1) = k := by omega
    simp only [h4, hk, hk', List.take_succ_cons, Memory.writeRun]
  · next h =>
    have h0 : s.words - offset / 4 = 0 := by omega
    have h1 : s.words - (offset / 4 + 1) = 0 := by omega
    simp only [h4, h0, h1, List.take_zero, Memory.writeRun]

end Sram

end LinkBridge.Wishbone
