/-!
# LinkBridge.Allocator

The memory behind the queues of a bridge. All of it is asked for when a bridge is set up, and each
queue asks for room for as many items as it may hold. No queue can have more than `Storage.maxBytes`
bytes, however much memory there is; what can be had below that depends on the machine.
-/

namespace LinkBridge

/-- Room for a number of items of one size. -/
structure Storage where
  items : Nat
  itemBytes : Nat
  deriving DecidableEq, Inhabited

namespace Storage

/-- Size in bytes. -/
def bytes (s : Storage) : Nat :=
  s.items * s.itemBytes

/-- The bytes one storage has at most: a distance within it fits into a signed machine word. -/
def maxBytes : Nat :=
  Nat.pow 2 63 - 1

end Storage

/-- What memory can be had. -/
structure Allocator where
  /-- Whether a storage can be had. -/
  grants : Storage → Bool
  bounded (s : Storage) : grants s = true → s.bytes ≤ Storage.maxBytes

namespace Allocator

/-- Memory for every storage that is not too large. -/
def ample : Allocator where
  grants s := decide (s.bytes ≤ Storage.maxBytes)
  bounded _ := of_decide_eq_true

/-- The first of some storages that cannot be had. -/
def lacking? (a : Allocator) (storages : List Storage) : Option Storage :=
  storages.find? fun s => !a.grants s

end Allocator

end LinkBridge
