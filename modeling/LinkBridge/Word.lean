/-!
# LinkBridge.Word

The 32-bit words that cross the link, with the two views of a word the rest of the library uses:

- its four *bytes*, most significant first, as they travel over USB;
- its *fields*, runs of bits of a header word, read as numbers.

Main statements: bytes and words convert back and forth (`ofBytes_toBytes`, `unpack_pack`).
-/

namespace LinkBridge

/-- A word of the link, of a packet header or of the Wishbone bus. -/
abbrev Word := UInt32

namespace Word

/-! ## Bytes -/

/-- The four bytes of a word, most significant first. -/
def toBytes (w : Word) : List UInt8 :=
  [UInt8.ofNat (w.toNat >>> 24), UInt8.ofNat (w.toNat >>> 16),
    UInt8.ofNat (w.toNat >>> 8), UInt8.ofNat w.toNat]

/-- The word with the given bytes, most significant first. -/
def ofBytes (a b c d : UInt8) : Word :=
  UInt32.ofNat (a.toNat <<< 24 + b.toNat <<< 16 + c.toNat <<< 8 + d.toNat)

/-- The byte stream of a list of words. -/
def pack (words : List Word) : List UInt8 :=
  words.flatMap toBytes

/-- The words of a byte stream; a last word cut short is filled up with zero bytes. -/
def unpack : List UInt8 → List Word
  | [] => []
  | [a] => [ofBytes a 0 0 0]
  | [a, b] => [ofBytes a b 0 0]
  | [a, b, c] => [ofBytes a b c 0]
  | a :: b :: c :: d :: rest => ofBytes a b c d :: unpack rest

@[simp] theorem length_toBytes (w : Word) : (toBytes w).length = 4 := rfl

theorem ofBytes_toBytes (w : Word) :
    ofBytes (UInt8.ofNat (w.toNat >>> 24)) (UInt8.ofNat (w.toNat >>> 16))
      (UInt8.ofNat (w.toNat >>> 8)) (UInt8.ofNat w.toNat) = w := by
  have hw := w.toNat_lt
  apply UInt32.toNat_inj.mp
  simp only [ofBytes, UInt8.toNat_ofNat', UInt32.toNat_ofNat']
  omega

/-- Reading back the byte stream of a word list gives the list. -/
theorem unpack_pack (words : List Word) : unpack (pack words) = words := by
  induction words with
  | nil => rfl
  | cons w rest ih =>
    simp only [pack, List.flatMap_cons] at ih ⊢
    simp only [toBytes, List.cons_append, List.nil_append, unpack, ih, ofBytes_toBytes]

/-! ## Bit fields -/

/-- The `width` bits of a word from bit `low` upwards, as a number. -/
def field (w : Word) (low width : Nat) : Nat :=
  w.toNat >>> low % 1 <<< width

theorem field_lt (w : Word) (low width : Nat) : field w low width < 1 <<< width := by
  refine Nat.mod_lt _ ?_
  rw [Nat.one_shiftLeft]
  exact Nat.two_pow_pos _

end Word

end LinkBridge
