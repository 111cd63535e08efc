import LinkBridge.Word
import Mathlib.Algebra.Group.Nat.Defs

/-!
# LinkBridge.Proofs.Word

Fields and masks of words as arithmetic: taking a field divides and takes a remainder (`field_eq`),
and so does a mask that keeps a run of bits and the lowest ones (`and_keep`). The codecs of headers
are compared with the words they read by these alone, so `omega` can do the rest.

Bytes of words: reading bytes as words and writing the words gives the bytes back, filled up to a
whole number of words (`pack_unpack`).
-/

namespace LinkBridge.Word

/-! ## fields and masks -/

theorem field_eq (w : Word) (low width : Nat) :
    field w low width = w.toNat / 2 ^ low % 2 ^ width := by
  rw [field, Nat.shiftRight_eq_div_pow, Nat.one_shiftLeft]

/-- A word under a mask that keeps a run of bits from `high` upwards and the lowest `low` bits. -/
theorem and_keep (n high width low : Nat) (h : low ≤ high) :
    n &&& ((2 ^ width - 1) <<< high ||| (2 ^ low - 1))
      = n / 2 ^ high % 2 ^ width * 2 ^ high + n % 2 ^ low := by
  have hlow : n % 2 ^ low < 2 ^ high :=
    Nat.lt_of_lt_of_le (Nat.mod_lt _ (Nat.two_pow_pos _)) (Nat.pow_le_pow_right (by decide) h)
  have hhigh : n &&& (2 ^ width - 1) <<< high = (n / 2 ^ high % 2 ^ width) <<< high := by
    rw [← Nat.shiftRight_eq_div_pow, ← Nat.and_two_pow_sub_one_eq_mod]
    apply Nat.eq_of_testBit_eq
    intro i
    simp only [Nat.testBit_and, Nat.testBit_shiftLeft, Nat.testBit_shiftRight]
    by_cases hi : high ≤ i
    · rw [Nat.add_sub_of_le hi]
      simp only [ge_iff_le, hi, decide_true, Bool.true_and]
    · simp only [ge_iff_le, hi, decide_false, Bool.false_and, Bool.and_false]
  rw [Nat.and_or_distrib_left, Nat.and_two_pow_sub_one_eq_mod, hhigh,
    ← Nat.shiftLeft_add_eq_or_of_lt hlow, Nat.shiftLeft_eq]

/-- A word that keeps a run of bits from `high` upwards and the lowest `low` bits, with bit `low`
set. -/
theorem and_keep_or (n high width low : Nat) (h : low < high) :
    (n &&& ((2 ^ width - 1) <<< high ||| (2 ^ low - 1))) ||| 2 ^ low
      = n / 2 ^ high % 2 ^ width * 2 ^ high + (2 ^ low + n % 2 ^ low) := by
  have hlow : n % 2 ^ low < 2 ^ low := Nat.mod_lt _ (Nat.two_pow_pos _)
  have hpow : 2 ^ (low + 1) ≤ 2 ^ high := Nat.pow_le_pow_right (by decide) h
  rw [Nat.pow_succ] at hpow
  have hbit : 2 ^ low + n % 2 ^ low = n % 2 ^ low ||| 2 ^ low := by
    have := Nat.two_pow_add_eq_or_of_lt hlow 1
    rwa [Nat.mul_one, Nat.or_comm] at this
  rw [and_keep n high width low (Nat.le_of_lt h), hbit, Nat.mul_comm,
    Nat.two_pow_add_eq_or_of_lt (by omega), Nat.two_pow_add_eq_or_of_lt (by omega), Nat.or_assoc]

/-! ## bytes -/

theorem toBytes_ofBytes (a b c d : UInt8) : toBytes (ofBytes a b c d) = [a, b, c, d] := by
  have ha := a.toNat_lt
  have hb := b.toNat_lt
  have hc := c.toNat_lt
  have hd := d.toNat_lt
  have hw : (ofBytes a b c d).toNat =
      a.toNat * 2 ^ 24 + b.toNat * 2 ^ 16 + c.toNat * 2 ^ 8 + d.toNat := by
    simp only [ofBytes, Nat.shiftLeft_eq, UInt32.toNat_ofNat']
    omega
  simp only [toBytes, hw, Nat.shiftRight_eq_div_pow, List.cons.injEq, and_true,
    ← UInt8.toNat_inj, UInt8.toNat_ofNat']
  omega

theorem pack_cons (w : Word) (ws : List Word) : pack (w :: ws) = toBytes w ++ pack ws := rfl

@[simp] theorem length_pack (ws : List Word) : (pack ws).length = 4 * ws.length := by
  induction ws with
  | nil => rfl
  | cons w ws ih =>
      rw [pack_cons, List.length_append, length_toBytes, ih, List.length_cons]
      omega

theorem pack_take (ws : List Word) (count : Nat) :
    pack (ws.take count) = (pack ws).take (4 * count) := by
  induction ws generalizing count with
  | nil => simp [pack]
  | cons w ws ih =>
      cases count with
      | zero => rfl
      | succ count =>
          have hlength : 4 * (count + 1) = (toBytes w).length + 4 * count := by
            rw [length_toBytes]
            omega
          rw [List.take_succ_cons, pack_cons, pack_cons, ih, hlength, List.take_length_add_append]

/-- **The bytes read are those of the words, up to zero bytes behind them.** -/
theorem pack_unpack (bs : List UInt8) :
    pack (unpack bs) = bs ++ List.replicate ((4 - bs.length % 4) % 4) 0 := by
  fun_induction unpack bs with
  | case1 => rfl
  | case2 a => exact toBytes_ofBytes a 0 0 0
  | case3 a b => exact toBytes_ofBytes a b 0 0
  | case4 a b c => exact toBytes_ofBytes a b c 0
  | case5 a b c d rest ih =>
      have hlength : (a :: b :: c :: d :: rest).length % 4 = rest.length % 4 :=
        Nat.add_mod_right rest.length 4
      rw [pack_cons, toBytes_ofBytes, ih, hlength]
      rfl

theorem length_unpack (bs : List UInt8) : (unpack bs).length = (bs.length + 3) / 4 := by
  fun_induction unpack bs with
  | case5 a b c d rest ih =>
      simp only [List.length_cons, ih]
      omega
  | _ => simp

theorem unpack_pack_append (ws : List Word) (bs : List UInt8) :
    unpack (pack ws ++ bs) = ws ++ unpack bs := by
  induction ws with
  | nil => rfl
  | cons w ws ih =>
      rw [pack_cons, List.append_assoc, toBytes]
      simp only [List.cons_append, List.nil_append, unpack, ih, ofBytes_toBytes]

/-- Bytes of words that end anywhere: the whole words among them, and what the rest is filled up
to. -/
theorem unpack_of_prefix_pack {bs : List UInt8} {ws : List Word} (h : bs <+: pack ws) :
    unpack bs = ws.take (bs.length / 4) ++ unpack (bs.drop (4 * (bs.length / 4))) := by
  have hwhole : bs.take (4 * (bs.length / 4)) = pack (ws.take (bs.length / 4)) := by
    obtain ⟨rest, hrest⟩ := h
    rw [pack_take, ← hrest, List.take_append_of_le_length (by omega)]
  conv => lhs; rw [← List.take_append_drop (4 * (bs.length / 4)) bs, hwhole, unpack_pack_append]

end LinkBridge.Word
