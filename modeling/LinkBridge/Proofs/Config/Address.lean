import LinkBridge.Proofs.Config.Check
import Mathlib.Data.List.Forall2
import Mathlib.Data.Nat.Digits.Defs
import Mathlib.Tactic.Ring

/-!
# LinkBridge.Proofs.Config.Address

Which texts are addresses, and which ones are read as addresses. An address is a numeral in base 16
behind one marker or none (`IsHex`). Reading removes every marker, and the digits may stand behind a
plus sign (`Reads`), so every address is read as its value, and more is read than addresses.
-/

namespace LinkBridge.Config

namespace Address

/-! ## digits -/

/-- The character stands for the number, in either case. -/
def IsDigit (c : Char) (d : Nat) : Prop :=
  d < 16 ∧ (c = d.digitChar ∨ c = d.digitChar.toUpper)

instance (c : Char) (d : Nat) : Decidable (IsDigit c d) :=
  inferInstanceAs (Decidable (_ ∧ _))

/-- A run of digits with consecutive values, looked at by the distance from the first one. -/
theorem isDigit_of_range {c : Char} {first last offset d : Nat}
    (hdigits : ∀ k ≤ last - first, IsDigit (Char.ofNat (first + k)) (k + offset))
    (hrange : first ≤ c.toNat ∧ c.toNat ≤ last) (hd : c.toNat - first + offset = d) :
    IsDigit c d := by
  have hc : first + (c.toNat - first) = c.toNat := Nat.add_sub_cancel' hrange.1
  have hdigit := hdigits (c.toNat - first) (by omega)
  rwa [hc, Char.ofNat_toNat, hd] at hdigit

theorem hexDigit?_eq_some_iff {c : Char} {d : Nat} :
    Text.hexDigit? c = some d ↔ IsDigit c d := by
  constructor
  · intro h
    have hle (x y : Char) : x ≤ y ↔ x.toNat ≤ y.toNat := Iff.rfl
    simp only [Text.hexDigit?, hle, Char.reduceToNat] at h
    split at h
    · next hrange =>
      have hd : c.toNat - 48 + 0 = d := Option.some.inj h
      exact isDigit_of_range (by decide) hrange hd
    · split at h
      · next hrange => exact isDigit_of_range (by decide) hrange (Option.some.inj h)
      · split at h
        · next hrange => exact isDigit_of_range (by decide) hrange (Option.some.inj h)
        · cases h
  · have hdigits : ∀ d < 16, Text.hexDigit? d.digitChar = some d ∧
        Text.hexDigit? d.digitChar.toUpper = some d := by decide
    rintro ⟨hd, rfl | rfl⟩
    · exact (hdigits d hd).1
    · exact (hdigits d hd).2

/-! ## numerals -/

/-- The characters are the digits of the number, most significant first; there is at least one. -/
def IsNumeral (cs : List Char) (n : Nat) : Prop :=
  cs ≠ [] ∧ ∃ ds, List.Forall₂ IsDigit cs ds ∧ Nat.ofDigits 16 ds.reverse = n

/-- Neither a sign nor the second character of a marker is a digit. -/
theorem IsDigit.ne {c : Char} {d : Nat} (h : IsDigit c d) : c ≠ '+' ∧ c ≠ 'x' := by
  rw [← hexDigit?_eq_some_iff] at h
  constructor <;> rintro rfl <;> contradiction

theorem exists_isDigit {cs : List Char} {ds : List Nat} (h : List.Forall₂ IsDigit cs ds) {c : Char}
    (hc : c ∈ cs) : ∃ d, IsDigit c d := by
  induction h with
  | nil => contradiction
  | cons hd _ ih =>
      rcases List.mem_cons.mp hc with rfl | hc
      · exact ⟨_, hd⟩
      · exact ih hc

/-- A digit in front of others counts for each of them: behind a number it can be made part of the
number. -/
theorem exists_digits_cons_iff {c : Char} {d : Nat} (hdigit : Text.hexDigit? c = some d)
    (cs : List Char) (value n : Nat) :
    (∃ ds, List.Forall₂ IsDigit (c :: cs) ds ∧
        value * 16 ^ (c :: cs).length + Nat.ofDigits 16 ds.reverse = n) ↔
      ∃ ds, List.Forall₂ IsDigit cs ds ∧
        (value * 16 + d) * 16 ^ cs.length + Nat.ofDigits 16 ds.reverse = n := by
  have hvalue (ds : List Nat) (hds : List.Forall₂ IsDigit cs ds) :
      value * 16 ^ (c :: cs).length + Nat.ofDigits 16 (d :: ds).reverse =
        (value * 16 + d) * 16 ^ cs.length + Nat.ofDigits 16 ds.reverse := by
    rw [List.reverse_cons, Nat.ofDigits_append, Nat.ofDigits_singleton, List.length_reverse,
      ← hds.length_eq, List.length_cons]
    ring
  simp only [List.forall₂_cons_left_iff, ← hexDigit?_eq_some_iff, hdigit]
  constructor
  · rintro ⟨_, ⟨_, ds, ⟨⟩, hds, rfl⟩, hn⟩
    exact ⟨ds, hds, (hvalue ds hds).symm.trans hn⟩
  · rintro ⟨ds, hds, hn⟩
    exact ⟨_, ⟨d, ds, rfl, hds, rfl⟩, (hvalue ds hds).trans hn⟩

/-- Digits behind a number are read when what they make of it can be held. -/
theorem readDigits_ok_iff {value n : Nat} {cs : List Char} (hvalue : value < 2 ^ 64) :
    readDigits value cs = .ok n ↔ n < 2 ^ 64 ∧ ∃ ds, List.Forall₂ IsDigit cs ds ∧
      value * 16 ^ cs.length + Nat.ofDigits 16 ds.reverse = n := by
  induction cs generalizing value with
  | nil =>
      constructor
      · intro h
        obtain rfl : value = n := Except.ok.inj h
        exact ⟨hvalue, [], .nil, by simp⟩
      · rintro ⟨-, _, ⟨⟩, rfl⟩
        simp [readDigits]
  | cons c cs ih =>
      cases hdigit : Text.hexDigit? c with
      | none => simp [readDigits, hdigit, List.forall₂_cons_left_iff, ← hexDigit?_eq_some_iff]
      | some d =>
          have hsize : UInt64.size = 2 ^ 64 := rfl
          rw [exists_digits_cons_iff hdigit]
          simp only [readDigits, hdigit, hsize]
          split
          · next hlarge =>
            -- the number only grows, so it is too large already
            constructor
            · intro h
              cases h
            · rintro ⟨hlt, ds, -, hn⟩
              have hgrows : (value * 16 + d) * 1 ≤ (value * 16 + d) * 16 ^ cs.length :=
                Nat.mul_le_mul_left _ (Nat.one_le_pow _ _ (by decide))
              omega
          · next hsmall => exact ih (Nat.not_le.mp hsmall)

/-! ## markers and signs -/

/-- Any number of markers. -/
def markers (count : Nat) : List Char :=
  (List.replicate count ['0', 'x']).flatten

/-- A plus sign or nothing. -/
def sign (signed : Bool) : List Char :=
  if signed then ['+'] else []

@[simp] theorem markers_zero : markers 0 = [] := rfl

@[simp] theorem markers_succ (count : Nat) :
    markers (count + 1) = '0' :: 'x' :: markers count := rfl

theorem exists_markers (cs : List Char) : ∃ count, cs = markers count ++ dropMarkers cs := by
  fun_induction dropMarkers cs with
  | case1 cs ih =>
      obtain ⟨count, hcs⟩ := ih
      exact ⟨count + 1, by rw [markers_succ, List.cons_append, List.cons_append, ← hcs]⟩
  | case2 cs => exact ⟨0, rfl⟩

theorem dropMarkers_markers (count : Nat) (cs : List Char) :
    dropMarkers (markers count ++ cs) = dropMarkers cs := by
  induction count with
  | zero => rfl
  | succ count ih => simp only [markers_succ, List.cons_append, dropMarkers, ih]

theorem dropMarkers_eq_self {cs : List Char} (h : 'x' ∉ cs) : dropMarkers cs = cs := by
  unfold dropMarkers
  split
  · simp at h
  · rfl

theorem exists_sign (cs : List Char) : ∃ signed, cs = sign signed ++ dropSign cs := by
  unfold dropSign
  split
  · exact ⟨true, rfl⟩
  · exact ⟨false, rfl⟩

theorem dropSign_sign {signed : Bool} {cs : List Char} (hne : cs ≠ []) (hplus : '+' ∉ cs) :
    dropSign (sign signed ++ cs) = cs := by
  obtain ⟨c, cs, rfl⟩ := List.exists_cons_of_ne_nil hne
  cases signed with
  | true => rfl
  | false =>
      have hc : c ≠ '+' := fun h => hplus (h ▸ List.mem_cons_self)
      show dropSign (c :: cs) = c :: cs
      unfold dropSign
      split
      · next h => injection h; contradiction
      · rfl

theorem dropSign_ne_nil {cs : List Char} (h : cs ≠ []) : dropSign cs ≠ [] := by
  unfold dropSign
  split
  · exact List.cons_ne_nil _ _
  · exact h

/-! ## texts -/

/-- An address: one marker or none, then digits and nothing else, of a number below `2 ^ 64`. -/
def IsHex (text : String) (n : Nat) : Prop :=
  ∃ digits, IsNumeral digits n ∧ n < 2 ^ 64 ∧
    (text.toList = digits ∨ text.toList = '0' :: 'x' :: digits)

/-- What is read as an address: any number of markers, a plus sign or none, then digits and nothing
else, of a number below `2 ^ 64`. -/
def Reads (text : String) (n : Nat) : Prop :=
  ∃ digits, IsNumeral digits n ∧ n < 2 ^ 64 ∧
    ∃ count signed, text.toList = markers count ++ (sign signed ++ digits)

theorem IsNumeral.notMem {cs : List Char} {n : Nat} (h : IsNumeral cs n) : '+' ∉ cs ∧ 'x' ∉ cs := by
  obtain ⟨-, ds, hds, -⟩ := h
  constructor <;> intro hmem <;> obtain ⟨d, hd⟩ := exists_isDigit hds hmem
  · exact hd.ne.1 rfl
  · exact hd.ne.2 rfl

theorem readDigits_zero_ok_iff {cs : List Char} {n : Nat} (hne : cs ≠ []) :
    readDigits 0 cs = .ok n ↔ IsNumeral cs n ∧ n < 2 ^ 64 := by
  rw [readDigits_ok_iff (by decide)]
  simp only [Nat.zero_mul, Nat.zero_add]
  constructor
  · rintro ⟨hlt, hdigits⟩
    exact ⟨⟨hne, hdigits⟩, hlt⟩
  · rintro ⟨⟨-, hdigits⟩, hlt⟩
    exact ⟨hlt, hdigits⟩

theorem parse_eq {text : String} (h : dropMarkers text.toList ≠ []) :
    parse text = readDigits 0 (dropSign (dropMarkers text.toList)) := by
  unfold parse
  split
  · contradiction
  · rfl

/-- **A text is read exactly when it is a numeral behind markers and a sign.** -/
theorem parse_ok_iff {text : String} {n : Nat} : parse text = .ok n ↔ Reads text n := by
  constructor
  · intro h
    have hne : dropMarkers text.toList ≠ [] := by
      intro hnil
      rw [parse, hnil] at h
      contradiction
    rw [parse_eq hne, readDigits_zero_ok_iff (dropSign_ne_nil hne)] at h
    obtain ⟨count, hmarkers⟩ := exists_markers text.toList
    obtain ⟨signed, hsign⟩ := exists_sign (dropMarkers text.toList)
    refine ⟨_, h.1, h.2, count, signed, ?_⟩
    rw [← hsign]
    exact hmarkers
  · rintro ⟨digits, hnumeral, hlt, count, signed, htext⟩
    obtain ⟨hplus, hx⟩ := hnumeral.notMem
    have hrest : dropMarkers text.toList = sign signed ++ digits := by
      rw [htext, dropMarkers_markers]
      apply dropMarkers_eq_self
      cases signed <;> simp [sign, hx]
    have hne : dropMarkers text.toList ≠ [] := by
      rw [hrest]
      exact List.append_ne_nil_of_right_ne_nil _ hnumeral.1
    rw [parse_eq hne, hrest, dropSign_sign hnumeral.1 hplus, readDigits_zero_ok_iff hnumeral.1]
    exact ⟨hnumeral, hlt⟩

/-- **Of the texts that are read, the addresses are those with one marker at most and no sign.** -/
theorem isHex_iff {text : String} {n : Nat} :
    IsHex text n ↔ Reads text n ∧ ¬markers 2 <+: text.toList ∧ '+' ∉ text.toList := by
  constructor
  · rintro ⟨digits, hnumeral, hlt, htext⟩
    obtain ⟨hplus, hx⟩ := hnumeral.notMem
    refine ⟨⟨digits, hnumeral, hlt, ?_⟩, ?_⟩
    · rcases htext with htext | htext
      · exact ⟨0, false, htext⟩
      · exact ⟨1, false, htext⟩
    · rcases htext with htext | htext <;> rw [htext]
      · refine ⟨fun h => hx (h.subset ?_), hplus⟩
        simp
      · refine ⟨fun h => ?_, by simpa using hplus⟩
        have h : markers 1 <+: digits := by simpa using h
        exact hx (h.subset (by simp))
  · rintro ⟨⟨digits, hnumeral, hlt, count, signed, htext⟩, hmarkers, hplus⟩
    refine ⟨digits, hnumeral, hlt, ?_⟩
    have hsigned : signed = false := by
      cases signed with
      | false => rfl
      | true => simp [htext, sign] at hplus
    subst hsigned
    match count with
    | 0 => exact .inl htext
    | 1 => exact .inr htext
    | count + 2 => simp [htext] at hmarkers

end Address

/-! ## settings -/

open Address (IsHex Reads)

namespace Etherbone

/-- The address settings by name, in the order in which they are read. -/
def addresses (e : Etherbone) : List (String × String) :=
  [("etherbone.sram_base", e.sramBase), ("etherbone.sram_size", e.sramSize),
    ("etherbone.msi_base", e.msiBase)]

theorem address_ok_iff_reads {setting text : String} {n : Nat} :
    address setting text = .ok n ↔ Reads text n :=
  address_ok_iff.trans Address.parse_ok_iff

/-- A text that is refused is refused by name, and because it is not read. -/
theorem address_error_iff {setting text : String} {fault : Fault} :
    address setting text = .error fault ↔
      (¬∃ n, Reads text n) ∧ ∃ why, Address.parse text = .error why ∧
        fault = .badAddress setting text why := by
  unfold address
  cases hparse : Address.parse text with
  | ok n => exact ⟨nofun, fun ⟨hnot, _⟩ => absurd ⟨n, Address.parse_ok_iff.mp hparse⟩ hnot⟩
  | error why =>
      have hnot : ¬∃ n, Reads text n := by
        rintro ⟨n, hn⟩
        rw [Address.parse_ok_iff.mpr hn] at hparse
        contradiction
      constructor
      · intro h
        exact ⟨hnot, why, rfl, (Except.error.inj h).symm⟩
      · rintro ⟨-, _, hwhy, rfl⟩
        rw [Except.error.inj hwhy]

theorem address_of_not_reads (setting : String) {text : String} (h : ¬∃ n, Reads text n) :
    ∃ why, address setting text = .error (.badAddress setting text why) := by
  cases haddress : address setting text with
  | ok n => exact absurd ⟨n, address_ok_iff_reads.mp haddress⟩ h
  | error fault =>
      obtain ⟨-, why, -, rfl⟩ := address_error_iff.mp haddress
      exact ⟨why, rfl⟩

/-- Settings of which one is not read are refused for one that is not read. -/
theorem layout_of_not_reads {e : Etherbone} (h : ∃ a ∈ e.addresses, ¬∃ n, Reads a.2 n) :
    ∃ a ∈ e.addresses, (¬∃ n, Reads a.2 n) ∧
      ∃ why, e.layout = .error (.badAddress a.1 a.2 why) := by
  have hrefused (setting text : String) (fault : Fault) (hmem : (setting, text) ∈ e.addresses)
      (haddress : address setting text = .error fault) :
      ∃ a ∈ e.addresses, (¬∃ n, Reads a.2 n) ∧
        ∃ why, (.error fault : Except Fault Layout) = .error (.badAddress a.1 a.2 why) := by
    obtain ⟨hnot, why, -, rfl⟩ := address_error_iff.mp haddress
    exact ⟨(setting, text), hmem, hnot, why, rfl⟩
  cases hlayout : e.layout with
  | ok l =>
      obtain ⟨hbase, hsize, hmsi⟩ := (layout_ok_iff e l).mp hlayout
      obtain ⟨a, ha, hnot⟩ := h
      simp only [addresses, List.mem_cons, List.not_mem_nil, or_false] at ha
      rcases ha with rfl | rfl | rfl
      · exact absurd ⟨_, Address.parse_ok_iff.mp hbase⟩ hnot
      · exact absurd ⟨_, Address.parse_ok_iff.mp hsize⟩ hnot
      · exact absurd ⟨_, Address.parse_ok_iff.mp hmsi⟩ hnot
  | error fault =>
      simp only [layout, bind_eq_error_iff] at hlayout
      rcases hlayout with hbase | ⟨_, -, hsize | ⟨_, -, hmsi | ⟨_, -, hdone⟩⟩⟩
      · exact hrefused _ _ _ (by simp [addresses]) hbase
      · exact hrefused _ _ _ (by simp [addresses]) hsize
      · exact hrefused _ _ _ (by simp [addresses]) hmsi
      · contradiction

end Etherbone

/-- Sizes and tags in order, a configuration is judged by its addresses. -/
theorem check_eq_of_sized {c : Config} (hsized : c.Sized)
    (hports : c.core.ports.etherbone ≠ c.core.ports.tlp) :
    c.check = c.etherbone.check.mapError .invalidConfig := by
  rw [check, (checkSizes_ok_iff c).mpr hsized, if_neg hports]
  rfl

/-- **What is read as an address.** A text is read as the number it is a numeral of, behind any
number of markers and a plus sign or none; every other text is refused as an invalid configuration
that names the setting, and so is a configuration with such a text whose sizes and tags are in
order. Every address is read as its value, and of the texts that are read exactly those are no
addresses that begin with two markers or have a sign. -/
theorem addresses_read (setting text : String) :
    (∀ n, Etherbone.address setting text = .ok n ↔ Reads text n) ∧
      ((¬∃ n, Reads text n) → ∃ why, (Etherbone.address setting text).mapError Error.invalidConfig =
        .error (.invalidConfig (.badAddress setting text why))) ∧
      (∀ n, IsHex text n ↔ Etherbone.address setting text = .ok n ∧
        ¬"0x0x".toList <+: text.toList ∧ '+' ∉ text.toList) ∧
      ∀ c : Config, c.Sized → c.core.ports.etherbone ≠ c.core.ports.tlp →
        (setting, text) ∈ c.etherbone.addresses → (¬∃ n, Reads text n) →
        ∃ a ∈ c.etherbone.addresses, (¬∃ n, Reads a.2 n) ∧
          ∃ why, c.check = .error (.invalidConfig (.badAddress a.1 a.2 why)) := by
  refine ⟨fun n => Etherbone.address_ok_iff_reads, fun hnot => ?_, fun n => ?_,
    fun c hsized hports hmem hnot => ?_⟩
  · obtain ⟨why, hwhy⟩ := Etherbone.address_of_not_reads setting hnot
    exact ⟨why, by rw [hwhy]; rfl⟩
  · rw [Etherbone.address_ok_iff_reads, Address.isHex_iff]
    rfl
  · obtain ⟨a, ha, hnot, why, hwhy⟩ := Etherbone.layout_of_not_reads ⟨_, hmem, hnot⟩
    refine ⟨a, ha, hnot, why, ?_⟩
    rw [check_eq_of_sized hsized hports, Etherbone.check, hwhy]
    rfl

/-- Digits of either case make an address; letters that are no digits are refused. -/
theorem addresses_read_either_case :
    IsHex "0xE000e000" 0xE000E000 ∧
      ∃ why, (Etherbone.address "etherbone.sram_base" "banana").mapError Error.invalidConfig =
        .error (.invalidConfig (.badAddress "etherbone.sram_base" "banana" why)) := by
  obtain ⟨-, -, hhex, -⟩ := addresses_read "etherbone.msi_base" "0xE000e000"
  obtain ⟨hreads, hrefused, -, -⟩ := addresses_read "etherbone.sram_base" "banana"
  have hbanana : Etherbone.address "etherbone.sram_base" "banana" =
      .error (.badAddress "etherbone.sram_base" "banana" .badDigit) := by decide
  constructor
  · exact (hhex _).mpr ⟨by decide, by decide, by decide⟩
  · apply hrefused
    rintro ⟨n, hn⟩
    rw [← hreads, hbanana] at hn
    contradiction

/-- A second marker and a sign are read over, though the texts are no addresses. -/
theorem marked_twice_read :
    (Etherbone.address "etherbone.sram_base" "0x0x10000000" = .ok 0x10000000 ∧
      ¬∃ n, IsHex "0x0x10000000" n) ∧
    (Etherbone.address "etherbone.sram_base" "+10000000" = .ok 0x10000000 ∧
      ¬∃ n, IsHex "+10000000" n) := by
  refine ⟨⟨by decide, ?_⟩, ⟨by decide, ?_⟩⟩ <;> rintro ⟨n, hn⟩ <;>
    obtain ⟨-, hmarkers, hplus⟩ := Address.isHex_iff.mp hn
  · exact hmarkers (by decide)
  · exact hplus (by decide)

end LinkBridge.Config
