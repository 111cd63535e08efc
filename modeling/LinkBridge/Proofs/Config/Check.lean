import LinkBridge.Config.Check
import LinkBridge.Proofs.Checks
import Mathlib.Algebra.Group.Nat.Defs

/-!
# LinkBridge.Proofs.Config.Check

What the checks of a configuration let through. Checks are made one after the other and the first
fault counts, but what passes all of them is said at once: the depths and ratios are usable
(`Sized`), the address settings stand for a layout (`Etherbone.Describes`), and the two devices lie
apart inside the address space (`Layout.Fits`).
-/

namespace LinkBridge

namespace Config

/-! ## sizes -/

/-- Whether every depth and ratio is usable. -/
structure Sized (c : Config) : Prop where
  clockRatio : 1 ≤ c.general.clockRatio
  linkFifo : 2 ≤ c.link.fifoDepth
  hostBuffer : 1 ≤ c.link.hostBufferWords
  streamDepth : 1 ≤ c.core.streamDepth
  maxPayload : 1 ≤ c.core.maxPayloadWords
  tlpFifo : 1 ≤ c.tlp.fifoDepth

theorem checkSizes_ok_iff (c : Config) : c.checkSizes = .ok () ↔ c.Sized := by
  simp only [checkSizes, check_eq_ok_iff, last_check_eq_ok_iff, ← Nat.pos_iff_ne_zero, Nat.not_lt]
  exact ⟨fun ⟨hratio, hlink, hhost, hstream, hpayload, htlp⟩ =>
      ⟨hratio, hlink, hhost, hstream, hpayload, htlp⟩,
    fun ⟨hratio, hlink, hhost, hstream, hpayload, htlp⟩ =>
      ⟨hratio, hlink, hhost, hstream, hpayload, htlp⟩⟩

/-! ## layouts -/

/-- Whether an address belongs to the scratch memory. -/
def Layout.InSram (l : Layout) (address : Nat) : Prop :=
  l.sramBase ≤ address ∧ address < l.sramBase + l.sramSize

/-- Whether an address belongs to the interrupt controller. -/
def Layout.InMsi (l : Layout) (address : Nat) : Prop :=
  l.msiBase ≤ address ∧ address < l.msiBase + 12

/-- Whether both devices are whole words inside the address space and share no address. -/
structure Layout.Fits (l : Layout) : Prop where
  nonempty : 0 < l.sramSize
  wholeWords : 4 ∣ l.sramSize
  sramAligned : 4 ∣ l.sramBase
  msiAligned : 4 ∣ l.msiBase
  sramInside : l.sramBase + l.sramSize ≤ 2 ^ 32
  msiInside : l.msiBase + 12 ≤ 2 ^ 32
  apart : ∀ address, l.InSram address → ¬l.InMsi address

theorem regionEnd_ok_iff {device : String} {base size n : Nat} :
    regionEnd device base size = .ok n ↔ base + size ≤ 2 ^ 32 ∧ base + size = n := by
  unfold regionEnd
  have hspace : addressSpace = 2 ^ 32 := rfl
  rw [hspace]
  split
  · next h => exact ⟨fun hn => ⟨h, Except.ok.inj hn⟩, fun ⟨_, hn⟩ => congrArg _ hn⟩
  · next h => exact ⟨nofun, fun ⟨hle, _⟩ => absurd hle h⟩

/-- Two ranges share an address when each begins before the other ends. -/
theorem Layout.apart_iff (l : Layout) (hsize : 0 < l.sramSize) :
    (∀ address, l.InSram address → ¬l.InMsi address) ↔
      ¬(l.sramBase < l.msiBase + 12 ∧ l.msiBase < l.sramBase + l.sramSize) := by
  unfold InSram InMsi
  constructor
  · intro hapart ⟨hsram, hmsi⟩
    exact hapart (max l.sramBase l.msiBase) ⟨by omega, by omega⟩ ⟨by omega, by omega⟩
  · intro hapart address hsram hmsi
    omega

/-- **A layout passes when its devices fit.** -/
theorem Layout.check_ok_iff (l : Layout) : l.check = .ok () ↔ l.Fits := by
  simp only [check, check_eq_ok_iff, last_check_eq_ok_iff, bind_eq_ok_iff, regionEnd_ok_iff,
    Wishbone.Msi.size]
  constructor
  · rintro ⟨hsize, haligned, _, ⟨hsram, rfl⟩, _, ⟨hmsi, rfl⟩, hapart⟩
    have hnonempty : 0 < l.sramSize := by omega
    exact ⟨hnonempty, by omega, by omega, by omega, hsram, hmsi,
      (l.apart_iff hnonempty).mpr hapart⟩
  · rintro ⟨hnonempty, hwhole, hsramAligned, hmsiAligned, hsram, hmsi, hapart⟩
    exact ⟨by omega, by omega, _, ⟨hsram, rfl⟩, _, ⟨hmsi, rfl⟩,
      (l.apart_iff hnonempty).mp hapart⟩

namespace Etherbone

/-- Whether the address settings stand for a layout. -/
structure Describes (e : Etherbone) (l : Layout) : Prop where
  sramBase : Address.parse e.sramBase = .ok l.sramBase
  sramSize : Address.parse e.sramSize = .ok l.sramSize
  msiBase : Address.parse e.msiBase = .ok l.msiBase

theorem address_ok_iff {setting text : String} {n : Nat} :
    address setting text = .ok n ↔ Address.parse text = .ok n := by
  unfold address
  cases Address.parse text <;> simp

theorem layout_ok_iff (e : Etherbone) (l : Layout) : e.layout = .ok l ↔ e.Describes l := by
  simp only [layout, bind_eq_ok_iff, address_ok_iff]
  constructor
  · rintro ⟨sramBase, hbase, sramSize, hsize, msiBase, hmsi, h⟩
    obtain rfl := Except.ok.inj h
    exact ⟨hbase, hsize, hmsi⟩
  · rintro ⟨hbase, hsize, hmsi⟩
    exact ⟨_, hbase, _, hsize, _, hmsi, rfl⟩

theorem check_ok_iff (e : Etherbone) (l : Layout) :
    e.check = .ok l ↔ e.Describes l ∧ l.Fits := by
  simp only [check, bind_eq_ok_iff, layout_ok_iff, ← Layout.check_ok_iff]
  constructor
  · rintro ⟨l', hdescribes, ⟨⟩, hcheck, h⟩
    obtain rfl := Except.ok.inj h
    exact ⟨hdescribes, hcheck⟩
  · rintro ⟨hdescribes, hcheck⟩
    exact ⟨l, hdescribes, (), hcheck, rfl⟩

end Etherbone

/-! ## configurations -/

/-- **A configuration passes when its sizes are usable, its users differ and its devices fit.** -/
theorem check_ok_iff (c : Config) (l : Layout) :
    c.check = .ok l ↔ c.Sized ∧ c.core.ports.etherbone ≠ c.core.ports.tlp ∧
      c.etherbone.Describes l ∧ l.Fits := by
  simp only [check, bind_eq_ok_iff, mapError_eq_ok_iff, check_eq_ok_iff, Etherbone.check_ok_iff,
    ← checkSizes_ok_iff]
  exact ⟨fun ⟨(), h⟩ => h, fun h => ⟨(), h⟩⟩

/-- **A configuration is refused for its tags when they are the same and the sizes are usable.** The
addresses are not looked at any more. -/
theorem check_eq_crossbar_iff (c : Config) (fault : Crossbar.Fault) :
    c.check = .error (.crossbar fault) ↔ c.Sized ∧ c.core.ports.etherbone = c.core.ports.tlp ∧
      fault = .assigned c.core.ports.tlp := by
  rw [← checkSizes_ok_iff]
  constructor
  · intro h
    cases hsizes : c.checkSizes with
    | error fault' =>
        rw [check, hsizes] at h
        have hother : Error.invalidConfig fault' = .crossbar fault := Except.error.inj h
        contradiction
    | ok _ =>
        by_cases hsame : c.core.ports.etherbone = c.core.ports.tlp
        · rw [check, hsizes, if_pos hsame] at h
          exact ⟨rfl, hsame, (Error.crossbar.inj (Except.error.inj h)).symm⟩
        · rw [check, hsizes, if_neg hsame] at h
          cases hetherbone : c.etherbone.check with
          | error fault' =>
              rw [hetherbone] at h
              have hother : Error.invalidConfig fault' = .crossbar fault := Except.error.inj h
              contradiction
          | ok layout => rw [hetherbone] at h; contradiction
  · rintro ⟨hsizes, hsame, rfl⟩
    rw [check, hsizes, if_pos hsame]
    rfl

end Config

end LinkBridge
