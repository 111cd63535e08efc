import LinkBridge.Proofs.Allocation
import LinkBridge.Proofs.Config.Check
import LinkBridge.Proofs.Wishbone.Decoding
import LinkBridge.System.Construct

/-!
# LinkBridge.Proofs.System.Construction

How a bridge comes to be. Of the steps behind the checks of a configuration only those fail that ask
for memory: the users are registered and the addresses are read, whatever has passed the checks
(`Core.construct_eq`). So there is a bridge exactly when the configuration passes and every storage
can be had (`construct_eq`), and on its bus every address leads to the device that the configuration
puts there. The checks do not look at the memory, and they let configurations through that no
machine has memory for (`construction_exhausted`).

Main statement: `construction_exact`.
-/

namespace LinkBridge

/-! ## addresses -/

namespace Wishbone

theorem Device.covers_iff (d : Device) (address : Nat) :
    d.covers address = true ↔ d.base ≤ address ∧ address < d.base + d.size := by
  simp only [covers, Bool.and_eq_true, decide_eq_true_eq]

/-- The device an access to an address reaches. -/
def Bus.device? (b : Bus) (address : Nat) : Option Device :=
  (b.locate address).bind (b.devices[·]?)

section

variable {b : Bus} (h : b.Apart) (address : Nat)

include h

theorem Bus.device?_eq_find? : b.device? address = b.devices.find? (·.covers address) := by
  rw [device?, locate_eq h, List.find?_eq_bind_findIdx?_getElem?]

theorem Bus.device?_eq_some_iff (d : Device) :
    b.device? address = some d ↔ d ∈ b.devices ∧ d.covers address = true := by
  rw [device?_eq_find? h]
  constructor
  · intro hfind
    have hcovers := List.find?_some hfind
    exact ⟨List.mem_of_find?_eq_some hfind, hcovers⟩
  · rintro ⟨hd, hcovers⟩
    rw [← List.head?_filter, filter_covers h hd hcovers]
    rfl

theorem Bus.device?_eq_none_iff :
    b.device? address = none ↔ ∀ d ∈ b.devices, d.covers address = false := by
  simp [device?_eq_find? h]

end

end Wishbone

namespace Config.Layout

open Wishbone (Device)

variable {l : Layout}

/-- The devices of a layout. -/
def devices (l : Layout) : List Device :=
  [.sram (.ofSize l.sramBase l.sramSize), .msi { base := l.msiBase }]

theorem covers_sram_iff (h : l.Fits) (address : Nat) :
    (Device.sram (.ofSize l.sramBase l.sramSize)).covers address = true ↔ l.InSram address := by
  rw [Device.covers_iff]
  show l.sramBase ≤ address ∧ address < l.sramBase + l.sramSize / 4 * 4 ↔ _
  rw [Nat.div_mul_cancel h.wholeWords]
  rfl

theorem covers_msi_iff (l : Layout) (address : Nat) :
    (Device.msi { base := l.msiBase }).covers address = true ↔ l.InMsi address :=
  Device.covers_iff _ address

/-- **Devices that fit share no address.** -/
theorem Fits.pairwise_devices (h : l.Fits) : l.devices.Pairwise Device.Disjoint := by
  refine List.pairwise_pair.mpr fun address hsram => ?_
  have hmsi := h.apart address ((covers_sram_iff h address).mp hsram)
  rwa [← covers_msi_iff, Bool.not_eq_true] at hmsi

/-- **Every address leads to the device that the layout puts there.** -/
theorem Fits.device?_iff (h : l.Fits) (address : Nat) :
    let device? := (Wishbone.Bus.ofDevices l.devices).device? address
    (device? = some (.sram (.ofSize l.sramBase l.sramSize)) ↔ l.InSram address) ∧
      (device? = some (.msi { base := l.msiBase }) ↔ l.InMsi address) ∧
      (device? = none ↔ ¬l.InSram address ∧ ¬l.InMsi address) := by
  have hapart := Wishbone.Bus.apart_ofDevices h.pairwise_devices
  have hmem (d : Device) : d ∈ (Wishbone.Bus.ofDevices l.devices).devices ↔ d ∈ l.devices :=
    (Wishbone.Bus.ofDevices_perm l.devices).mem_iff
  intro device?
  refine ⟨?_, ?_, ?_⟩
  · rw [Wishbone.Bus.device?_eq_some_iff hapart, hmem, covers_sram_iff h]
    exact and_iff_right List.mem_cons_self
  · rw [Wishbone.Bus.device?_eq_some_iff hapart, hmem, covers_msi_iff]
    exact and_iff_right (List.mem_cons_of_mem _ List.mem_cons_self)
  · simp only [device?, Wishbone.Bus.device?_eq_none_iff hapart, hmem]
    simp only [devices, List.forall_mem_cons, ← Bool.not_eq_true, covers_sram_iff h,
      covers_msi_iff]
    simp

end Config.Layout

/-! ## construction -/

/-- A port is registered at an open crossbar where its destination is new. -/
theorem Crossbar.register_of_notMem {x : Crossbar} {tag : UInt8} (hopen : x.closed = false)
    (hnew : tag ∉ x.tags) :
    x.register tag = .ok { x with ports := x.ports ++ [.empty tag x.depth] } := by
  have hport : x.port? tag = none := by
    rw [port?, List.find?_eq_none]
    intro p hp heq
    exact hnew (List.mem_map.mpr ⟨p, hp, beq_iff_eq.mp heq⟩)
  simp [register, hopen, hport]

/-- Different users are registered, and settings that describe a layout are read: what is left of
the construction is to ask for memory. -/
theorem Core.construct_eq (a : Allocator) {config : Config} {layout : Config.Layout}
    (hdistinct : config.core.ports.etherbone ≠ config.core.ports.tlp)
    (hdescribes : config.etherbone.Describes layout) :
    construct a config =
      a.provide (assemble config layout).storages >>= fun _ => .ok (assemble config layout) := by
  have hlayout := (config.etherbone.layout_ok_iff layout).mpr hdescribes
  let x : Crossbar := { depth := config.core.streamDepth }
  let x' : Crossbar := { x with ports := [.empty config.core.ports.etherbone x.depth] }
  have hfirst : x.register config.core.ports.etherbone = .ok x' :=
    x.register_of_notMem rfl List.not_mem_nil
  have hsecond : x'.register config.core.ports.tlp =
      .ok { x' with ports := x'.ports ++ [.empty config.core.ports.tlp x.depth] } :=
    x'.register_of_notMem rfl fun hmem => hdistinct (List.mem_singleton.mp hmem).symm
  rw [construct, hfirst]
  show (((x'.register config.core.ports.tlp).mapError _) >>= _) = _
  rw [hsecond, hlayout]
  rfl

namespace Bridge

variable {config : Config} {b : Bridge}

theorem exists_layout (h : ofConfig config = .ok b) :
    ∃ layout, config.check = .ok layout ∧ b = assemble config layout := by
  unfold ofConfig at h
  cases hcheck : config.check with
  | error fault =>
      rw [hcheck] at h
      contradiction
  | ok layout =>
      rw [hcheck] at h
      exact ⟨layout, rfl, (Except.ok.inj h).symm⟩

/-- **There is a bridge when the configuration passes the checks and every storage can be had.** -/
theorem construct_eq (a : Allocator) (config : Config) : construct a config =
    match ofConfig config with
    | .error error => .error (.refused error)
    | .ok b => a.provide b.storages >>= fun _ => .ok b := by
  unfold construct ofConfig
  cases hcheck : config.check with
  | error error => rfl
  | ok layout =>
      obtain ⟨-, hdistinct, hdescribes, -⟩ := (config.check_ok_iff layout).mp hcheck
      let core := Core.assemble config layout
      let b := assemble config layout
      show (Core.construct a config >>= _) = a.provide (core.storages ++ b.linkStorages) >>= _
      rw [Core.construct_eq a hdistinct hdescribes, a.provide_append]
      cases a.provide core.storages <;> rfl

theorem construct_ok_iff (a : Allocator) (config : Config) (b : Bridge) :
    construct a config = .ok b ↔
      ofConfig config = .ok b ∧ ∀ s ∈ b.storages, a.grants s = true := by
  rw [construct_eq]
  cases ofConfig config with
  | error error => exact ⟨nofun, nofun⟩
  | ok b' =>
      simp only [bind_eq_ok_iff, a.provide_eq_ok_iff, Except.ok.injEq]
      constructor
      · rintro ⟨-, hgrants, rfl⟩
        exact ⟨rfl, hgrants⟩
      · rintro ⟨rfl, hgrants⟩
        exact ⟨(), hgrants, rfl⟩

/-- A construction fails in the checks, or for want of a storage. -/
theorem construct_error_iff (a : Allocator) (config : Config) (failure : Failure) :
    construct a config = .error failure ↔
      (∃ error, config.check = .error error ∧ failure = .refused error) ∨
        ∃ b s, ofConfig config = .ok b ∧ a.lacking? b.storages = some s ∧
          failure = .exhausted s := by
  rw [construct_eq, ofConfig]
  cases config.check with
  | error error => simp [Except.map, eq_comm]
  | ok layout => simp [Except.map, bind_eq_error_iff, a.provide_eq_error_iff]

/-- **The checks of a configuration are exact, and sufficient but for the memory.** A configuration
passes exactly when every depth and ratio is usable, the users have different tags, and the address
settings stand for two devices that fit; where only the tags are the same, that is the fault that is
reported. It leads to a bridge exactly when it passes and every storage can be had, and what the
checks refuse is refused with their fault. On the bus of the bridge every address leads to the one
device in whose range it is, and to none elsewhere. -/
theorem construction_exact (a : Allocator) (config : Config) :
    ((∃ layout, config.check = .ok layout) ↔
      config.Sized ∧ config.core.ports.etherbone ≠ config.core.ports.tlp ∧
        ∃ layout, config.etherbone.Describes layout ∧ layout.Fits) ∧
    (∀ fault, config.check = .error (.crossbar fault) ↔
      config.Sized ∧ config.core.ports.etherbone = config.core.ports.tlp ∧
        fault = .assigned config.core.ports.tlp) ∧
    ((∃ b, ofConfig config = .ok b) ↔ ∃ layout, config.check = .ok layout) ∧
    (∀ b, construct a config = .ok b ↔
      ofConfig config = .ok b ∧ ∀ s ∈ b.storages, a.grants s = true) ∧
    (∀ failure, construct a config = .error failure ↔
      (∃ error, config.check = .error error ∧ failure = .refused error) ∨
        ∃ b s, ofConfig config = .ok b ∧ a.lacking? b.storages = some s ∧
          failure = .exhausted s) ∧
    ∀ b, construct a config = .ok b → ∃ layout, config.etherbone.Describes layout ∧
      ∀ address,
        (b.core.bus.device? address = some (.sram (.ofSize layout.sramBase layout.sramSize)) ↔
          layout.InSram address) ∧
        (b.core.bus.device? address = some (.msi { base := layout.msiBase }) ↔
          layout.InMsi address) ∧
        (b.core.bus.device? address = none ↔ ¬layout.InSram address ∧ ¬layout.InMsi address) := by
  refine ⟨?_, config.check_eq_crossbar_iff, ⟨?_, ?_⟩, construct_ok_iff a config,
    construct_error_iff a config, fun b hb => ?_⟩
  · simp only [config.check_ok_iff, exists_and_left]
  · rintro ⟨b, hb⟩
    obtain ⟨layout, hcheck, -⟩ := exists_layout hb
    exact ⟨layout, hcheck⟩
  · rintro ⟨layout, hcheck⟩
    exact ⟨assemble config layout, by rw [ofConfig, hcheck]; rfl⟩
  · obtain ⟨hb, -⟩ := (construct_ok_iff a config b).mp hb
    obtain ⟨layout, hcheck, rfl⟩ := exists_layout hb
    obtain ⟨-, -, hdescribes, hfits⟩ := (config.check_ok_iff layout).mp hcheck
    exact ⟨layout, hdescribes, hfits.device?_iff⟩

/-- A bridge with a storage that is too large does not come about. -/
theorem exists_construct_exhausted (a : Allocator) (hb : ofConfig config = .ok b) {s : Storage}
    (hs : s ∈ b.storages) (hlarge : Storage.maxBytes < s.bytes) :
    ∃ s, construct a config = .error (.exhausted s) := by
  obtain ⟨lacking, hlacking⟩ := a.exists_lacking hs hlarge
  exact ⟨lacking, (construct_error_iff ..).mpr (.inr ⟨b, lacking, hb, hlacking, rfl⟩)⟩

/-- **Not everything that passes the checks describes a bridge**: the queues of this host would have
more bytes than any storage. -/
theorem construction_exhausted :
    let config : Config := { link := { hostBufferWords := 2 ^ 63 - 1 } }
    (∃ layout, config.check = .ok layout) ∧
      ∀ a, ∃ s, construct a config = .error (.exhausted s) := by
  intro config
  let layout : Config.Layout :=
    { sramBase := 0x10000000, sramSize := 0x8000, msiBase := 0xe0008000 }
  have hdefault : ({} : Config).check = .ok layout := rfl
  -- but for the host the configuration is the default one
  obtain ⟨hsized, hothers⟩ := (Config.check_ok_iff _ _).mp hdefault
  have hcheck : config.check = .ok layout :=
    (config.check_ok_iff layout).mpr ⟨{ hsized with hostBuffer := by decide }, hothers⟩
  have hb : ofConfig config = .ok (assemble config layout) := by rw [ofConfig, hcheck]; rfl
  let s : Storage := { items := 2 ^ 63 - 1, itemBytes := 4 }
  have hs : s ∈ (assemble config layout).storages :=
    List.mem_append_right _ (List.mem_append_right _ (List.mem_replicate.mpr ⟨by decide, rfl⟩))
  have hlarge : Storage.maxBytes < s.bytes := by decide
  exact ⟨⟨_, hcheck⟩, fun a => exists_construct_exhausted a hb hs hlarge⟩

end Bridge

end LinkBridge
