import LinkBridge.Proofs.System.Construction
import LinkBridge.Proofs.System.Service
import LinkBridge.Proofs.System.Trace

/-!
# LinkBridge.Proofs.System.Fresh

The bridge that a checked configuration describes. Its stages are wired as they have to be, because
the two users have different destinations, and nothing is under way in it (`fresh_ofConfig`), so a
trace of it begins with everything where it belongs (`Fresh.tracks`).
-/

namespace LinkBridge

/-- A checked configuration gives its users different destinations and a TLP buffer, its clocks a
ratio, and its devices a layout in which they fit. -/
theorem Config.check_ok {config : Config} {layout : Config.Layout}
    (h : config.check = .ok layout) :
    config.core.ports.etherbone ≠ config.core.ports.tlp ∧ config.tlp.fifoDepth ≠ 0 ∧
      config.general.clockRatio ≠ 0 ∧ layout.Fits := by
  obtain ⟨hsized, hdistinct, -, hfits⟩ := (config.check_ok_iff layout).mp h
  exact ⟨hdistinct, Nat.pos_iff_ne_zero.mp hsized.tlpFifo,
    Nat.pos_iff_ne_zero.mp hsized.clockRatio, hfits⟩

namespace Bridge

variable {config : Config} {b : Bridge}

/-! ## fresh bridges -/

/-- A bridge to which nothing has happened. -/
structure Fresh (b : Bridge) : Prop where
  wired : b.core.Wired
  calm : b.core.Calm
  idle : b.isIdle = true
  received : b.host.sentWords = []
  linkCounters : b.linkCounters = {}
  coreCounters : b.core.counters = {}

/-- **The bridge of a checked configuration is fresh.** -/
theorem fresh_ofConfig (h : ofConfig config = .ok b) : b.Fresh := by
  obtain ⟨layout, hcheck, rfl⟩ := exists_layout h
  obtain ⟨hdistinct, -⟩ := Config.check_ok hcheck
  have hdevices : (assemble config layout).core.bus.kinds.count true ≤ 1 ∧
      (assemble config layout).core.bus.isIdle = true := by
    show (Wishbone.Bus.ofDevices _).kinds.count true ≤ 1 ∧ (Wishbone.Bus.ofDevices _).isIdle = true
    unfold Wishbone.Bus.ofDevices
    simp only [List.foldl_cons, List.foldl_nil, Wishbone.Bus.add, Wishbone.Bus.insertByBase]
    split <;> exact ⟨Nat.le_refl 1, rfl⟩
  exact
    { wired :=
        { distinct := hdistinct
          tags := rfl
          responder := rfl
          serializer := rfl
          sound := Tlp.Serializer.sound_empty _ _
          known := fun _ hgrant => absurd hgrant.symm (Option.some_ne_none _)
          inbound := CrossFifo.isOpen_empty _
          outbound := CrossFifo.isOpen_empty _
          controllers := hdevices.1 }
      calm :=
        { bus := hdevices.2
          capacity := Nat.le_refl 1
          staged := rfl
          popped := rfl
          single := Nat.zero_le 1
          request := fun hne => absurd rfl hne }
      idle := by
        simp only [isIdle, linkIdle, Core.isIdle, hdevices.2]
        rfl
      received := rfl
      linkCounters := rfl
      coreCounters := rfl }

/-- The settings of the bridge of a checked configuration. -/
theorem settings_ofConfig (h : ofConfig config = .ok b) :
    b.core.etherboneTag = config.core.ports.etherbone ∧ b.core.tlpTag = config.core.ports.tlp ∧
      b.core.deframer.timeout = config.core.frameTimeout ∧
      b.core.deframer.maxPayload = config.core.maxPayloadWords ∧
      b.core.serializer.depth = config.tlp.fifoDepth := by
  obtain ⟨layout, hcheck, rfl⟩ := exists_layout h
  obtain ⟨-, hdepth, -⟩ := Config.check_ok hcheck
  refine ⟨rfl, rfl, rfl, rfl, ?_⟩
  show max config.tlp.fifoDepth 1 = config.tlp.fifoDepth
  omega

/-- The layout of the default configuration. -/
def defaultLayout : Config.Layout :=
  { sramBase := 0x10000000, sramSize := 0x8000, msiBase := 0xe0008000 }

/-- The settings of the TLP path leave the layout alone. -/
theorem check_default (tlp : Config.Tlp) (h : 1 ≤ tlp.fifoDepth) :
    ({ tlp } : Config).check = .ok defaultLayout := by
  have hdefault : ({} : Config).check = .ok defaultLayout := rfl
  obtain ⟨hsized, hothers⟩ := (Config.check_ok_iff _ _).mp hdefault
  exact (Config.check_ok_iff _ _).mpr ⟨{ hsized with tlpFifo := h }, hothers⟩

/-- The frame of a memory read of one dword. -/
def readFrame : List Word :=
  let request : Tlp.Request :=
    { length := 1, requester := 0, tag := 7, firstEnable := 15, lastEnable := 0, address := 16 }
  Frame.ofPacket { dst := 1, payload := Tlp.Record.toDwords { header := .memRead request } }

/-- The parts of an idle bridge. -/
theorem isIdle_parts (h : b.isIdle = true) :
    b.host.toDevice = [] ∧ b.core.outbound.contents = [] ∧ b.core.isIdle = true := by
  simp only [isIdle, linkIdle, Bool.and_eq_true] at h
  obtain ⟨⟨htoDevice, houtbound⟩, hcore⟩ := h
  exact ⟨List.isEmpty_iff.mp htoDevice, CrossFifo.contents_of_readerEmpty houtbound, hcore⟩

/-- **A trace of a fresh bridge begins with everything where it belongs.** -/
theorem Fresh.tracks (h : b.Fresh) : (Trace.start b).Tracks b.core [] := by
  obtain ⟨htoDevice, -, hcore⟩ := isIdle_parts h.idle
  obtain ⟨⟨hinbound, -, hdeframer, -⟩, -, -, -⟩ := Core.idle_parts hcore
  have hphase : b.core.deframer.phase = .hunt := (Deframer.isIdle_iff _).mp hdeframer
  have hstart : (Trace.start b).reader =
      .start b.core.deframer.timeout b.core.deframer.maxPayload := by
    rw [Trace.start, Deframer.History.start, ← hphase]
  have hwords : (Trace.start b).hostWords = [] := h.received
  exact
    { wired := h.wired
      measured := h.wired.measured hcore
      calm := h.calm
      faithful := hstart ▸ Deframer.History.faithful_start _ _
      reader := rfl
      settings := ⟨rfl, rfl⟩
      uncut := fun _ => rfl
      accepted := by
        show [] = [] ++ b.core.inbound.contents ++ b.host.toDevice
        rw [hinbound, htoDevice]
        rfl
      advances := hwords ▸ Core.Advances.refl b.core
      lossless := by
        show b.linkCounters.Lossless
        rw [h.linkCounters]
        rfl
      losses := by
        show b.core.counters.losses.framing = _
        rw [h.coreCounters]
        rfl }

end Bridge

end LinkBridge
