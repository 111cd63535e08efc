/-!
# LinkBridge.Counters

The traffic counters. A component never touches a running total: it reports what one tick added as
a `Counters` value of its own, and reports are combined with `+`. Sums add up; the two dwell maxima
keep the larger value. Under `+` the counters form a commutative monoid with `0`, so totals do not
depend on the order in which components report.
-/

namespace LinkBridge

/-- Counts of everything that crossed the bridge or was dropped by it. -/
structure Counters where
  linkTicks : Nat := 0
  systemTicks : Nat := 0
  /-- Words read from the host. -/
  linkWordsIn : Nat := 0
  /-- Words written to the host. -/
  linkWordsOut : Nat := 0
  busTurnarounds : Nat := 0
  /-- Longest time the bus stayed in the receive window with words waiting to be sent. -/
  receiveDwellMax : Nat := 0
  /-- Longest time the bus stayed in the transmit window with words waiting to be read. -/
  transmitDwellMax : Nat := 0
  packetsFramed : Nat := 0
  packetsDeframed : Nat := 0
  /-- Words skipped while looking for a frame. -/
  resyncWordsDropped : Nat := 0
  /-- Frames abandoned because the next word did not come. -/
  frameTimeouts : Nat := 0
  oversizePackets : Nat := 0
  packetsRouted : Nat := 0
  packetsUnrouted : Nat := 0
  packetsArbitrated : Nat := 0
  tlpBeatsIn : Nat := 0
  tlpBeatsOut : Nat := 0
  tlpPacketsSent : Nat := 0
  tlpPacketsReceived : Nat := 0
  tlpOverflows : Nat := 0
  tlpMalformed : Nat := 0
  etherboneWrites : Nat := 0
  etherboneReads : Nat := 0
  etherboneMalformed : Nat := 0
  wishboneUnmapped : Nat := 0
  msiSent : Nat := 0
  deriving DecidableEq, Inhabited

namespace Counters

/-! ## Combining reports -/

/-- Adds two reports; dwell maxima keep the larger value. -/
protected def add (a b : Counters) : Counters where
  linkTicks := a.linkTicks + b.linkTicks
  systemTicks := a.systemTicks + b.systemTicks
  linkWordsIn := a.linkWordsIn + b.linkWordsIn
  linkWordsOut := a.linkWordsOut + b.linkWordsOut
  busTurnarounds := a.busTurnarounds + b.busTurnarounds
  receiveDwellMax := max a.receiveDwellMax b.receiveDwellMax
  transmitDwellMax := max a.transmitDwellMax b.transmitDwellMax
  packetsFramed := a.packetsFramed + b.packetsFramed
  packetsDeframed := a.packetsDeframed + b.packetsDeframed
  resyncWordsDropped := a.resyncWordsDropped + b.resyncWordsDropped
  frameTimeouts := a.frameTimeouts + b.frameTimeouts
  oversizePackets := a.oversizePackets + b.oversizePackets
  packetsRouted := a.packetsRouted + b.packetsRouted
  packetsUnrouted := a.packetsUnrouted + b.packetsUnrouted
  packetsArbitrated := a.packetsArbitrated + b.packetsArbitrated
  tlpBeatsIn := a.tlpBeatsIn + b.tlpBeatsIn
  tlpBeatsOut := a.tlpBeatsOut + b.tlpBeatsOut
  tlpPacketsSent := a.tlpPacketsSent + b.tlpPacketsSent
  tlpPacketsReceived := a.tlpPacketsReceived + b.tlpPacketsReceived
  tlpOverflows := a.tlpOverflows + b.tlpOverflows
  tlpMalformed := a.tlpMalformed + b.tlpMalformed
  etherboneWrites := a.etherboneWrites + b.etherboneWrites
  etherboneReads := a.etherboneReads + b.etherboneReads
  etherboneMalformed := a.etherboneMalformed + b.etherboneMalformed
  wishboneUnmapped := a.wishboneUnmapped + b.wishboneUnmapped
  msiSent := a.msiSent + b.msiSent

instance : Add Counters := ⟨Counters.add⟩

instance : Zero Counters := ⟨{}⟩

theorem add_def (a b : Counters) : a + b = Counters.add a b := rfl

protected theorem add_comm (a b : Counters) : a + b = b + a := by
  simp only [add_def, Counters.add, Nat.add_comm, Nat.max_comm]

protected theorem add_assoc (a b c : Counters) : a + b + c = a + (b + c) := by
  simp only [add_def, Counters.add, Nat.add_assoc, Nat.max_assoc]

protected theorem add_zero (a : Counters) : a + 0 = a := by
  show Counters.add a {} = a
  simp [Counters.add]

/-! ## Summaries -/

/-- Packets the data path discarded. -/
def dropped (c : Counters) : Nat :=
  c.frameTimeouts + c.oversizePackets + c.packetsUnrouted + c.tlpOverflows

/-- Every counter under the name it is reported by, in reporting order. -/
def entries (c : Counters) : List (String × Nat) :=
  [("link_ticks", c.linkTicks), ("system_ticks", c.systemTicks),
    ("link_words_in", c.linkWordsIn), ("link_words_out", c.linkWordsOut),
    ("bus_turnarounds", c.busTurnarounds), ("receive_dwell_max", c.receiveDwellMax),
    ("transmit_dwell_max", c.transmitDwellMax), ("packets_framed", c.packetsFramed),
    ("packets_deframed", c.packetsDeframed), ("resync_words_dropped", c.resyncWordsDropped),
    ("depacketizer_timeouts", c.frameTimeouts), ("oversize_packets", c.oversizePackets),
    ("packets_routed", c.packetsRouted), ("packets_unrouted", c.packetsUnrouted),
    ("packets_arbitrated", c.packetsArbitrated), ("tlp_beats_in", c.tlpBeatsIn),
    ("tlp_beats_out", c.tlpBeatsOut), ("tlp_packets_sent", c.tlpPacketsSent),
    ("tlp_packets_received", c.tlpPacketsReceived), ("tlp_overflows", c.tlpOverflows),
    ("tlp_malformed", c.tlpMalformed), ("etherbone_writes", c.etherboneWrites),
    ("etherbone_reads", c.etherboneReads), ("etherbone_malformed", c.etherboneMalformed),
    ("wishbone_unmapped", c.wishboneUnmapped), ("msi_sent", c.msiSent)]

/-- The counters whose values are given by name. -/
def ofNamed (get : String → Nat) : Counters where
  linkTicks := get "link_ticks"
  systemTicks := get "system_ticks"
  linkWordsIn := get "link_words_in"
  linkWordsOut := get "link_words_out"
  busTurnarounds := get "bus_turnarounds"
  receiveDwellMax := get "receive_dwell_max"
  transmitDwellMax := get "transmit_dwell_max"
  packetsFramed := get "packets_framed"
  packetsDeframed := get "packets_deframed"
  resyncWordsDropped := get "resync_words_dropped"
  frameTimeouts := get "depacketizer_timeouts"
  oversizePackets := get "oversize_packets"
  packetsRouted := get "packets_routed"
  packetsUnrouted := get "packets_unrouted"
  packetsArbitrated := get "packets_arbitrated"
  tlpBeatsIn := get "tlp_beats_in"
  tlpBeatsOut := get "tlp_beats_out"
  tlpPacketsSent := get "tlp_packets_sent"
  tlpPacketsReceived := get "tlp_packets_received"
  tlpOverflows := get "tlp_overflows"
  tlpMalformed := get "tlp_malformed"
  etherboneWrites := get "etherbone_writes"
  etherboneReads := get "etherbone_reads"
  etherboneMalformed := get "etherbone_malformed"
  wishboneUnmapped := get "wishbone_unmapped"
  msiSent := get "msi_sent"

/-- Looking the entries up by name gives the counters back. -/
theorem ofNamed_entries (c : Counters) :
    ofNamed (fun name => ((entries c).lookup name).getD 0) = c := by
  simp [ofNamed, entries, List.lookup_cons]

end Counters

end LinkBridge
